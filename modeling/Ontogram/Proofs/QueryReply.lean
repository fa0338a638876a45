import Ontogram.Proofs.Budget
import Ontogram.Proofs.Ending
import Ontogram.Proofs.Response

set_option autoImplicit false

namespace Ontogram

namespace QueryError

/-- Whether an error says that a text is no query. -/
def isRefusal : QueryError → Bool
  | .noSelect | .noBlock => true
  | .timeout _ | .tooManySolutions _ _ | .duplicateColumn _ | .patternAsKey _ | .badPattern
  | .badBudget | .limitTooLarge => false

/-- Whether an error says that the budget is used up. -/
def isStop : QueryError → Bool
  | .timeout _ | .tooManySolutions _ _ => true
  | .noSelect | .noBlock | .duplicateColumn _ | .patternAsKey _ | .badPattern | .badBudget
  | .limitTooLarge => false

theorem not_isRefusal_of_isStop {e : QueryError} (stop : e.isStop = true) :
    ¬ e.isRefusal = true := by
  cases e <;> first | exact Bool.false_ne_true | cases stop

end QueryError

namespace Budget

/-- Whether a limit is none, or one that numbers can be compared with. -/
def IsLimit (v : Value) : Prop :=
  v = .null ∨ ∃ n, number? v = some n

/-- A budget of limits. -/
structure IsReadable (b : Budget) : Prop where
  timeout : IsLimit b.timeout
  maxSolutions : IsLimit b.maxSolutions

end Budget

namespace Settings

theorem isLimit_of_checkLimit {fault : SettingsError} {admits : Scalar → Bool} {v : Value}
    (h : checkLimit fault admits v = .ok ()) : Budget.IsLimit v := by
  cases v with
  | scalar n =>
    cases n with
    | null => exact Or.inl rfl
    | bool | int | real => exact Or.inr ⟨_, rfl⟩
    | text | moment | octets => cases h
  | list | map => cases h

/-- Settings that were checked have a budget of limits. -/
theorem isReadable_of_validate {s : Settings} (valid : s.validate = .ok ()) :
    s.budget.IsReadable := by
  simp only [validate, bind, Except.bind] at valid
  split at valid
  · cases valid
  split at valid
  · cases valid
  split at valid
  · cases valid
  rename_i timeout
  exact ⟨isLimit_of_checkLimit timeout, isLimit_of_checkLimit valid⟩

end Settings

namespace Session

variable (s : Session) (seconds : Float) (count : Int)

theorem checkTimeout_spec (limit : Budget.IsLimit s.budget.timeout) :
    (s.checkTimeout seconds).1.budget = s.budget ∧
      ∀ e ∈ (s.checkTimeout seconds).2, e.isStop = true := by
  unfold checkTimeout
  split
  · exact ⟨rfl, nofun⟩
  · rename_i given
    obtain ⟨n, number⟩ := limit.resolve_left given
    rw [number]
    dsimp only
    split
    · exact ⟨rfl, nofun⟩
    split
    · refine ⟨rfl, ?_⟩
      rintro _ ⟨⟩
      rfl
    · exact ⟨rfl, nofun⟩

theorem checkSolutions_spec (limit : Budget.IsLimit s.budget.maxSolutions) :
    (s.checkSolutions count).1.budget = s.budget ∧
      ∀ e ∈ (s.checkSolutions count).2, e.isStop = true := by
  unfold checkSolutions
  dsimp only
  split
  · exact ⟨rfl, nofun⟩
  · rename_i given
    obtain ⟨n, number⟩ := limit.resolve_left given
    rw [number]
    dsimp only
    split
    · refine ⟨rfl, ?_⟩
      rintro _ ⟨⟩
      rfl
    · exact ⟨rfl, nofun⟩

/-- A check that numbers are compared in leaves the budget as it is, and stops a run for nothing
but the budget. -/
theorem check_spec (readable : s.budget.IsReadable) :
    (s.check seconds count).1.budget = s.budget ∧
      ∀ e ∈ (s.check seconds count).2, e.isStop = true := by
  have timeout := checkTimeout_spec s seconds readable.timeout
  unfold check
  split
  · rename_i stopped
    rwa [stopped] at timeout
  · rename_i t passed
    rw [passed] at timeout
    have same : t.budget = s.budget := timeout.1
    have solutions := checkSolutions_spec t count (same ▸ readable.maxSolutions)
    exact ⟨solutions.1.trans same, solutions.2⟩

end Session

namespace SelectQuery

open Ontogram.Frame

/-- A query whose runs only the budget can stop: its columns are distinct and plain, as are the
names that its patterns share, none of its names is private, and its limit is a number of rows. -/
structure Regular (q : SelectQuery) : Prop where
  once : q.projection.Nodup
  named : ∀ p ∈ q.patterns, ∀ name ∈ variablesOf p, isPrivate name = false
  plain : q.PlainColumns
  range : ∀ limit ∈ q.limit, limit ≤ maxLimit

instance (ps : List TriplePattern) : Decidable (PlainJoins ps) :=
  inferInstanceAs (Decidable (ps.Pairwise _))

instance (q : SelectQuery) : Decidable q.PlainColumns :=
  decidable_of_iff ((∀ name ∈ q.namedColumns, Selection.isPattern name = false) ∧
      PlainJoins q.patterns)
    ⟨fun ⟨chosen, joined⟩ => ⟨chosen, joined⟩, fun ⟨chosen, joined⟩ => ⟨chosen, joined⟩⟩

instance (q : SelectQuery) : Decidable q.Regular :=
  decidable_of_iff (q.projection.Nodup ∧
      (∀ p ∈ q.patterns, ∀ name ∈ variablesOf p, isPrivate name = false) ∧ q.PlainColumns ∧
      ∀ limit ∈ q.limit, limit ≤ maxLimit)
    ⟨fun ⟨once, named, plain, range⟩ => ⟨once, named, plain, range⟩,
      fun ⟨once, named, plain, range⟩ => ⟨once, named, plain, range⟩⟩

/-- Patterns that can be joined are, until the budget is used up. -/
theorem isStop_of_solveBy {prefixes : Table String} {store : Store} {clock : Nat → Float}
    {ps : List TriplePattern} {f : Frame} {names : List String} {ss : List Solution}
    {s t : Session} {e : QueryError} (ready : Joinable f names ss ps)
    (readable : s.budget.IsReadable)
    (h : solveBy prefixes store clock ps f s = (t, .error e)) : e.isStop = true := by
  induction ps generalizing clock f names ss s with
  | nil => cases h
  | cons p ps ih =>
    obtain ⟨joined, join, after⟩ := ready.join prefixes store
    rw [solveBy, scan_eq prefixes store (ready.named p List.mem_cons_self)] at h
    simp only [join] at h
    let before := (s.recordPattern (matchesIn p prefixes store).rows.length).recordJoin
    have checked := before.check_spec (clock 0) joined.rows.length readable
    split at h
    · rename_i stopped
      rw [stopped] at checked
      cases h
      exact checked.2 _ rfl
    · rename_i passed
      rw [passed] at checked
      split at h
      · cases h
      · exact ih after (checked.1 ▸ readable) h

/-- The run of a regular query returns, or its budget is used up. -/
theorem isStop_of_runBy {q : SelectQuery} {store : Store} {clock : Nat → Float} {s : Session}
    {e : QueryError} (regular : q.Regular) (readable : s.budget.IsReadable)
    (h : (q.runBy store clock s).2 = .error e) : e.isStop = true := by
  have ready := joinable_seed regular.plain.joined regular.named
  unfold runBy at h
  split at h
  · rename_i stopped
    cases h
    have started : s.start.budget.IsReadable := readable
    exact isStop_of_solveBy ready started stopped
  · rename_i solved
    split at h
    · rename_i refused
      unfold rowsOf at refused
      split at refused
      · cases refused
      · rename_i limit given
        rw [if_neg (Int.not_lt.2 (regular.range limit given))] at refused
        cases refused
    · rename_i rows _
      obtain ⟨r, collected⟩ := collect_of_sound (sound_of_solved solved) regular.once
        regular.plain.chosen rows _
      rw [collected] at h
      cases h

end SelectQuery

namespace Query

/-- The surroundings of a text give it prefixes, and nothing else. -/
theorem parse_eq_map (surroundings : List (String × String)) (text : String) :
    parse surroundings text = (parse [] text).map fun parsed =>
      { parsed with query := { parsed.query with
          prefixes := prefixesOf surroundings (stripComments text.toList) } } := by
  unfold parse
  dsimp only
  split
  · rfl
  · split <;> rfl

theorem isRefusal_of_parse {surroundings : List (String × String)} {text : String} {e : QueryError}
    (h : parse surroundings text = .error e) : e.isRefusal = true := by
  unfold parse at h
  dsimp only at h
  split at h
  · cases h
    rfl
  · split at h
    · cases h
      rfl
    · cases h

theorem parse_error_iff (surroundings : List (String × String)) {text : String} :
    (∃ e, parse surroundings text = .error e) ↔ ∃ e, parse [] text = .error e := by
  rw [parse_eq_map]
  cases parse [] text with
  | error e => exact Iff.rfl
  | ok parsed =>
    constructor <;>
    · rintro ⟨_, ⟨⟩⟩

end Query

namespace SelectQuery

theorem Regular.of_parse {surroundings : List (String × String)} {text : String}
    (regular : ∀ parsed, Query.parse [] text = .ok parsed → parsed.query.Regular)
    {parsed : Query.Parsed} (read : Query.parse surroundings text = .ok parsed) :
    parsed.query.Regular := by
  rw [Query.parse_eq_map] at read
  cases alone : Query.parse [] text with
  | error e =>
    rw [alone] at read
    cases read
  | ok first =>
    rw [alone] at read
    cases read
    obtain ⟨once, named, plain, range⟩ := regular first alone
    exact ⟨once, named, ⟨plain.chosen, plain.joined⟩, range⟩

end SelectQuery

namespace Query

/-- The run of a text that holds a regular query, if any, returns or ends with an error that is
expected; which of them say that there is no query does not depend on the run. -/
theorem runBy_expected (surroundings : List (String × String)) (store : Store)
    (clock : Nat → Float) {text : String} {s : Session} (readable : s.budget.IsReadable)
    (regular : ∀ parsed, parse [] text = .ok parsed → parsed.query.Regular) :
    let result := (runBy surroundings store clock text s).2
    (∀ e, result = .error e → e.isRefusal = true ∨ e.isStop = true) ∧
      ((∃ e, result = .error e ∧ e.isRefusal = true) ↔ ∃ e, parse [] text = .error e) := by
  intro result
  rw [← parse_error_iff surroundings]
  cases read : parse surroundings text with
  | error e =>
    have refused : result = .error e := by simp only [result, runBy, read]
    have refusal := isRefusal_of_parse read
    rw [refused]
    refine ⟨?_, fun _ => ⟨e, rfl⟩, fun _ => ⟨e, rfl, refusal⟩⟩
    rintro _ ⟨⟩
    exact Or.inl refusal
  | ok parsed =>
    have ran : result = (parsed.query.runBy store clock s).2 := by
      simp only [result, runBy, read]
    have stops {e : QueryError} (failed : result = .error e) : e.isStop = true :=
      SelectQuery.isStop_of_runBy (.of_parse regular read) readable (ran ▸ failed)
    refine ⟨fun e failed => Or.inr (stops failed), ?_, ?_⟩
    · rintro ⟨e, failed, refusal⟩
      exact absurd refusal (QueryError.not_isRefusal_of_isStop (stops failed))
    · rintro ⟨_, ⟨⟩⟩

end Query

namespace Service

/-- What is done with a graph that reading refuses. -/
theorem withDiagram_of_isRefusal {document : Value} {e : DocumentError}
    (read : Diagram.read document = .error e) (refusal : e.isRefusal = true)
    (f : Diagram → Except ServiceFault Reply) : withDiagram document f = .ok (.badGraph e) := by
  unfold withDiagram
  rw [read]
  cases e with
  | notMap => cases refusal
  | missing | notText | notRecords | notScalar | unknownKind | badNamespaces => rfl

/-- The graph in a request of the right shape has the right shape. -/
theorem graph?_of_queryBody? {body : Value} {q : QueryBody} (shape : queryBody? body = some q) :
    ∃ document, graph? document = some q.graph := by
  simp only [queryBody?, Option.bind_eq_bind, Option.bind_eq_some_iff, Option.pure_def,
    Option.some.injEq] at shape
  obtain ⟨_, _, _, _, graph, shaped, _, _, rfl⟩ := shape
  exact ⟨_, shaped⟩

/-- Under settings that are texts every diagram has triples and prefixes to run a query over. -/
theorem storeFor_ofNaming (d : Naming) (limits : QuerySettings) (source : Source)
    (diagram : Diagram) : ∃ store, storeFor ⟨.ofNaming d, limits⟩ source diagram = .ok store := by
  cases source with
  | encoding =>
    simp only [storeFor, encoding, NamingSettings.encode_ofNaming,
      NamingSettings.queryNameFor_ofNaming, fromSettings, bind, Except.bind]
    exact ⟨_, rfl⟩
  | outline =>
    simp only [storeFor, outlineStore, NamingSettings.baseFor_ofNaming,
      NamingSettings.queryNameFor_ofNaming, bind, Except.bind]
    exact ⟨_, rfl⟩

/-- What comes of a query has a reply, unless it is a fault that is not expected. -/
theorem status_replyTo {result : Except QueryError QueryResult}
    (expected : ∀ e, result = .error e → e.isRefusal = true ∨ e.isStop = true) :
    ∃ reply, replyTo result = .ok reply ∧ reply.status ∈ [200, 400, 408, 413] ∧
      (reply.status = 400 ↔ ∃ e, result = .error e ∧ e.isRefusal = true) := by
  cases result with
  | ok r =>
    refine ⟨.answered r, rfl, by simp [Reply.status], nofun, ?_⟩
    rintro ⟨_, ⟨⟩, _⟩
  | error e =>
    have known := expected e rfl
    cases e with
    | noSelect | noBlock =>
      exact ⟨.badQuery _, rfl, by simp [Reply.status], fun _ => ⟨_, rfl, rfl⟩, fun _ => rfl⟩
    | timeout =>
      refine ⟨.tooLong _, rfl, by simp [Reply.status], nofun, ?_⟩
      rintro ⟨_, ⟨⟩, ⟨⟩⟩
    | tooManySolutions =>
      refine ⟨.tooLarge _, rfl, by simp [Reply.status], nofun, ?_⟩
      rintro ⟨_, ⟨⟩, ⟨⟩⟩
    | duplicateColumn | patternAsKey | badPattern | badBudget | limitTooLarge =>
      rcases known with ⟨⟨⟩⟩ | ⟨⟨⟩⟩

/-- Answering a regular query makes a reply, whatever the time does between two checks. -/
theorem query_replies (d : Naming) (limits : QuerySettings)
    (valid : Settings.validate ⟨.ofNaming d, limits⟩ = .ok ()) {q : QueryBody}
    (refuses : ∀ e, Diagram.read q.graph = .error e → e.isRefusal = true)
    (regular : ∀ parsed, Query.parse [] q.query = .ok parsed → parsed.query.Regular)
    (clock : Nat → Float) :
    ∃ reply, query ⟨.ofNaming d, limits⟩ clock q = .ok reply ∧
      reply.status ∈ [200, 400, 408, 413] ∧
      (reply.status = 400 ↔ (∃ e, Diagram.read q.graph = .error e) ∨
        ∃ e, Query.parse [] q.query = .error e) := by
  let s : Settings := ⟨.ofNaming d, limits⟩
  cases read : Diagram.read q.graph with
  | error e =>
    exact ⟨.badGraph e, withDiagram_of_isRefusal read (refuses e read) _, by simp [Reply.status],
      fun _ => Or.inl ⟨e, rfl⟩, fun _ => rfl⟩
  | ok diagram =>
    obtain ⟨⟨triples, prefixes⟩, store⟩ := storeFor_ofNaming d limits q.source diagram
    have handled : query s clock q = replyTo (Query.runBy prefixes.entries
        (triples.map Fact.ofTriple) clock q.query { budget := s.budget }).2 := by
      simp only [query, withDiagram, read, s, store, bind, Except.bind]
    have readable : s.budget.IsReadable := Settings.isReadable_of_validate valid
    obtain ⟨expected, refused_iff⟩ := Query.runBy_expected prefixes.entries
      (triples.map Fact.ofTriple) clock (s := { budget := s.budget }) readable regular
    obtain ⟨reply, replied, four, badRequest⟩ := status_replyTo expected
    refine ⟨reply, handled.trans replied, four, ?_⟩
    rw [badRequest, refused_iff]
    refine (or_iff_right ?_).symm
    rintro ⟨_, ⟨⟩⟩

/-- A request for a query is answered where there is room for all that its parts ask for. -/
theorem respondOn_query {room : Room} {body : Value} {q : QueryBody}
    (shape : queryBody? body = some q) (room_for : ∀ d ∈ queryDemands q, room.fits d = true)
    (s : Settings) (clock : Nat → Float) :
    respondOn room s clock ⟨"POST", "/query", some body⟩ =
      (query s clock q).mapError .fault := by
  have route : routeOf? "/query" = some .query := by decide
  have asked : demands ⟨"POST", "/query", some body⟩ = queryDemands q := by
    simp only [demands, route, Route.method, if_true, Route.demands, Option.bind_some, shape,
      Option.map_some, Option.getD_some]
  rw [respondOn, asked, if_pos (List.all_eq_true.2 room_for)]
  simp only [respondBy, route, Route.method, if_true, Route.reply, shaped, Option.bind_some, shape]

/-- A request with a regular query has a reply: an answer, a refusal of the graph or of the query,
or one that the budget is used up. The machine has room for the nesting of the graph, for the class
expressions of an encoding, for the braces of the query and for the digits of its limit. -/
theorem respond_query (room : Room) (d : Naming) (limits : QuerySettings)
    (valid : Settings.validate ⟨.ofNaming d, limits⟩ = .ok ()) {body : Value} {q : QueryBody}
    (shape : queryBody? body = some q) (room_for : ∀ d ∈ queryDemands q, room.fits d = true)
    (regular : ∀ parsed, Query.parse [] q.query = .ok parsed → parsed.query.Regular)
    (clock : Nat → Float) :
    ∃ reply, respondOn room ⟨.ofNaming d, limits⟩ clock ⟨"POST", "/query", some body⟩ =
        .ok reply ∧
      reply.status ∈ [200, 400, 408, 413] ∧
      (reply.status = 400 ↔ (∃ e, Diagram.read q.graph = .error e) ∨
        ∃ e, Query.parse [] q.query = .error e) := by
  obtain ⟨_, graphShape⟩ := graph?_of_queryBody? shape
  obtain ⟨fields, map, settings⟩ := graph?_eq_some graphShape
  have refuses (e : DocumentError) (read : Diagram.read q.graph = .error e) :
      e.isRefusal = true := Diagram.refuses_read settings e (map ▸ read)
  obtain ⟨reply, replied, four, badRequest⟩ := query_replies d limits valid refuses regular clock
  refine ⟨reply, ?_, four, badRequest⟩
  rw [respondOn_query shape room_for, replied]
  rfl

/-- A request for labels, with a graph of one class. -/
def labelsOfFleet : Value :=
  .map [(.text "query", .text "SELECT ?l \x7b ?c a owl:Class . ?c rdfs:label ?l \x7d LIMIT 5"),
    (.text "graph", fleet)]

/-- At most thirty seconds and a hundred solutions. -/
def modest : QuerySettings :=
  { timeout := .scalar (.int 30), maxSolutions := .scalar (.int 100) }

/-- Room for numbers of 4300 digits and for little nesting. -/
def narrowRoom : Room :=
  { digits := some 4300, nesting := some 5 }

theorem respond_query_labelsOfFleet : ∃ q,
    Settings.validate ⟨.ofNaming {}, modest⟩ = .ok () ∧ queryBody? labelsOfFleet = some q ∧
      (∀ d ∈ queryDemands q, narrowRoom.fits d = true) ∧
      (∀ parsed, Query.parse [] q.query = .ok parsed → parsed.query.Regular) ∧
      ∃ reply, respondOn narrowRoom ⟨.ofNaming {}, modest⟩ (fun _ => 31)
        ⟨"POST", "/query", some labelsOfFleet⟩ = .ok reply ∧
        reply.status ∈ [200, 400, 408, 413] := by
  have valid : Settings.validate ⟨.ofNaming {}, modest⟩ = .ok () := rfl
  have shape : ∃ q, queryBody? labelsOfFleet = some q := ⟨_, rfl⟩
  obtain ⟨q, shape⟩ := shape
  have facts : (queryBody? labelsOfFleet).all (fun q =>
      (queryDemands q).all narrowRoom.fits &&
        (Query.parse [] q.query).toOption.all fun parsed => decide parsed.query.Regular) := by
    decide +kernel
  rw [shape, Option.all_some, Bool.and_eq_true] at facts
  have room_for := List.all_eq_true.1 facts.1
  have regular : ∀ parsed, Query.parse [] q.query = .ok parsed → parsed.query.Regular := by
    intro parsed read
    have regular := facts.2
    rw [read] at regular
    exact of_decide_eq_true regular
  obtain ⟨reply, replied, four, -⟩ :=
    respond_query narrowRoom {} modest valid shape room_for regular fun _ => 31
  exact ⟨q, valid, shape, room_for, regular, reply, replied, four⟩

/-- A request with a limit of `2 ^ 64` rows. -/
def boundless : Value :=
  .map [(.text "query", .text "SELECT ?x \x7b ?x ?p ?o \x7d LIMIT 18446744073709551616")]

/-- Without the condition on the query, a fault may leave the handler. -/
theorem not_respond_query_boundless :
    Settings.validate ⟨.ofNaming {}, {}⟩ = .ok () ∧ (queryBody? boundless).isSome = true ∧
      ∀ reply, respond ⟨.ofNaming {}, {}⟩ 0 ⟨"POST", "/query", some boundless⟩ ≠ .ok reply := by
  refine ⟨rfl, rfl, fun reply replied => ?_⟩
  have failed : (respond ⟨.ofNaming {}, {}⟩ 0
      ⟨"POST", "/query", some boundless⟩).toOption.isNone = true := by
    decide +kernel
  rw [replied] at failed
  cases failed

end Service

end Ontogram
