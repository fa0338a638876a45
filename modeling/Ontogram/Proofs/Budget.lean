import Ontogram.Proofs.Answer

set_option autoImplicit false

namespace Ontogram

theorem foldl_max_cast (ns : List Nat) (n : Nat) :
    ns.foldl (fun (peak : Int) (size : Nat) => max peak size) n = (ns.foldl max n : Nat) := by
  induction ns generalizing n with
  | nil => rfl
  | cons m ns ih =>
    have first : max (n : Int) m = (max n m : Nat) := by omega
    rw [List.foldl_cons, List.foldl_cons, first, ih]

theorem foldl_max_zero (ns : List Nat) : ns.foldl max 0 = ns.max?.getD 0 := by
  cases ns with
  | nil => rfl
  | cons n ns => rw [List.foldl_cons, Nat.zero_max, List.max?_cons', Option.getD_some]

theorem foldl_max_le {ns : List Nat} {n m : Nat} (start : n ≤ m) (all : ∀ k ∈ ns, k ≤ m) :
    ns.foldl max n ≤ m := by
  induction ns generalizing n with
  | nil => exact start
  | cons k ns ih =>
    exact ih (Nat.max_le.2 ⟨start, all k List.mem_cons_self⟩) fun l hl =>
      all l (List.mem_cons_of_mem k hl)

/-- The first size over a limit is the largest until then. -/
theorem Budget.foldl_max_first {limit : Option Int} {sizes : List Nat} {i size : Nat}
    (reached : sizes[i]? = some size) (exceeded : exceeds limit size = true)
    (within : ∀ earlier ∈ sizes.take i, exceeds limit earlier = false) :
    (sizes.take (i + 1)).foldl max 0 = size := by
  have below : (sizes.take i).foldl max 0 ≤ size := by
    refine foldl_max_le (Nat.zero_le size) fun earlier before => ?_
    have kept := within earlier before
    cases limit with
    | none => cases exceeded
    | some m =>
      simp only [exceeds, decide_eq_true_eq, decide_eq_false_iff_not] at exceeded kept
      omega
  rw [List.take_add_one, reached, Option.toList_some, List.foldl_append, List.foldl_cons,
    List.foldl_nil, Nat.max_eq_right below]

/-- The counts of a session in which nothing was counted before. -/
theorem Session.start_counted (budget : Budget) (scanned sizes : List Nat) :
    (Session.start { budget }).counted scanned sizes =
      { budget
        stats :=
          { state := .running, started := true
            patterns := sizes.length, joins := sizes.length, peak := (sizes.foldl max 0 : Nat)
            rowsScanned := scanned.sum } } := by
  simp only [start, counted, Int.zero_add, ← foldl_max_cast]
  rfl

namespace SelectQuery

open Ontogram.Frame

/-- The numbers of solutions after the first one, two and more patterns, up to the first number that
is zero. -/
def sizes (q : SelectQuery) (store : Store) : List Nat :=
  stepSizes q.prefixes store q.patterns [[]]

/-- The number of facts that match each of the first patterns by itself, all together. -/
def scanned (q : SelectQuery) (store : Store) (patterns : Nat) : Nat :=
  ((q.patterns.take patterns).map (matching q.prefixes store)).sum

/-- What a session without earlier counts tells of a run under a limit. -/
structure Metered (q : SelectQuery) (store : Store) (limit : Option Int)
    (ran : Session × Except QueryError QueryResult) : Prop where
  stopped_iff : (∃ count text, ran.2 = .error (.tooManySolutions count text)) ↔
    ∃ size ∈ q.sizes store, Budget.exceeds limit size = true
  stopped : ∀ i size, (q.sizes store)[i]? = some size → Budget.exceeds limit size = true →
    (∀ earlier ∈ (q.sizes store).take i, Budget.exceeds limit earlier = false) →
    ran.1.stats =
      { state := .exhausted, started := true, ended := true
        patterns := i + 1, joins := i + 1, peak := size
        rowsScanned := q.scanned store (i + 1) }
  returned : (∀ size ∈ q.sizes store, Budget.exceeds limit size = false) →
    ∃ r, ran.2 = .ok r ∧ ran.1.stats =
      { state := .completed, started := true, ended := true
        patterns := (q.sizes store).length, joins := (q.sizes store).length
        peak := ((q.sizes store).max?.getD 0 : Nat)
        rowsReturned := r.rows.length
        rowsScanned := q.scanned store (q.sizes store).length }

section Run

variable {q : SelectQuery} {store : Store} (seconds : Float) {limit : Option Int}

theorem joinable_seed (joined : PlainJoins q.patterns)
    (named : ∀ p ∈ q.patterns, ∀ name ∈ variablesOf p, isPrivate name = false) :
    Joinable Frame.seed [] [[]] q.patterns :=
  ⟨holds_seed, named, by simp, joined⟩

/-- A run that passes the limit ends there, before variables are chosen. -/
theorem run_stopped (ready : Joinable Frame.seed [] [[]] q.patterns) {i size : Nat}
    (reached : (q.sizes store)[i]? = some size) (exceeded : Budget.exceeds limit size = true)
    (within : ∀ earlier ∈ (q.sizes store).take i, Budget.exceeds limit earlier = false) :
    (q.run store seconds { budget := Budget.ofSolutions limit }).1.stats =
        { state := .exhausted, started := true, ended := true
          patterns := i + 1, joins := i + 1, peak := size
          rowsScanned := q.scanned store (i + 1) } ∧
      ∃ text, (q.run store seconds { budget := Budget.ofSolutions limit }).2 =
        .error (.tooManySolutions size text) := by
  have solved := solve_over q.prefixes store seconds
    (s := Session.start { budget := Budget.ofSolutions limit }) ready rfl reached exceeded within
  have steps : ((q.sizes store).take (i + 1)).length = i + 1 := by
    have := (List.getElem?_eq_some_iff.1 reached).1
    rw [List.length_take]
    omega
  have peak := Budget.foldl_max_first reached exceeded within
  rw [Session.start_counted, ← sizes, steps, peak] at solved
  rw [run_eq, solved]
  exact ⟨rfl, _, rfl⟩

/-- A run that never passes the limit returns. -/
theorem run_returned (ready : Joinable Frame.seed [] [[]] q.patterns) (once : q.projection.Nodup)
    (range : ∀ limit, q.limit = some limit → limit ≤ maxLimit) (plain : q.PlainColumns)
    (within : ∀ size ∈ q.sizes store, Budget.exceeds limit size = false) :
    ∃ r, (q.run store seconds { budget := Budget.ofSolutions limit }).2 = .ok r ∧
      (q.run store seconds { budget := Budget.ofSolutions limit }).1.stats =
        { state := .completed, started := true, ended := true
          patterns := (q.sizes store).length, joins := (q.sizes store).length
          peak := ((q.sizes store).max?.getD 0 : Nat)
          rowsReturned := r.rows.length
          rowsScanned := q.scanned store (q.sizes store).length } := by
  obtain ⟨final, names, solved, holds, origin, -⟩ := solve_within q.prefixes store seconds
    (s := Session.start { budget := Budget.ofSolutions limit }) ready rfl within
  have origin' (name : String) (hn : name ∈ names) : ∃ p ∈ q.patterns, name ∈ variablesOf p :=
    (origin name hn).resolve_left (by simp)
  obtain ⟨rows, read⟩ : ∃ rows, q.rowsOf final = .ok rows := by
    rw [rowsOf]
    cases given : q.limit with
    | none => exact ⟨_, rfl⟩
    | some limit => exact ⟨_, if_neg (Int.not_lt.2 (range limit given))⟩
  have collected := collect_of_holds holds origin' once plain rows
  rw [Session.start_counted, ← sizes, foldl_max_zero] at solved
  rw [run_eq, solved]
  simp only [read, collected]
  exact ⟨_, rfl, rfl⟩

/-- The session tells exactly how a run under a limit went: whether it was stopped and at which
step, what was counted until then, and how many rows were returned. -/
theorem run_metered (q : SelectQuery) (store : Store) (seconds : Float) (limit : Option Int)
    (named : ∀ p ∈ q.patterns, ∀ name ∈ variablesOf p, isPrivate name = false)
    (once : q.projection.Nodup) (range : ∀ limit, q.limit = some limit → limit ≤ maxLimit)
    (plain : q.PlainColumns) :
    Metered q store limit (q.run store seconds { budget := Budget.ofSolutions limit }) := by
  have ready := joinable_seed plain.joined named
  refine ⟨⟨?_, ?_⟩, ?_, ?_⟩
  · rintro ⟨count, text, stopped⟩
    by_contra never
    push Not at never
    have within (size : Nat) (hs : size ∈ q.sizes store) : Budget.exceeds limit size = false := by
      simpa using never size hs
    obtain ⟨r, returned, -⟩ := run_returned seconds ready once range plain within
    rw [returned] at stopped
    cases stopped
  · rintro ⟨size, hs, exceeded⟩
    obtain ⟨first, found⟩ := Option.isSome_iff_exists.1
      (List.find?_isSome.2 ⟨size, hs, exceeded⟩)
    obtain ⟨exceeded, front, back, split, within⟩ := List.find?_eq_some_iff_append.1 found
    have reached : (q.sizes store)[front.length]? = some first := by rw [split]; simp
    have before : (q.sizes store).take front.length = front := by rw [split]; simp
    obtain ⟨-, text, stopped⟩ := run_stopped seconds ready reached exceeded
      (by simpa [before] using within)
    exact ⟨first, text, stopped⟩
  · intro i size reached exceeded within
    exact (run_stopped seconds ready reached exceeded within).1
  · exact run_returned seconds ready once range plain

end Run

/-- Who is a friend of Ann takes five solutions on the way. -/
theorem metered_friendsOfAnn :
    (∃ count text, (friendsOfAnn.run acquaintances 0 { budget := Budget.ofSolutions (some 4) }).2 =
      .error (.tooManySolutions count text)) ∧
    (friendsOfAnn.run acquaintances 0 { budget := Budget.ofSolutions (some 4) }).1.stats =
      { state := .exhausted, started := true, ended := true
        patterns := 2, joins := 2, peak := 5, rowsScanned := 8 } ∧
    ∃ r, (friendsOfAnn.run acquaintances 0 { budget := Budget.ofSolutions (some 5) }).2 = .ok r ∧
      (friendsOfAnn.run acquaintances 0 { budget := Budget.ofSolutions (some 5) }).1.stats =
        { state := .completed, started := true, ended := true
          patterns := 3, joins := 3, peak := 5, rowsReturned := r.rows.length
          rowsScanned := 9 } := by
  have plain : friendsOfAnn.PlainColumns :=
    ⟨by decide +kernel, by unfold PlainJoins; decide +kernel⟩
  have range : ∀ limit, friendsOfAnn.limit = some limit → limit ≤ maxLimit := by
    rintro limit ⟨⟩
    decide
  have metered (limit : Option Int) := run_metered friendsOfAnn acquaintances 0 limit
    (by decide +kernel) (by decide) range plain
  have sizes : friendsOfAnn.sizes acquaintances = [4, 5, 3] := by decide +kernel
  have two : friendsOfAnn.scanned acquaintances 2 = 8 := by decide +kernel
  have three : friendsOfAnn.scanned acquaintances 3 = 9 := by decide +kernel
  have stopped := (metered (some 4)).stopped 1 5
  have returned := (metered (some 5)).returned
  rw [sizes] at stopped returned
  rw [two] at stopped
  rw [List.length_cons, List.length_cons, List.length_cons, List.length_nil, three] at returned
  refine ⟨(metered (some 4)).stopped_iff.2 ?_, stopped rfl rfl (by decide), returned (by decide)⟩
  rw [sizes]
  exact ⟨5, by decide, rfl⟩

/-- A query whose patterns share a variable that is named like a pattern of columns. -/
def starredJoin : SelectQuery :=
  { projection := ["o"]
    patterns := [⟨.var "*", .iri "p", .var "o"⟩, ⟨.var "*", .iri "q", .var "r"⟩]
    prefixes := Table.ofList Namespace.standard }

set_option synthInstance.maxSize 256 in
theorem parse_starredJoin : ∃ parsed,
    Query.parse [] "SELECT ?o \x7b ?* p ?o . ?* q ?r \x7d" = .ok parsed ∧
      parsed.query = starredJoin := by
  have fields : ((Query.parse [] "SELECT ?o \x7b ?* p ?o . ?* q ?r \x7d").toOption.map fun parsed =>
      (parsed.query.projection, parsed.query.patterns, parsed.query.prefixes.entries,
        parsed.query.distinct, parsed.query.limit)) =
      some (starredJoin.projection, starredJoin.patterns, starredJoin.prefixes.entries,
        starredJoin.distinct, starredJoin.limit) := by
    decide +kernel
  cases read : Query.parse [] "SELECT ?o \x7b ?* p ?o . ?* q ?r \x7d" with
  | error e =>
    rw [read] at fields
    cases fields
  | ok parsed =>
    rw [read] at fields
    obtain ⟨⟨projection, patterns, ⟨entries⟩, distinct, limit⟩, dropped⟩ := parsed
    simp only [Except.toOption, Option.map_some, Option.some.injEq, Prod.mk.injEq] at fields
    obtain ⟨rfl, rfl, rfl, rfl, rfl⟩ := fields
    exact ⟨_, rfl, rfl⟩

/-- Without the condition on names, the run of a query that was read from a text may fail within its
limit. -/
theorem not_metered_starredJoin :
    ¬ ∀ (text : String) (parsed : Query.Parsed) (store : Store) (seconds : Float)
      (limit : Option Int), Query.parse [] text = .ok parsed →
      (∀ p ∈ parsed.query.patterns, ∀ name ∈ variablesOf p, isPrivate name = false) →
      parsed.query.projection.Nodup →
      (∀ limit, parsed.query.limit = some limit → limit ≤ maxLimit) →
      Metered parsed.query store limit
        (parsed.query.run store seconds { budget := Budget.ofSolutions limit }) := by
  intro claim
  obtain ⟨parsed, read, query⟩ := parse_starredJoin
  have metered :=
    claim _ parsed [Fact.ofTexts "a" "p" "b", Fact.ofTexts "a" "q" "c"] 0 (some 5) read
  rw [query] at metered
  obtain ⟨r, returned, -⟩ := (metered (by decide +kernel) (by decide)
    (by rintro limit ⟨⟩)).returned (by decide +kernel)
  have failed : (starredJoin.run [Fact.ofTexts "a" "p" "b", Fact.ofTexts "a" "q" "c"] 0
      { budget := Budget.ofSolutions (some 5) }).2.toOption.isNone := by decide +kernel
  rw [returned] at failed
  cases failed

end SelectQuery

end Ontogram
