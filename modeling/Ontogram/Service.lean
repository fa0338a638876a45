import Ontogram.Demand
import Ontogram.Outline
import Ontogram.Query.Run
import Ontogram.Query.Template
import Ontogram.Settings.Encode

/-!
The web service: one reply for each request. A body of the wrong shape is refused before anything
else; then a graph that is no diagram, and a query that has no answer within the budget. What the
service does not expect is a fault of its own and no reply.
-/

set_option autoImplicit false

namespace Ontogram

/-- A request. Its body is absent when it is empty or no JSON text. -/
structure Request where
  method : String
  path : String
  body : Option Value

/-- A reply. -/
inductive Reply where
  /-- A fixed page. -/
  | page (content : Value)
  /-- An encoding and its text. -/
  | encoded (t : SettledEncoding) (text : String)
  | described (l : Lowered)
  | answered (r : QueryResult)
  /-- A graph that is no diagram. -/
  | badGraph (e : DocumentError)
  /-- A text that is no query. -/
  | badQuery (e : QueryError)
  /-- A query that took too long. -/
  | tooLong (e : QueryError)
  /-- A query with too many solutions. -/
  | tooLarge (e : QueryError)
  /-- A body of the wrong shape. -/
  | badShape
  | notFound
  | notAllowed

/-- What the service does not expect. -/
inductive ServiceFault where
  | settings (e : SettingsError)
  | document (e : DocumentError)
  | query (e : QueryError)

/-- Why a machine makes no reply. -/
inductive Breakdown where
  | fault (e : ServiceFault)
  /-- More is asked for than there is room for. -/
  | noRoom

namespace Reply

def status : Reply → Nat
  | page _ | encoded _ _ | described _ | answered _ => 200
  | badGraph _ | badQuery _ => 400
  | notFound => 404
  | notAllowed => 405
  | tooLong _ => 408
  | tooLarge _ => 413
  | badShape => 422

def texts (items : List String) : Value :=
  .list (items.map Value.text)

/-- What a refusal says. -/
def detail (s : String) : Value :=
  .map [(.text "detail", .text s)]

def fieldName : Scalar → String
  | .null => "null"
  | .bool b => if b then "true" else "false"
  | key => key.written

/-- The body of a reply; that of a refused shape is not fixed. -/
def body? : Reply → Option Value
  | page content => some content
  | encoded t text => some (.map [
      (.text "triple_count", .scalar (.int t.encoding.triples.length)),
      (.text "prefixes", .map (t.prefixes.entries.map fun e => (.text (fieldName e.1), e.2))),
      (.text "triples", .list (t.encoding.triples.map fun t => texts t.displays)),
      (.text "turtle", .text text)])
  | described l => some (.map [
      (.text "resource", .text l.ref.display),
      (.text "triples", .list (l.triples.map fun t => texts t.displays))])
  | answered r => some (.map [
      (.text "columns", texts r.columns),
      (.text "rows", .list (r.rows.map texts))])
  | badGraph e => some (detail ("Invalid graph: " ++ e.message?.getD ""))
  | badQuery e | tooLong e | tooLarge e => some (detail e.message)
  | notFound => some (detail "Not Found")
  | notAllowed => some (detail "Method Not Allowed")
  | badShape => none

end Reply

namespace Service

def rootPage : Value :=
  .map [(.text "name", .text "OntoWeave"), (.text "version", .text "0.1.0"),
    (.text "docs", .text "/docs")]

def healthPage : Value :=
  .map [(.text "status", .text "healthy")]

def templatesPage : Value :=
  .map [(.text "templates", .list (QueryTemplate.all.map fun t =>
    .map [(.text "label", .text t.label), (.text "description", .text t.description),
      (.text "query", .text t.query)]))]

/-- A field with a list of maps, which may be absent. -/
def recordsField? (fields : Fields) (key : String) : Option Value :=
  match fields.get? key with
  | none => some (.list [])
  | some (.list items) => if Value.allMaps items then some (.list items) else none
  | some _ => none

/-- A field with a map, which may be absent. -/
def mapField? (fields : Fields) (key : String) : Option Value :=
  match fields.get? key with
  | none => some (.map [])
  | some (.map entries) => some (.map entries)
  | some _ => none

/-- A field with a text that may be null or absent. -/
def textField? (fields : Fields) (key : String) : Option (Option String) :=
  match fields.get? key with
  | none => some none
  | some (.scalar .null) => some none
  | some v => v.text?.map some

/-- The entries of a map. -/
def fields? : Value → Option Fields
  | .map entries => some entries
  | _ => none

/-- The document in a value of the right shape. -/
def graph? (v : Value) : Option Value := do
  let fields ← fields? v
  let entities ← recordsField? fields "entities"
  let relations ← recordsField? fields "relations"
  let metadata ← mapField? fields "metadata"
  return .map [(.text "entities", entities), (.text "relations", relations),
    (.text "metadata", metadata)]

/-- What a query runs over. -/
inductive Source where
  | encoding
  | outline

/-- The body of a query request. -/
structure QueryBody where
  query : String
  graph : Value
  source : Source

def source? (fields : Fields) : Option Source :=
  match fields.get? "source" with
  | none => some .encoding
  | some v =>
    match v.text? with
    | some "owl" => some .encoding
    | some "graph" => some .outline
    | _ => none

/-- The body of a query request in a value of the right shape. -/
def queryBody? (v : Value) : Option QueryBody := do
  let fields ← fields? v
  let query ← (fields.get? "query").bind Value.text?
  let graph ← graph? ((fields.get? "graph").getD (.map []))
  return { query, graph, source := ← source? fields }

/-- The body of an expression request: the expression, a base and its name. -/
def expressionBody? (v : Value) : Option (String × Option String × Option String) := do
  let fields ← fields? v
  let expression ← (fields.get? "expression").bind Value.text?
  let base ← textField? fields "base_iri"
  let baseName ← textField? fields "default_prefix"
  return (expression, base, baseName)

def withDiagram (document : Value) (f : Diagram → Except ServiceFault Reply) :
    Except ServiceFault Reply :=
  match Diagram.read document with
  | .ok d => f d
  | .error .notMap => .error (.document .notMap)
  | .error e => .ok (.badGraph e)

def fromSettings {α : Type} : Except SettingsError α → Except ServiceFault α
  | .ok a => .ok a
  | .error e => .error (.settings e)

def encoding (s : Settings) (d : Diagram) : Except ServiceFault SettledEncoding :=
  fromSettings (s.naming.encode d.entities d.relations (some d.metadata))

def encode (s : Settings) (document : Value) : Except ServiceFault Reply :=
  withDiagram document fun d => do
    let t ← encoding s d
    return .encoded t (← fromSettings (t.prefixes.turtle t.encoding.triples))

def describe (s : Settings) (expression : String) (base baseName : Option String) :
    Except ServiceFault Reply :=
  Reply.described <$> fromSettings (s.naming.lower base baseName expression)

def outlineStore (s : Settings) (d : Diagram) :
    Except SettingsError (List Triple × Table String) := do
  let base := Namespace.closed (← s.naming.baseFor d.metadata.baseIri)
  let baseName ← s.naming.queryNameFor d.metadata.defaultPrefix
  return ((Outline.of base d.entities d.relations).triples,
    Table.ofList [(baseName.written, base), ("", base)])

/-- The prefixes of an encoding, in which the empty one stands for what the name of the base stands
for, or else for the base as it was given, unless it has another meaning. -/
def openPrefixes (t : Encoding) (baseName base : String) : Table String :=
  t.prefixes.insertNew "" ((t.prefixes.get? baseName).getD base)

/-- The triples and prefixes that a query runs over. -/
def storeFor (s : Settings) (source : Source) (d : Diagram) :
    Except ServiceFault (List Triple × Table String) :=
  match source with
  | .outline => fromSettings (outlineStore s d)
  | .encoding => do
    let t ← encoding s d
    let baseName ← fromSettings (s.naming.queryNameFor d.metadata.defaultPrefix)
    return (t.encoding.triples,
      openPrefixes t.encoding baseName.written s.naming.base.written)

def replyTo : Except QueryError QueryResult → Except ServiceFault Reply
  | .ok r => .ok (.answered r)
  | .error e =>
    match e with
    | .noSelect | .noBlock => .ok (.badQuery e)
    | .timeout _ => .ok (.tooLong e)
    | .tooManySolutions _ _ => .ok (.tooLarge e)
    | .duplicateColumn _ | .patternAsKey _ | .badPattern | .badBudget | .limitTooLarge =>
      .error (.query e)

/-- Answers a query. The clock tells the seconds that have passed at each check. -/
def query (s : Settings) (clock : Nat → Float) (q : QueryBody) : Except ServiceFault Reply :=
  withDiagram q.graph fun d => do
    let (triples, prefixes) ← storeFor s q.source d
    replyTo (Query.runBy prefixes.entries (triples.map Fact.ofTriple) clock q.query
      { budget := s.budget }).2

/-- The pages and actions of the service. -/
inductive Route where
  | root
  | health
  | templates
  | encode
  | describe
  | query
deriving DecidableEq

/-- The paths of the service. -/
def routes : List (String × Route) :=
  [("/", .root), ("/health", .health), ("/query/templates", .templates),
    ("/translate", .encode), ("/expressions/parse", .describe), ("/query", .query)]

def Route.method : Route → String
  | root | health | templates => "GET"
  | encode | describe | query => "POST"

/-- The route of a path. What follows a question mark or a hash sign does not count, and slashes at
the end of a path that is not known lead to the path without them. -/
def routeOf? (path : String) : Option Route :=
  let cs := path.toList.takeWhile fun c => c ≠ '?' && c ≠ '#'
  (routes.lookup (String.ofList cs)).or
    (routes.lookup (String.ofList (Text.stripRight (· == '/') cs)))

/-- The reply to a request with a body of the shape that `shape?` reads. -/
def shaped {α : Type} (shape? : Value → Option α) (body : Option Value)
    (f : α → Except ServiceFault Reply) : Except ServiceFault Reply :=
  match body.bind shape? with
  | some a => f a
  | none => .ok .badShape

def Route.reply (s : Settings) (clock : Nat → Float) (body : Option Value) :
    Route → Except ServiceFault Reply
  | root => .ok (.page rootPage)
  | health => .ok (.page healthPage)
  | templates => .ok (.page templatesPage)
  | encode => shaped graph? body (Service.encode s)
  | describe => shaped expressionBody? body fun (e, base, name) => Service.describe s e base name
  | query => shaped queryBody? body (Service.query s clock)

/-- The reply to a request, by a clock. -/
def respondBy (s : Settings) (clock : Nat → Float) (r : Request) : Except ServiceFault Reply :=
  match routeOf? r.path with
  | none => .ok .notFound
  | some route =>
    if r.method = route.method then route.reply s clock r.body else .ok .notAllowed

/-- The reply to a request, in which `seconds` have passed at every check of the time. -/
def respond (s : Settings) (seconds : Float) (r : Request) : Except ServiceFault Reply :=
  respondBy s (fun _ => seconds) r

def encodeDemands (document : Value) : List Demand :=
  document.demand :: match Diagram.read document with
    | .error _ => []
    | .ok d => Encoding.demands d.entities

def queryDemands (q : QueryBody) : List Demand :=
  match q.source, Diagram.read q.graph with
  | _, .error _ => [q.graph.demand]
  | .outline, .ok _ => [q.graph.demand, Query.demand q.query]
  | .encoding, .ok d => q.graph.demand :: Query.demand q.query :: Encoding.demands d.entities

/-- What the reply of a route asks for. -/
def Route.demands (body : Option Value) : Route → List Demand
  | root | health | templates => []
  | encode => ((body.bind graph?).map encodeDemands).getD []
  | describe => ((body.bind expressionBody?).map fun b => [Expression.demand b.1]).getD []
  | query => ((body.bind queryBody?).map queryDemands).getD []

/-- What the reply to a request asks for. -/
def demands (r : Request) : List Demand :=
  match routeOf? r.path with
  | none => []
  | some route => if r.method = route.method then route.demands r.body else []

/-- The reply to a request on a machine with some room. -/
def respondOn (room : Room) (s : Settings) (clock : Nat → Float) (r : Request) :
    Except Breakdown Reply :=
  if (demands r).all room.fits then (respondBy s clock r).mapError .fault else .error .noRoom

theorem encode_badGraph_iff {s : Settings} {document : Value} {e : DocumentError} :
    encode s document = .ok (.badGraph e) ↔
      Diagram.read document = .error e ∧ e ≠ .notMap := by
  unfold encode withDiagram
  split
  · rename_i d hd
    rw [hd]
    cases ht : encoding s d with
    | error f => simp [bind, Except.bind, ht]
    | ok t =>
      cases h : fromSettings (t.prefixes.turtle t.encoding.triples) <;>
        simp [bind, Except.bind, pure, Except.pure, ht, h]
  · rename_i hd
    simp [hd]
    rintro rfl
    simp
  · rename_i f hf hd
    simp [hd]
    rintro rfl
    exact hf

end Service

end Ontogram
