import Ontogram.Query.Frame
import Ontogram.Query.Session

set_option autoImplicit false

namespace Ontogram

/-- The rows of an answer, in the order of the columns. -/
structure QueryResult where
  columns : List String
  rows : List (List String)
  /-- A column that the rows lack, as its name was taken for a pattern of others. -/
  lacking : Option String := none

namespace SelectQuery

/-- Joins the scans of patterns to a frame; the clock tells the seconds that have passed at each
check. -/
def solveBy (prefixes : Table String) (store : Store) (clock : Nat → Float) :
    List TriplePattern → Frame → Session → Session × Except QueryError Frame
  | [], f, s => (s, .ok f)
  | p :: ps, f, s =>
    match Frame.scan prefixes store p with
    | .error e => (s, .error e)
    | .ok found =>
      let s := s.recordPattern found.rows.length
      match f.join found with
      | .error e => (s, .error e)
      | .ok joined =>
        match s.recordJoin.check (clock 0) joined.rows.length with
        | (s, some e) => (s, .error e)
        | (s, none) =>
          if joined.rows.isEmpty then (s, .ok joined)
          else solveBy prefixes store (fun i => clock (i + 1)) ps joined s

/-- Joins the scans of patterns by a clock that stands still. -/
def solve (prefixes : Table String) (store : Store) (seconds : Float) :
    List TriplePattern → Frame → Session → Session × Except QueryError Frame :=
  solveBy prefixes store fun _ => seconds

/-- The columns of the answer. Asking for all variables of no solution gives none. -/
def columnsOf (q : SelectQuery) (solutions : Frame) : List String :=
  if q.asksAll then (if solutions.rows.isEmpty then [] else solutions.bound) else q.projection

/-- Whether the solutions bind all columns of the answer. -/
def binds (q : SelectQuery) (solutions : Frame) : Bool :=
  (q.columnsOf solutions).all (· ∈ solutions.bound)

/-- The columns that those of the answer choose among the solutions. -/
def chosenColumns (q : SelectQuery) (solutions : Frame) : Option (List String) :=
  let columns := q.columnsOf solutions
  Selection.chosen (if q.binds solutions then solutions.columns else columns) columns

/-- The rows of the solutions in the columns that are chosen. -/
def choose (q : SelectQuery) (solutions : Frame) : List (List String) :=
  let chosen := (q.chosenColumns solutions).getD []
  let isEmpty := (q.columnsOf solutions).isEmpty
  if q.binds solutions && (isEmpty || !chosen.isEmpty) then
    let rows := solutions.project chosen
    if q.distinct && !isEmpty then firsts rows else rows
  else []

def limited (limit : Int) (rows : List (List String)) : List (List String) :=
  if limit < 0 then rows.take (rows.length - limit.natAbs) else rows.take limit.toNat

/-- The largest limit, one less than `2 ^ 64`. -/
def maxLimit : Int := 18446744073709551615

def rowsOf (q : SelectQuery) (solutions : Frame) : Except QueryError (List (List String)) :=
  match q.limit with
  | none => .ok (q.choose solutions)
  | some limit =>
    if limit > maxLimit then .error .limitTooLarge else .ok (limited limit (q.choose solutions))

/-- The session after an error. A budget that is used up has settled its state already. -/
def failed (s : Session) (e : QueryError) : Session :=
  match e with
  | .timeout _ => s
  | .tooManySolutions _ _ => s
  | e => s.fail e.message

/-- The rows of some columns in the order of others. -/
def arrange (chosen columns : List String) (rows : List (List String)) : List (List String) :=
  if chosen = columns then rows else rows.map fun row => Frame.cells chosen row columns

/-- Reads the rows of an answer out. A column that is chosen twice, or by a pattern that cannot be
read, is noticed only here, where it leaves the session as it is. -/
def collect (q : SelectQuery) (solutions : Frame) (rows : List (List String)) (s : Session) :
    Session × Except QueryError QueryResult :=
  let columns := q.columnsOf solutions
  match q.chosenColumns solutions with
  | none => (s, .error .badPattern)
  | some chosen =>
    match Frame.repeated? chosen with
    | some c => (s, .error (.duplicateColumn c))
    | none =>
      let lacking := if rows.isEmpty then none else columns.find? (· ∉ chosen)
      (s.complete rows.length, .ok ⟨columns, arrange chosen columns rows, lacking⟩)

/-- Runs a query over a store in a session, by a clock. -/
def runBy (q : SelectQuery) (store : Store) (clock : Nat → Float) (s : Session) :
    Session × Except QueryError QueryResult :=
  match solveBy q.prefixes store clock q.patterns Frame.seed s.start with
  | (s, .error e) => (failed s e, .error e)
  | (s, .ok solutions) =>
    match q.rowsOf solutions with
    | .error e => (failed s e, .error e)
    | .ok rows => q.collect solutions rows s

/-- Runs a query over a store in a session, in which `seconds` have passed at every check. -/
def run (q : SelectQuery) (store : Store) (seconds : Float) (s : Session) :
    Session × Except QueryError QueryResult :=
  q.runBy store (fun _ => seconds) s

theorem run_eq (q : SelectQuery) (store : Store) (seconds : Float) (s : Session) :
    q.run store seconds s =
      match solve q.prefixes store seconds q.patterns Frame.seed s.start with
      | (s, .error e) => (failed s e, .error e)
      | (s, .ok solutions) =>
        match q.rowsOf solutions with
        | .error e => (failed s e, .error e)
        | .ok rows => q.collect solutions rows s := rfl

end SelectQuery

namespace Query

/-- Runs the text of a query by a clock. A text that is no query leaves the session as it is. -/
def runBy (surroundings : List (String × String)) (store : Store) (clock : Nat → Float)
    (text : String) (s : Session) : Session × Except QueryError QueryResult :=
  match parse surroundings text with
  | .error e => (s, .error e)
  | .ok parsed => parsed.query.runBy store clock s

/-- Runs the text of a query in a session in which `seconds` have passed at every check. -/
def run (surroundings : List (String × String)) (store : Store) (seconds : Float) :
    String → Session → Session × Except QueryError QueryResult :=
  runBy surroundings store fun _ => seconds

end Query

end Ontogram
