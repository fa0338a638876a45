import Ontogram.Query.Parse
import Ontogram.Value

set_option autoImplicit false

namespace Ontogram

/-- The limits of a session, as they were given; null means none. -/
structure Budget where
  /-- The seconds that a query may take. -/
  timeout : Value := .null
  /-- The number of solutions that a query may have at any step. -/
  maxSolutions : Value := .null

/-- How far a session has come. -/
inductive RunState where
  | pending
  | running
  | completed
  | timedOut
  | exhausted
  | failed
deriving DecidableEq

/-- The counts of a session. -/
structure Stats where
  state : RunState := .pending
  /-- Whether a query was ever started. -/
  started : Bool := false
  /-- Whether a query ever came to an end. -/
  ended : Bool := false
  rowsScanned : Int := 0
  rowsReturned : Int := 0
  patterns : Int := 0
  joins : Int := 0
  /-- The largest number of solutions at any step. -/
  peak : Int := 0
  /-- What was said when a query last failed. -/
  failure : Option String := none

/-- A budget and what has been counted against it. -/
structure Session where
  budget : Budget := {}
  stats : Stats := {}

namespace Budget

def number? : Value → Option Scalar
  | .scalar (.bool b) => some (.bool b)
  | .scalar (.int n) => some (.int n)
  | .scalar (.real x) => some (.real x)
  | _ => none

/-- Whether a number is smaller than a whole number. -/
def isBelow (limit : Scalar) (n : Int) : Bool :=
  match limit with
  | .real x => Decimal.compareInt? x n == some .lt
  | limit => (limit.int?.map fun m => decide (m < n)).getD false

/-- Whether a number is smaller than a number of seconds. -/
def isPast (limit : Scalar) (seconds : Float) : Bool :=
  match limit with
  | .real x => decide (x < seconds)
  | limit => (limit.int?.map fun m => Decimal.compareInt? seconds m == some .gt).getD false

end Budget

namespace RunState

/-- Whether a query has come to an end. -/
def isTerminal : RunState → Bool
  | pending | running => false
  | _ => true

end RunState

namespace Session

/-- A query starts. What earlier queries have left is kept. -/
def start (s : Session) : Session :=
  { s with stats := { s.stats with started := true, state := .running } }

/-- A query has returned rows. -/
def complete (s : Session) (rows : Int) : Session :=
  { s with stats := { s.stats with ended := true, state := .completed, rowsReturned := rows } }

def fail (s : Session) (note : String) : Session :=
  { s with stats := { s.stats with ended := true, state := .failed, failure := some note } }

def stop (s : Session) (state : RunState) : Session :=
  { s with stats := { s.stats with ended := true, state } }

def recordPattern (s : Session) (rows : Int) : Session :=
  { s with stats := { s.stats with
      patterns := s.stats.patterns + 1, rowsScanned := s.stats.rowsScanned + rows } }

def recordJoin (s : Session) : Session :=
  { s with stats := { s.stats with joins := s.stats.joins + 1 } }

/-- Compares the seconds since the start with the budget. Before a start there is nothing to
compare. -/
def checkTimeout (s : Session) (seconds : Float) : Session × Option QueryError :=
  match s.budget.timeout with
  | .scalar .null => (s, none)
  | limit =>
    if !s.stats.started then (s, none)
    else
      match Budget.number? limit with
      | none => (s, some .badBudget)
      | some n =>
        if Budget.isPast n seconds then (s.stop .timedOut, some (.timeout limit.written))
        else (s, none)

/-- Compares a number of solutions with the budget. -/
def checkSolutions (s : Session) (count : Int) : Session × Option QueryError :=
  let s := { s with stats := { s.stats with peak := max s.stats.peak count } }
  match s.budget.maxSolutions with
  | .scalar .null => (s, none)
  | limit =>
    match Budget.number? limit with
    | none => (s, some .badBudget)
    | some n =>
      if Budget.isBelow n count then
        (s.stop .exhausted, some (.tooManySolutions count limit.written))
      else (s, none)

/-- Compares the time and then the solutions with the budget. -/
def check (s : Session) (seconds : Float) (count : Int) : Session × Option QueryError :=
  match s.checkTimeout seconds with
  | (s, some e) => (s, some e)
  | (s, none) => s.checkSolutions count

end Session

end Ontogram
