import Ontogram.Firsts
import Ontogram.Query.Parse
import Ontogram.Query.Store
import Ontogram.Text.Regular

/-!
Frames: tables of solutions with a column for each variable. The scan of a pattern gives one row for
each fact that the pattern accepts, numbered by the fact, and a frame is joined with a scan on the
columns that they share. The rows of a join are then sorted: by the number of the solution, and for
one solution by the number of the fact.

Columns whose names start with `#` are private. They are never shared; one that is met again is
renamed, and only a name that is taken even so is an error. Frames are not joined on columns whose
names are patterns of columns.
-/

set_option autoImplicit false

namespace Ontogram

namespace Selection

/-- Whether a name is a pattern of columns. -/
def isPattern (column : String) : Bool :=
  let cs := column.toList
  column == "*" || (cs.head? == some '^' && cs.getLast? == some '$')

/-- The columns that a name chooses: all of them for a star, those in which it is found for a
regular expression from a caret to a dollar sign, else the column of that name. None where the name
is no readable pattern. -/
def columnsOf (there : List String) (column : String) : Option (List String) :=
  if !isPattern column then some [column]
  else if column == "*" then some there
  else (Text.Regular.read? column.toList).map fun r => there.filter fun c => r.isFoundIn c.toList

def chosen (there : List String) : List String → Option (List String)
  | [] => some []
  | c :: cs => do return (← columnsOf there c) ++ (← chosen there cs)

theorem chosen_eq_self {columns : List String} (h : ∀ c ∈ columns, isPattern c = false)
    (there : List String) : chosen there columns = some columns := by
  induction columns with
  | nil => rfl
  | cons c cs ih =>
    have hc := h c List.mem_cons_self
    have hs := ih fun d hd => h d (List.mem_cons_of_mem c hd)
    simp [chosen, columnsOf, hc, hs]

end Selection

/-- A table of texts. -/
structure Frame where
  columns : List String
  rows : List (List String)

/-- The instances of a pattern: a row for each fact that it accepts, with the number of the fact. -/
structure Scan where
  columns : List String
  rows : List (Nat × List String)

/-- A row of a join, with the number of the solution that it extends and that of the fact which
extends it. -/
structure Joined where
  left : Nat
  found : Nat
  row : List String

namespace Joined

/-- Whether a row of a join may stand before another. -/
def precedes (x y : Joined) : Bool :=
  x.left < y.left || (x.left == y.left && x.found ≤ y.found)

/-- A row put among sorted ones. -/
def insert (x : Joined) : List Joined → List Joined
  | [] => [x]
  | y :: ys => if x.precedes y then x :: y :: ys else y :: insert x ys

def sort (xs : List Joined) : List Joined :=
  xs.foldr insert []

end Joined

namespace Frame

def isPrivate (column : String) : Bool :=
  column.toList.head? == some '#'

/-- The columns that variables of queries name. -/
def bound (f : Frame) : List String :=
  f.columns.filter fun c => !isPrivate c

/-- A private column of every frame of solutions. -/
def seedColumn : String := "#seed"

/-- The private column that numbers the solutions which a join extends. -/
def leftColumn : String := "#left"

/-- The private column that numbers the facts of a scan. -/
def matchColumn : String := "#match"

/-- The single empty solution. -/
def seed : Frame :=
  ⟨[seedColumn], [["0"]]⟩

def cell? (columns row : List String) (column : String) : Option String :=
  (columns.zip row).lookup column

def cells (columns row chosen : List String) : List String :=
  chosen.filterMap (cell? columns row)

/-- The first name that occurs twice. -/
def repeated? : List String → Option String
  | [] => none
  | c :: cs => if c ∈ cs then some c else repeated? cs

/-- The variables of a pattern, each once, in the order of the positions. -/
def variablesOf (p : TriplePattern) : List String :=
  firsts (p.terms.filterMap PatternTerm.name?)

/-- The row that a fact gives to the variables of a pattern. -/
def rowOf (p : TriplePattern) (f : Fact) : List String :=
  let bs := p.bindings f
  (variablesOf p).map fun name => (bs.lookup name).getD ""

/-- The instances of a pattern in a store. -/
def scan (prefixes : Table String) (store : Store) (p : TriplePattern) :
    Except QueryError Scan :=
  let columns := variablesOf p
  if matchColumn ∈ columns then .error (.duplicateColumn matchColumn)
  else
    let found := store.zipIdx.filter fun numbered => p.accepts prefixes numbered.1
    .ok ⟨columns, found.map fun numbered => (numbered.2, rowOf p numbered.1)⟩

def shared (a : Frame) (b : Scan) : List String :=
  b.columns.filter fun c => !isPrivate c && c ∈ a.columns

/-- The columns that a join takes from a scan. -/
def added (a : Frame) (b : Scan) : List String :=
  b.columns.filter fun c => c ∉ shared a b

/-- The name under which a column of a scan enters a join. -/
def entering (a : Frame) (column : String) : String :=
  if column ∈ leftColumn :: a.columns then column ++ "_right" else column

/-- Whether two rows have the same cells in the shared columns. -/
def agrees (a : Frame) (b : Scan) (on row other : List String) : Bool :=
  on.all fun c => cell? a.columns row c == cell? b.columns other c

/-- The pairs of rows that agree, fact by fact. -/
def pairs (a : Frame) (b : Scan) : List Joined :=
  let on := shared a b
  let more := added a b
  b.rows.flatMap fun (number, other) =>
    (a.rows.zipIdx.filter fun numbered => agrees a b on numbered.1 other).map fun numbered =>
      ⟨numbered.2, number, numbered.1 ++ cells b.columns other more⟩

def joinRows (a : Frame) (b : Scan) : List (List String) :=
  (Joined.sort (pairs a b)).map Joined.row

/-- The join of a frame and a scan on the columns that they share. -/
def join (a : Frame) (b : Scan) : Except QueryError Frame :=
  let columns := a.columns ++ (added a b).map (entering a)
  if leftColumn ∈ a.columns then .error (.duplicateColumn leftColumn)
  else
    match (shared a b).find? Selection.isPattern with
    | some c => .error (.patternAsKey c)
    | none =>
      match repeated? (leftColumn :: columns) with
      | some c => .error (.duplicateColumn c)
      | none => .ok ⟨columns, joinRows a b⟩

/-- The rows of a frame in some of its columns. -/
def project (f : Frame) (columns : List String) : List (List String) :=
  f.rows.map fun row => cells f.columns row columns

theorem repeated?_eq_none {cs : List String} : repeated? cs = none ↔ cs.Nodup := by
  induction cs with
  | nil => simp [repeated?]
  | cons c cs ih => by_cases h : c ∈ cs <;> simp [repeated?, h, ih]

end Frame

end Ontogram
