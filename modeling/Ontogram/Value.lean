import Ontogram.Decimal
import Ontogram.Text.Quoted

set_option autoImplicit false

namespace Ontogram

/-- A value without parts. -/
inductive Scalar where
  | null
  | bool (b : Bool)
  | int (n : Int)
  | real (x : Float)
  | text (s : String)
  /-- A day or a moment of the calendar, as it is written. -/
  | moment (s : String)
  | octets (bytes : List UInt8)

/-- A value. -/
inductive Value where
  | scalar (s : Scalar)
  | list (items : List Value)
  | map (entries : List (Scalar × Value))

namespace Scalar

/-- Whether the scalar counts as given: neither null, false, zero nor empty. -/
def given : Scalar → Bool
  | null => false
  | bool b => b
  | int n => n != 0
  | real x => x != 0
  | text s => s != ""
  | moment _ => true
  | octets bytes => !bytes.isEmpty

def kindName : Scalar → String
  | null => "NoneType"
  | bool _ => "bool"
  | int _ => "int"
  | real _ => "float"
  | text _ => "str"
  | moment _ => "datetime"
  | octets _ => "bytes"

/-- The scalar as it stands inside a list or map that is written out. -/
def quoted : Scalar → String
  | null => "None"
  | bool b => if b then "True" else "False"
  | int n => toString n
  | real x => Decimal.text x
  | text s => Text.quoted s
  | moment s => s
  | octets bytes => String.ofList (bytes.map fun b => Char.ofNat b.toNat)

/-- The scalar written out by itself. -/
def written : Scalar → String
  | text s => s
  | s => s.quoted

/-- A truth value counts as 0 or 1 among numbers. -/
def int? : Scalar → Option Int
  | bool b => some (if b then 1 else 0)
  | int n => some n
  | _ => none

/-- Whether two scalars are equal, and so the same key. Numbers of different kinds are compared by
value, and what is no number is equal to itself. -/
def same (a b : Scalar) : Bool :=
  match a, b with
  | null, null => true
  | text s, text t => s == t
  | moment s, moment t => s == t
  | octets xs, octets ys => xs == ys
  | real x, real y => x == y || (x.isNaN && y.isNaN)
  | real x, b => (b.int?.map fun n => Decimal.compareInt? x n == some .eq).getD false
  | a, real y => (a.int?.map fun n => Decimal.compareInt? y n == some .eq).getD false
  | a, b =>
    match a.int?, b.int? with
    | some m, some n => m == n
    | _, _ => false

end Scalar

namespace Value

def null : Value :=
  .scalar .null

def text (s : String) : Value :=
  .scalar (.text s)

/-- Whether the value counts as given: neither null, false, zero nor empty. -/
def given : Value → Bool
  | scalar s => s.given
  | list items => !items.isEmpty
  | map entries => !entries.isEmpty

def kindName : Value → String
  | scalar s => s.kindName
  | list _ => "list"
  | map _ => "dict"

def text? : Value → Option String
  | scalar (.text s) => some s
  | _ => none

mutual

/-- The value as it stands inside a list or map that is written out. -/
def quoted : Value → String
  | scalar s => s.quoted
  | list items => "[" ++ String.intercalate ", " (quotedItems items) ++ "]"
  | map entries => "\x7b" ++ String.intercalate ", " (quotedEntries entries) ++ "\x7d"

def quotedItems : List Value → List String
  | [] => []
  | v :: vs => v.quoted :: quotedItems vs

def quotedEntries : List (Scalar × Value) → List String
  | [] => []
  | (k, v) :: rest => (k.quoted ++ ": " ++ v.quoted) :: quotedEntries rest

end

/-- The value written out by itself: a text without quotes, all else as inside a list. -/
def written : Value → String
  | scalar s => s.written
  | v => v.quoted

/-- The entries of a map with one more written: the value of an equal key is replaced in its
place. -/
def putEntry (key : Scalar) (value : Value) : List (Scalar × Value) → List (Scalar × Value)
  | [] => [(key, value)]
  | (k, v) :: rest =>
    if key.same k then (k, value) :: rest else (k, v) :: putEntry key value rest

/-- The map that writing the entries one after the other gives. -/
def ofEntries (entries : List (Scalar × Value)) : Value :=
  .map (entries.foldl (fun es e => putEntry e.1 e.2 es) [])

/-- The value under a text key. -/
def entry? (key : String) : List (Scalar × Value) → Option Value
  | [] => none
  | (k, v) :: rest => if (Scalar.text key).same k then some v else entry? key rest

def allMaps (items : List Value) : Bool :=
  items.all fun
    | map _ => true
    | _ => false

mutual

/-- Equality by parts; numbers of different kinds are compared by value, and entries by key. -/
def same : Value → Value → Bool
  | scalar a, scalar b => a.same b
  | list xs, list ys => sameItems xs ys
  | map xs, map ys => xs.length == ys.length && sameEntries xs ys
  | _, _ => false

def sameItems : List Value → List Value → Bool
  | [], [] => true
  | x :: xs, y :: ys => x.same y && sameItems xs ys
  | _, _ => false

/-- Every entry has an equal one in the other map. -/
def sameEntries : List (Scalar × Value) → List (Scalar × Value) → Bool
  | [], _ => true
  | (k, v) :: rest, others =>
    (others.any fun e => k.same e.1 && v.same e.2) && sameEntries rest others

end

end Value

end Ontogram
