import Ontogram.Value
import Ontogram.Yaml.Node
import Ontogram.Yaml.Number

set_option autoImplicit false

namespace Ontogram.Yaml

/-- A result, or a fault with the depth of its layer. -/
abbrev Layered (α : Type) :=
  Except (Nat × Fault) α

namespace Layered

/-- Two results; of two faults the one of the outer layer, or the first. -/
def both {α β : Type} : Layered α → Layered β → Layered (α × β)
  | .ok a, .ok b => .ok (a, b)
  | .ok _, .error e => .error e
  | .error e, .ok _ => .error e
  | .error e, .error f => .error (if f.1 < e.1 then f else e)

def all {α : Type} : List (Layered α) → Layered (List α)
  | [] => .ok []
  | r :: rs => (both r (all rs)).map fun (a, as) => a :: as

/-- A result of some layer. -/
def ofLayer {α : Type} (depth : Nat) (r : Except Fault α) : Layered α :=
  r.mapError (depth, ·)

end Layered

namespace Node

mutual

/-- The number of layers of a tree. -/
def height : Node → Nat
  | scalar _ _ => 1
  | sequence _ items => heightItems items + 1
  | mapping _ entries => heightEntries entries + 1
  | enclosing _ => 1

def heightItems : List Node → Nat
  | [] => 0
  | n :: ns => max n.height (heightItems ns)

def heightEntries : List (Node × Node) → Nat
  | [] => 0
  | (k, v) :: es => max (max k.height v.height) (heightEntries es)

end

/-- The entries of a mapping that are merged into another. -/
def mergedOf (flatten : List (Node × Node) → Except Fault (List (Node × Node))) :
    Node → Except Fault (List (Node × Node))
  | mapping _ entries => flatten entries
  | sequence _ items => do
    let found ← items.mapM fun n =>
      match n with
      | mapping _ entries => flatten entries
      | _ => .error .badShape
    return found.reverse.flatten
  | _ => .error .badShape

/-- The entries of a mapping after those of the mappings that are merged into it. A lone equality
sign is a key like any other. -/
def flatten (fuel : Nat) (entries : List (Node × Node)) :
    Except Fault (List (Node × Node)) :=
  match fuel with
  | 0 => .ok entries
  | fuel + 1 => do
    let merged ← entries.mapM fun e =>
      if e.1.tag = .merge then mergedOf (flatten fuel) e.2 else .ok []
    let own := (entries.filter fun e => e.1.tag ≠ .merge).map fun e =>
      match e with
      | (scalar .value s, v) => (scalar .text s, v)
      | e => e
    return merged.flatten ++ own

/-- The text of a tree where a scalar is asked for: a mapping stands for the value behind its
equality sign. -/
def scalarText (fuel : Nat) (n : Node) : Except Fault String :=
  match fuel, n with
  | 0, _ => .error .badShape
  | _ + 1, scalar _ s => .ok s
  | fuel + 1, mapping _ entries =>
    match entries.find? fun e => e.1.tag = .value with
    | some e => scalarText fuel e.2
    | none => .error .badShape
  | _, _ => .error .badShape

def truthOf (s : String) : Except Fault Bool :=
  match truthWords.lookup s, truthWords.lookup (Text.lower s) with
  | some b, _ => .ok b
  | none, some b => .ok b
  | none, none => .error (.noTruth (Text.lower s))

def momentOf (s : String) : Except Fault Scalar :=
  match Moment.read? (Text.dropFinalNewline s.toList) with
  | none => .error .noMoment
  | some m =>
    match m.fault? with
    | some f => .error (.badMoment f)
    | none => .ok (.moment s)

/-- The scalar of a text under a tag; none when the tag asks for parts. -/
def scalarOf (tag : Tag) (s : String) : Except Fault Scalar :=
  match tag with
  | .null => .ok .null
  | .truth => (truthOf s).map Scalar.bool
  | .integer => (integerOf s.toList).map Scalar.int
  | .real => (realOf s.toList).map Scalar.real
  | .octets =>
    match octetsOf s.toList with
    | some bytes => .ok (.octets bytes)
    | none => .error .badOctets
  | .moment => momentOf s
  | .text => .ok (.text s)
  | .merge => .error (.unknownTag (Tag.standardStem ++ "merge"))
  | .value => .error (.unknownTag (Tag.standardStem ++ "value"))
  | .other label => .error (.unknownTag label)
  | .list | .map | .set | .pairs => .error .badShape

def asksScalar : Tag → Bool
  | .null | .truth | .integer | .real | .octets | .moment | .text => true
  | _ => false

/-- The scalar of a tree whose tag asks for one. -/
def scalarValue (fuel : Nat) (n : Node) : Except Fault Scalar :=
  if asksScalar n.tag then do
    let s ← n.scalarText fuel
    match n with
    | mapping .moment _ => .error .momentOfParts
    | _ => scalarOf n.tag s
  else scalarOf n.tag ""

/-- A key and its value. -/
def entryOf (depth : Nat) (value : Node → Layered Value) (e : Node × Node) :
    Layered (Scalar × Value) :=
  let key : Layered Value :=
    if e.1.tag.hasParts then .error (depth, .badKey) else value e.1
  match Layered.both key (value e.2) with
  | .ok (.scalar k, v) => .ok (k, v)
  | .ok _ => .error (depth, .badKey)
  | .error f => .error f

/-- An item that is a mapping with one entry, as a list of its key and its value. -/
def pairOf (depth : Nat) (value : Node → Layered Value) : Node → Layered Value
  | mapping _ [(k, v)] => (Layered.both (value k) (value v)).map fun (k, v) => .list [k, v]
  | _ => .error (depth, .badShape)

def valueAt (fuel depth : Nat) (n : Node) : Layered Value :=
  match fuel with
  | 0 => .ok (.map [])
  | fuel + 1 =>
    let value := valueAt fuel (depth + 1)
    let entries (es : List (Node × Node)) : Layered (List (Scalar × Value)) :=
      match flatten (fuel + 1) es with
      | .error f => .error (depth + 1, f)
      | .ok es => Layered.all (es.map (entryOf (depth + 1) value))
    match n with
    | enclosing _ => .ok (.map [])
    | sequence .list items => (Layered.all (items.map value)).map .list
    | sequence .pairs items =>
      (Layered.all (items.map (pairOf (depth + 1) value))).map .list
    | mapping .map es => (entries es).map Value.ofEntries
    | mapping .set es =>
      (entries es).map fun found =>
        match Value.ofEntries found with
        | .map distinct => .list (distinct.map fun e => .scalar e.1)
        | v => v
    | n =>
      if n.tag.hasParts then .error (depth + 1, .badShape)
      else Layered.ofLayer depth ((n.scalarValue (fuel + 1)).map .scalar)

def value (n : Node) : Except Fault Value :=
  (n.valueAt (n.height + 1) 0).mapError (·.2)

end Node

/-- A character that a document may hold. -/
def isAllowed (c : Char) : Bool :=
  c == '\t' || c == '\n' || c == '\r' || (' ' ≤ c && c ≤ '~') || c == '\u0085' ||
    (0xa0 ≤ c.toNat && c != '\ufffe' && c != '\uffff')

/-- The value that a text writes; an empty text writes nothing. -/
def read (s : String) : Except Fault Value := do
  if !s.toList.all isAllowed then throw .badCharacter
  match ← Node.ofTokens (tokens s) with
  | some root => root.value
  | none => return .null

end Ontogram.Yaml
