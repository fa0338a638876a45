import Ontogram.Yaml.Tag
import Ontogram.Yaml.Token

set_option autoImplicit false

namespace Ontogram.Yaml

/-- A tree. -/
inductive Node where
  | scalar (tag : Tag) (text : String)
  | sequence (tag : Tag) (items : List Node)
  | mapping (tag : Tag) (entries : List (Node × Node))
  /-- A tree around this place, by its anchor. -/
  | enclosing (label : String)

namespace Node

/-- The scalar in the place of a tree that is left out. -/
def empty : Node :=
  .scalar .null ""

def tag : Node → Tag
  | scalar t _ => t
  | sequence t _ => t
  | mapping t _ => t
  | enclosing _ => .map

mutual

/-- The tree with another in the place of an enclosing one. -/
def unfold (label : String) (whole : Node) : Node → Node
  | scalar t s => scalar t s
  | sequence t items => sequence t (unfoldItems label whole items)
  | mapping t entries => mapping t (unfoldEntries label whole entries)
  | enclosing l => if l = label then whole else enclosing l

/-- The items with another tree in the place of an enclosing one. -/
def unfoldItems (label : String) (whole : Node) : List Node → List Node
  | [] => []
  | n :: ns => unfold label whole n :: unfoldItems label whole ns

/-- The entries with another tree in the place of an enclosing one. -/
def unfoldEntries (label : String) (whole : Node) : List (Node × Node) → List (Node × Node)
  | [] => []
  | (k, v) :: es => (unfold label whole k, unfold label whole v) :: unfoldEntries label whole es

end

end Node

/-- What is left of the tokens of a document, and the trees of the anchors behind. -/
structure Composition where
  tokens : List Token
  anchors : List (String × Node) := []

/-- A step of reading trees. -/
abbrev Composer :=
  StateT Composition (Except Fault)

namespace Composer

/-- The next token. -/
def peek : Composer Token := do
  match (← get).tokens with
  | [] => throw .structural
  | .broken f :: _ => throw f
  | t :: _ => return t

/-- Goes over the next token. -/
def skip : Composer Unit :=
  modify fun c => { c with tokens := c.tokens.tail }

/-- Goes over a token that must come next. -/
def expect (t : Token) : Composer Unit := do
  if (← peek) = t then skip else throw .structural

/-- Reads a tree with `reader`, unless one of some tokens shows that it is left out. -/
def orEmpty (stops : List Token) (reader : Composer Node) : Composer Node := do
  if (← peek) ∈ stops then return Node.empty else reader

def aliased (label : String) : Composer Node := do
  match (← get).anchors.lookup label with
  | some n => return n
  | none => throw (.unknownAnchor label)

/-- Gives an anchor to a tree; an anchor may be given once. -/
def name (anchor : Option String) (n : Node) : Composer Unit := do
  match anchor with
  | none => return
  | some label =>
    if ((← get).anchors.lookup label).isSome then throw (.repeatedAnchor label)
    else modify fun c => { c with anchors := (label, n) :: c.anchors }

/-- Reads the parts of a collection with `reader`. Until they are read, its anchor stands for the
tree around them. -/
def collection (anchor : Option String) (reader : Composer Node) : Composer Node := do
  match anchor with
  | none => reader
  | some label => do
    name anchor (.enclosing label)
    let n ← reader
    let n := Node.unfold label n n
    modify fun c => { c with anchors := (label, n) :: c.anchors }
    return n

/-- What stands in front of a tree. -/
structure Properties where
  anchor : Option String := none
  /-- The name of the tag; an exclamation mark leaves the choice to the form of the tree. -/
  tag : Option String := none

def anchor? : Composer (Option String) := do
  match ← peek with
  | .anchor label => skip; return some label
  | _ => return none

/-- A tag as it is written, if it comes next. -/
def tag? : Composer (Option TagName) := do
  match ← peek with
  | .tag t => skip; return some t
  | _ => return none

def fullName (handles : List (String × String)) (t : TagName) : Composer String := do
  match t.handle with
  | none => return t.suffix
  | some handle =>
    match handles.lookup handle with
    | some stem => return stem ++ t.suffix
    | none => throw .structural

/-- What stands in front of a tree, in either order. -/
def properties (handles : List (String × String)) : Composer Properties := do
  match ← anchor? with
  | some label =>
    let tag ← tag?
    return ⟨some label, ← tag.mapM (fullName handles)⟩
  | none =>
    match ← tag? with
    | some t =>
      let anchor ← anchor?
      return ⟨anchor, some (← fullName handles t)⟩
    | none => return {}

namespace Properties

/-- The tag of a collection that has another one by itself. -/
def collectionTag (p : Properties) (own : Tag) : Tag :=
  match p.tag with
  | none => own
  | some "!" => own
  | some label => Tag.ofName label

/-- The tag of a scalar; `plain` when it stands without quotes. -/
def scalarTag (p : Properties) (plain : Bool) (text : String) : Tag :=
  match p.tag with
  | none => if plain then Tag.ofPlain text else .text
  | some "!" => Tag.ofPlain text
  | some label => Tag.ofName label

def scalar (p : Properties) (plain : Bool) (text : String) : Composer Node := do
  let n := Node.scalar (p.scalarTag plain text) text
  name p.anchor n
  return n

end Properties

mutual

/-- A tree. `inBlock` when it may be a block, `unindented` when it may be a sequence whose hyphens
stand in the column of the mapping around it. -/
def node (handles : List (String × String)) (fuel : Nat) (inBlock unindented : Bool) :
    Composer Node :=
  match fuel with
  | 0 => throw .structural
  | fuel + 1 => do
    match ← peek with
    | .alias label => skip; aliased label
    | _ =>
      let p ← properties handles
      let t ← peek
      if t = .blockEntry ∧ unindented then
        collection p.anchor do
          return .sequence (p.collectionTag .list) (← unindentedItems handles fuel)
      else
        match t with
        | .scalar text plain => skip; p.scalar plain text
        | .flowSequence =>
          collection p.anchor do
            skip; return .sequence (p.collectionTag .list) (← flowItems handles fuel true)
        | .flowMapping =>
          collection p.anchor do
            skip; return .mapping (p.collectionTag .map) (← flowEntries handles fuel true)
        | t =>
          if t = .blockSequence ∧ inBlock then
            collection p.anchor do
              skip; return .sequence (p.collectionTag .list) (← blockItems handles fuel)
          else if t = .blockMapping ∧ inBlock then
            collection p.anchor do
              skip; return .mapping (p.collectionTag .map) (← blockEntries handles fuel)
          else if p.anchor.isSome ∨ p.tag.isSome then p.scalar true ""
          else throw .structural

/-- The items of a sequence without a block of its own. -/
def unindentedItems (handles : List (String × String)) (fuel : Nat) : Composer (List Node) :=
  match fuel with
  | 0 => throw .structural
  | fuel + 1 => do
    if (← peek) = .blockEntry then
      skip
      let item ← orEmpty [.blockEntry, .key, .value, .blockEnd] (node handles fuel true false)
      return item :: (← unindentedItems handles fuel)
    else return []

def blockItems (handles : List (String × String)) (fuel : Nat) : Composer (List Node) :=
  match fuel with
  | 0 => throw .structural
  | fuel + 1 => do
    if (← peek) = .blockEntry then
      skip
      let item ← orEmpty [.blockEntry, .blockEnd] (node handles fuel true false)
      return item :: (← blockItems handles fuel)
    else
      expect .blockEnd
      return []

def blockEntries (handles : List (String × String)) (fuel : Nat) :
    Composer (List (Node × Node)) :=
  match fuel with
  | 0 => throw .structural
  | fuel + 1 => do
    if (← peek) = .key then
      skip
      let key ← orEmpty [.key, .value, .blockEnd] (node handles fuel true true)
      let value ← blockValue handles fuel
      return (key, value) :: (← blockEntries handles fuel)
    else
      expect .blockEnd
      return []

def blockValue (handles : List (String × String)) (fuel : Nat) : Composer Node :=
  match fuel with
  | 0 => throw .structural
  | fuel + 1 => do
    if (← peek) = .value then
      skip
      orEmpty [.key, .value, .blockEnd] (node handles fuel true true)
    else return Node.empty

/-- The items between brackets, and the closing bracket. A single entry may be an item. -/
def flowItems (handles : List (String × String)) (fuel : Nat) (first : Bool) :
    Composer (List Node) :=
  match fuel with
  | 0 => throw .structural
  | fuel + 1 => do
    if (← peek) = .flowSequenceEnd then
      skip
      return []
    else
      if !first then expect .flowEntry
      match ← peek with
      | .flowSequenceEnd =>
        skip
        return []
      | .key =>
        skip
        let key ← orEmpty [.value, .flowEntry, .flowSequenceEnd] (node handles fuel false false)
        let value ← flowValue handles fuel [.flowEntry, .flowSequenceEnd]
        return .mapping .map [(key, value)] :: (← flowItems handles fuel false)
      | _ =>
        let item ← node handles fuel false false
        return item :: (← flowItems handles fuel false)

/-- The entries between braces, and the closing brace. A tree without a value may be an entry. -/
def flowEntries (handles : List (String × String)) (fuel : Nat) (first : Bool) :
    Composer (List (Node × Node)) :=
  match fuel with
  | 0 => throw .structural
  | fuel + 1 => do
    if (← peek) = .flowMappingEnd then
      skip
      return []
    else
      if !first then expect .flowEntry
      match ← peek with
      | .flowMappingEnd =>
        skip
        return []
      | .key =>
        skip
        let key ← orEmpty [.value, .flowEntry, .flowMappingEnd] (node handles fuel false false)
        let value ← flowValue handles fuel [.flowEntry, .flowMappingEnd]
        return (key, value) :: (← flowEntries handles fuel false)
      | _ =>
        let key ← node handles fuel false false
        return (key, Node.empty) :: (← flowEntries handles fuel false)

/-- The value of an entry between brackets or braces. -/
def flowValue (handles : List (String × String)) (fuel : Nat) (stops : List Token) :
    Composer Node :=
  match fuel with
  | 0 => throw .structural
  | fuel + 1 => do
    if (← peek) = .value then
      skip
      orEmpty stops (node handles fuel false false)
    else return Node.empty

end

end Composer

namespace Node

/-- The handles of tags that need no directive. -/
def ownHandles : List (String × String) :=
  [("!", "!"), ("!!", Tag.standardStem)]

/-- The handles that directives explain, and the tokens behind them. A version may be asked for
once, and a handle be explained once. -/
def directives (versioned : Bool) (handles : List (String × String)) :
    List Token → Except Fault (List (String × String) × List Token)
  | .directive (.version major) :: ts =>
    if versioned ∨ major ≠ 1 then .error .structural else directives true handles ts
  | .directive (.handle handle stem) :: ts =>
    if (handles.lookup handle).isSome then .error .structural
    else directives versioned (handles ++ [(handle, stem)]) ts
  | .directive .unknown :: ts => directives versioned handles ts
  | ts => .ok (handles, ts)

/-- The handles for a document that starts with a mark, and the tokens behind the mark. -/
def heading (ts : List Token) : Except Fault (List (String × String) × List Token) := do
  let (handles, ts) ← directives false [] ts
  match ts with
  | .documentStart :: ts => return (handles ++ ownHandles, ts)
  | .broken f :: _ => throw f
  | _ => throw .structural

/-- The tokens behind marks of ended documents. -/
def skipEnds : List Token → List Token
  | .documentEnd :: ts => skipEnds ts
  | ts => ts

/-- Nothing may follow a document but the end of the text. -/
def finish (root : Node) (ts : List Token) : Except Fault Node :=
  match skipEnds ts with
  | .streamEnd :: _ => .ok root
  | ts => do
    let _ ← heading ts
    throw .severalDocuments

/-- The tree of a document whose mark is behind, where it may be left out. -/
def marked (handles : List (String × String)) (ts : List Token) : Except Fault Node :=
  match ts with
  | .directive _ :: _ => finish empty ts
  | ts => do
    let reader := Composer.orEmpty [.documentStart, .documentEnd, .streamEnd]
      (Composer.node handles (3 * ts.length + 3) true false)
    let (root, rest) ← reader.run { tokens := ts }
    finish root rest.tokens

/-- The tree of a text; a text without a document has none. -/
def ofTokens (ts : List Token) : Except Fault (Option Node) :=
  match ts with
  | .streamEnd :: _ => .ok none
  | .directive _ :: _ | .documentStart :: _ => do
    let (handles, rest) ← heading ts
    return some (← marked handles rest)
  | ts => do
    let (root, rest) ← (Composer.node ownHandles (3 * ts.length + 3) true false).run
      { tokens := ts }
    return some (← finish root rest.tokens)

end Node

end Ontogram.Yaml
