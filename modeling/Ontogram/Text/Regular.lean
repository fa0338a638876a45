import Ontogram.Firsts
import Ontogram.Text.Basic
import Ontogram.Text.Word

/-!
Regular expressions: characters and classes of them, the ends of the text and of its words, one
after the other, alternatives, groups and repetition. `ends` lists the places at which a match that
starts at some place may end; a text is matched when some place in it has such an end.

Left out are classes of the characters with a property, operations on classes other than unions and
complements, flags behind a question mark, and characters by their numbers. A text with one of these
counts as no expression.
-/

set_option autoImplicit false

namespace Ontogram.Text

/-- A regular expression. -/
inductive Regular where
  | nothing
  /-- One character of a class. -/
  | char (holds : Char → Bool)
  /-- The start of the text. -/
  | start
  /-- The end of the text. -/
  | finish
  /-- A place where a word starts or ends, or a place where none does. -/
  | edge (there : Bool)
  | seq (first second : Regular)
  | alt (first second : Regular)
  /-- The same several times. -/
  | times (r : Regular) (least : Nat) (most : Option Nat)

namespace Regular

/-- Whether a word starts or ends at a place. -/
def isEdge (text : List Char) (i : Nat) : Bool :=
  let before := if i = 0 then false else (text[i - 1]?).any isWord
  before != (text[i]?).any isWord

/-- So many steps. -/
def iterate {α : Type} (step : α → α) (count : Nat) (a : α) : α :=
  match count with
  | 0 => a
  | count + 1 => iterate step count (step a)

/-- The places at which a match that starts at a place may end. More steps than there are places
lead nowhere else, so their number is bounded. -/
def ends (text : List Char) : Regular → Nat → List Nat
  | nothing, i => [i]
  | char holds, i => if (text[i]?).any holds then [i + 1] else []
  | start, i => if i = 0 then [i] else []
  | finish, i => if i = text.length then [i] else []
  | edge there, i => if isEdge text i = there then [i] else []
  | seq r s, i => firsts ((ends text r i).flatMap (ends text s))
  | alt r s, i => firsts (ends text r i ++ ends text s i)
  | times r least most, i =>
    let step (js : List Nat) : List Nat := firsts (js.flatMap (ends text r))
    let bound := text.length + 1
    let more := (most.map (· - least)).getD bound
    iterate (fun js => firsts (js ++ step js)) (min more bound) (iterate step (min least bound) [i])

/-- Whether the expression matches some part of a text. -/
def isFoundIn (r : Regular) (text : List Char) : Bool :=
  (List.range (text.length + 1)).any fun i => !(ends text r i).isEmpty

/-- White space, without the information separators. -/
def isSpace (c : Char) : Bool :=
  isBlank c && !(28 ≤ c.toNat && c.toNat ≤ 31)

/-- The classes behind a backslash and a letter. -/
def letterClasses : List (Char × (Char → Bool)) :=
  [('d', isDigit), ('D', fun c => !isDigit c), ('w', isWord), ('W', fun c => !isWord c),
    ('s', isSpace), ('S', fun c => !isSpace c)]

def letterChars : List (Char × Char) :=
  [('n', '\n'), ('t', '\t'), ('r', '\r'), ('f', '\x0c'), ('v', '\x0b'), ('a', '\x07')]

def letterPlaces : List (Char × Regular) :=
  [('b', edge true), ('B', edge false), ('A', start), ('z', finish)]

/-- The character that a letter or sign behind a backslash stands for. -/
def escapedChar? (c : Char) : Option Char :=
  match letterChars.lookup c with
  | some d => some d
  | none => if c.toNat < 128 && !c.isAlphanum && c != '<' && c != '>' then some c else none

/-- The classes of ASCII that have a name. -/
def namedClasses : List (String × (Char → Bool)) :=
  [("alnum", Char.isAlphanum), ("alpha", Char.isAlpha), ("ascii", fun c => c.toNat < 128),
    ("blank", fun c => c == ' ' || c == '\t'), ("cntrl", fun c => c.toNat < 32 || c.toNat == 127),
    ("digit", Char.isDigit), ("graph", fun c => '!' ≤ c && c ≤ '~'), ("lower", Char.isLower),
    ("print", fun c => ' ' ≤ c && c ≤ '~'),
    ("punct", fun c => '!' ≤ c && c ≤ '~' && !c.isAlphanum),
    ("space", fun c => c == ' ' || ('\t' ≤ c && c ≤ '\x0d')), ("upper", Char.isUpper),
    ("word", fun c => c.isAlphanum || c == '_'),
    ("xdigit", fun c => c.isDigit || ('a' ≤ c && c ≤ 'f') || ('A' ≤ c && c ≤ 'F'))]

/-- A class that is named between colons, behind its opening bracket. -/
def namedClass? : List Char → Option ((Char → Bool) × List Char)
  | ':' :: cs =>
    let negated := cs.head? == some '^'
    let cs := if negated then cs.drop 1 else cs
    let name := cs.takeWhile (· != ':')
    match cs.drop name.length, namedClasses.lookup (String.ofList name) with
    | ':' :: ']' :: rest, some holds => some (fun c => holds c != negated, rest)
    | _, _ => none
  | _ => none

/-- A member of a class in brackets: a class of its own, or a character that may start a range. -/
def member? : List Char → Option (((Char → Bool) ⊕ Char) × List Char)
  | '\\' :: c :: rest =>
    match letterClasses.lookup c with
    | some holds => some (.inl holds, rest)
    | none => (escapedChar? c).map fun d => (.inr d, rest)
  | '\\' :: [] => none
  | c :: rest => some (.inr c, rest)
  | [] => none

/-- The characters of a member, or of a range that it starts. -/
def range? (cs : List Char) : Option ((Char → Bool) × List Char) := do
  let (low, rest) ← member? cs
  let ranges :=
    match rest with
    | '-' :: c :: _ => c != ']' && c != '-'
    | _ => false
  if ranges then
    match low, ← member? (rest.drop 1) with
    | .inr low, (.inr high, rest) =>
      if high < low then none else return (fun c => low ≤ c && c ≤ high, rest)
    | _, _ => none
  else
    match low with
    | .inl holds => return (holds, rest)
    | .inr low => return ((· == low), rest)

mutual

/-- A class behind its opening bracket. Hyphens in front stand for themselves, and so does a closing
bracket that would leave the class empty. -/
def class? (fuel : Nat) (cs : List Char) : Option ((Char → Bool) × List Char) :=
  match fuel with
  | 0 => none
  | fuel + 1 => do
    let negated := cs.head? == some '^'
    let cs := if negated then cs.drop 1 else cs
    let hyphens := cs.takeWhile (· == '-')
    let cs := cs.drop hyphens.length
    let own := if hyphens.isEmpty && cs.head? == some ']' then [']'] else hyphens
    let (holds, rest) ← members? fuel (if own == [']'] then cs.drop 1 else cs)
    return (fun c => (own.contains c || holds c) != negated, rest)

/-- The members of a class up to its closing bracket. -/
def members? (fuel : Nat) (cs : List Char) : Option ((Char → Bool) × List Char) :=
  match fuel with
  | 0 => none
  | fuel + 1 =>
    match cs with
    | ']' :: rest => some (fun _ => false, rest)
    | '&' :: '&' :: _ | '-' :: '-' :: _ | '~' :: '~' :: _ => none
    | cs => do
      let inner := if cs.head? == some '[' then some (cs.drop 1) else none
      let (holds, rest) ←
        match inner with
        | some cs => (namedClass? cs).orElse fun _ => class? fuel cs
        | none => range? cs
      let (more, rest) ← members? fuel rest
      return (fun c => holds c || more c, rest)

end

/-- What a letter or sign behind a backslash stands for. -/
def escape? : List Char → Option (Regular × List Char)
  | c :: rest =>
    match letterClasses.lookup c, letterPlaces.lookup c with
    | some holds, _ => some (char holds, rest)
    | none, some r => some (r, rest)
    | none, none => (escapedChar? c).map fun d => (char (· == d), rest)
  | [] => none

/-- A number and the text behind it. -/
def number? (cs : List Char) : Option (Nat × List Char) :=
  let ds := cs.takeWhile isAsciiDigit
  if ds.isEmpty then none else some (asciiNumber ds, cs.drop ds.length)

/-- How often something occurs, behind an opening brace. -/
def bounds? (cs : List Char) : Option (Nat × Option Nat × List Char) := do
  let (least, rest) ← number? cs
  match rest with
  | '\x7d' :: rest => return (least, some least, rest)
  | ',' :: '\x7d' :: rest => return (least, none, rest)
  | ',' :: rest =>
    let (most, rest) ← number? rest
    match rest with
    | '\x7d' :: rest => if least ≤ most then return (least, some most, rest) else none
    | _ => none
  | _ => none

/-- Signs of repetition behind an expression. Whether as much or as little as possible is taken
makes no difference to what matches. -/
def repeated? (fuel : Nat) (r : Regular) (cs : List Char) : Option (Regular × List Char) :=
  match fuel with
  | 0 => some (r, cs)
  | fuel + 1 =>
    let lazily (least : Nat) (most : Option Nat) (rest : List Char) :=
      repeated? fuel (times r least most) (if rest.head? == some '?' then rest.drop 1 else rest)
    match cs with
    | '*' :: rest => lazily 0 none rest
    | '+' :: rest => lazily 1 none rest
    | '?' :: rest => lazily 0 (some 1) rest
    | '\x7b' :: rest =>
      match bounds? rest with
      | some (least, most, rest) => lazily least most rest
      | none => none
    | _ => some (r, cs)

def groupBody? (cs : List Char) : Option (List Char) :=
  match cs with
  | '?' :: ':' :: rest => some rest
  | '?' :: 'P' :: '<' :: rest => some ((rest.dropWhile isWord).drop 1)
  | '?' :: '<' :: rest => some ((rest.dropWhile isWord).drop 1)
  | '?' :: _ => none
  | cs => some cs

mutual

/-- Alternatives up to a closing parenthesis or the end. -/
def alternatives? (fuel : Nat) (cs : List Char) : Option (Regular × List Char) :=
  match fuel with
  | 0 => none
  | fuel + 1 => do
    let (r, rest) ← sequence? fuel cs
    match rest with
    | '|' :: rest =>
      let (s, rest) ← alternatives? fuel rest
      return (alt r s, rest)
    | rest => return (r, rest)

/-- Expressions one after the other, up to a bar, a closing parenthesis or the end. -/
def sequence? (fuel : Nat) (cs : List Char) : Option (Regular × List Char) :=
  match fuel with
  | 0 => none
  | fuel + 1 =>
    if cs.head?.all fun c => c == '|' || c == ')' then some (nothing, cs)
    else do
      let (r, rest) ← atom? fuel cs
      let (r, rest) ← repeated? (rest.length + 1) r rest
      let (s, rest) ← sequence? fuel rest
      return (seq r s, rest)

/-- An expression without signs of repetition. -/
def atom? (fuel : Nat) (cs : List Char) : Option (Regular × List Char) :=
  match fuel, cs with
  | 0, _ => none
  | _, [] => none
  | fuel + 1, '(' :: rest => do
    let (r, rest) ← alternatives? fuel (← groupBody? rest)
    match rest with
    | ')' :: rest => return (r, rest)
    | _ => none
  | _ + 1, '[' :: rest =>
    (class? (2 * rest.length + 2) rest).map fun (holds, rest) => (char holds, rest)
  | _ + 1, '\\' :: rest => escape? rest
  | _ + 1, '.' :: rest => some (char (· != '\n'), rest)
  | _ + 1, '^' :: rest => some (start, rest)
  | _ + 1, '$' :: rest => some (finish, rest)
  | _ + 1, c :: rest =>
    if "*+?\x7b".toList.contains c then none else some (char (· == c), rest)

end

/-- The expression that a text writes. -/
def read? (cs : List Char) : Option Regular :=
  match alternatives? (3 * cs.length + 3) cs with
  | some (r, []) => some r
  | _ => none

end Regular

end Ontogram.Text
