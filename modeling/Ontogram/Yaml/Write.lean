import Ontogram.Value
import Ontogram.Yaml.Fold
import Ontogram.Yaml.Tag

/-!
Writing values as YAML 1.1 in block style: an entry or an item a line, indented by two blanks for
each mapping around it; the hyphens of a sequence stand in the column of the key that it belongs to.
A text is written without quotes unless it would be read as something else, in single quotes unless
it holds characters outside of printable ASCII, and in double quotes otherwise. A key that is empty,
long or holds line breaks stands behind a question mark, and its value behind a colon below it.
-/

set_option autoImplicit false

namespace Ontogram.Yaml

/-- A character that may stand in a text without escapes. -/
def isDirect (c : Char) : Bool :=
  c == '\n' || (' ' ≤ c && c ≤ '~')

/-- A blank, a line break or another gap between words. -/
def isGapChar (c : Char) : Bool :=
  c == ' ' || c == '\t' || c == '\r' || c == '\n' || c == '\x00'

def beforeGap (cs : List Char) : Bool :=
  cs.head?.all isGapChar

/-- Whether a text starts with a character that says what follows. -/
def startsIndicator : List Char → Bool
  | [] => false
  | c :: cs =>
    "#,[]\x7b\x7d&*!|>\x27\"%@\x60".toList.contains c ||
      ((c == '?' || c == ':' || c == '-') && beforeGap cs)

/-- Whether a colon in front of a gap or a hash sign behind one stands in a text; `afterGap` when a
gap is in front of it. -/
def holdsIndicator (afterGap : Bool) : List Char → Bool
  | [] => false
  | c :: cs =>
    (c == ':' && beforeGap cs) || (c == '#' && afterGap) || holdsIndicator (isGapChar c) cs

/-- Whether a text starts like a mark between documents. -/
def startsMark (cs : List Char) : Bool :=
  "---".toList.isPrefixOf cs || "...".toList.isPrefixOf cs

def holdsBlankBeforeBreak : List Char → Bool
  | ' ' :: '\n' :: _ => true
  | _ :: cs => holdsBlankBeforeBreak cs
  | [] => false

def holdsBlankAfterBreak : List Char → Bool
  | '\n' :: ' ' :: _ => true
  | _ :: cs => holdsBlankAfterBreak cs
  | [] => false

def hasOuterBlank (cs : List Char) : Bool :=
  cs.head? == some ' ' || cs.getLast? == some ' '

/-- Whether the shape of a text lets it stand without quotes. -/
def admitsPlain (cs : List Char) : Bool :=
  !startsMark cs && !startsIndicator cs && !holdsIndicator (cs.head?.any isGapChar) cs.tail &&
    !cs.contains '\n' && !hasOuterBlank cs && cs.all isDirect

/-- Whether a text may stand in single quotes. -/
def admitsSingle (cs : List Char) : Bool :=
  cs.all isDirect && !holdsBlankBeforeBreak cs && !holdsBlankAfterBreak cs

/-- Whether text without quotes would be read as that text. -/
def isPlainText (s : String) : Bool :=
  Tag.ofPlain s = .text

def breaksLine (c : Char) : Bool :=
  c == '\n' || c == '\u0085' || c == '\u2028' || c == '\u2029'

/-- A scalar to be written: its text, the length of the name of its kind, and whether the text may
stand without quotes. -/
structure Sheet where
  text : List Char
  kindLength : Nat
  isPlain : Bool

/-- A number with a point, which an exponent needs in front of it. -/
def realForm (x : Float) : String :=
  let s := Decimal.text x
  if s == "nan" then ".nan"
  else if s == "inf" then ".inf"
  else if s == "-inf" then "-.inf"
  else
    let cs := s.toList
    if cs.contains '.' then s
    else String.ofList (cs.flatMap fun c => if c = 'e' then ['.', '0', 'e'] else [c])

def Sheet.ofScalar : Scalar → Sheet
  | .null => ⟨"null".toList, 6, true⟩
  | .bool b => ⟨(if b then "true" else "false").toList, 6, true⟩
  | .int n => ⟨(toString n).toList, 5, true⟩
  | .real x => ⟨(realForm x).toList, 7, true⟩
  | .text s => ⟨s.toList, 5, isPlainText s && admitsPlain s.toList⟩
  | .moment s => ⟨s.toList, 11, true⟩
  | .octets bytes => ⟨bytes.map fun b => Char.ofNat b.toNat, 8, false⟩

/-- The text of a scalar from some column on. -/
def Sheet.form (m : Margins) (column : Nat) (s : Sheet) : List Char :=
  if s.isPlain then plainForm m column s.text
  else if admitsSingle s.text then singleForm m column s.text
  else doubleForm m column s.text

/-- Whether a key may stand in front of its colon on one line. -/
def Sheet.isSimpleKey (s : Sheet) : Bool :=
  s.text.length + s.kindLength < 128 && !s.text.isEmpty && !s.text.any breaksLine

/-- A scalar behind a blank, where the line has come to some column. -/
def scalarForm (indent column : Nat) (s : Scalar) : List Char :=
  ' ' :: (Sheet.ofScalar s).form ⟨indent, true⟩ (column + 1)

/-- A line break and the blanks in front of some column. -/
def lineTo (indent : Nat) : List Char :=
  (Margins.mk indent false).newLine

mutual

/-- A value behind a hyphen, a question mark or a colon that starts a line; the sign stands two
columns in front of `indent`. A collection starts on that line. -/
def compact (indent : Nat) : Value → List Char
  | .scalar s => scalarForm indent (indent - 1) s
  | .list [] => " []".toList
  | .map [] => " \x7b\x7d".toList
  | .list (v :: vs) => ' ' :: '-' :: compact (indent + 2) v ++ items indent vs
  | .map ((k, v) :: rest) => ' ' :: entry indent k v ++ entries indent rest

/-- The items of a sequence on lines of their own, the hyphens in some column. -/
def items (indent : Nat) : List Value → List Char
  | [] => []
  | v :: vs => lineTo indent ++ '-' :: compact (indent + 2) v ++ items indent vs

/-- The entries of a mapping on lines of their own, the keys in some column. -/
def entries (indent : Nat) : List (Scalar × Value) → List Char
  | [] => []
  | (k, v) :: rest => lineTo indent ++ entry indent k v ++ entries indent rest

/-- An entry of a mapping whose line has come to its column. -/
def entry (indent : Nat) (k : Scalar) (v : Value) : List Char :=
  let sheet := Sheet.ofScalar k
  if sheet.isSimpleKey then
    let key := sheet.form ⟨indent + 2, false⟩ indent ++ [':']
    key ++
      match v with
      | .scalar s => scalarForm (indent + 2) (indent + key.length) s
      | .list [] => " []".toList
      | .map [] => " \x7b\x7d".toList
      | .list (w :: ws) => lineTo indent ++ '-' :: compact (indent + 2) w ++ items indent ws
      | .map ((l, w) :: rest) =>
        lineTo (indent + 2) ++ entry (indent + 2) l w ++ entries (indent + 2) rest
  else
    '?' :: scalarForm (indent + 2) (indent + 1) k ++
      lineTo indent ++ ':' :: compact (indent + 2) v

end

/-- A value as the text of a document. -/
def write (v : Value) : String :=
  let lines :=
    match v with
    | .scalar s => (Sheet.ofScalar s).form ⟨2, true⟩ 0
    | .list [] => "[]".toList
    | .map [] => "\x7b\x7d".toList
    | .list vs => (items 0 vs).tail
    | .map es => (entries 0 es).tail
  String.ofList (lines ++ ['\n'])

end Ontogram.Yaml
