import Ontogram.Value

/-!
JSON text. A reader of the grammar with two liberties: the words `NaN`, `Infinity` and `-Infinity`
are numbers, and the later of two equal keys wins. A number with a fraction or an exponent is a
real, any other an integer of any size. Half a surrogate pair stands for the replacement character.

Every step of the reader takes at least one character, so the length of the text bounds its depth.
-/

set_option autoImplicit false

namespace Ontogram.Json

def isSpace (c : Char) : Bool :=
  c == ' ' || c == '\t' || c == '\n' || c == '\r'

/-- The text from its first token on. -/
def skip (cs : List Char) : List Char :=
  cs.dropWhile isSpace

def hexValue? (c : Char) : Option Nat :=
  if '0' ≤ c && c ≤ '9' then some (c.toNat - '0'.toNat)
  else if 'a' ≤ c && c ≤ 'f' then some (c.toNat - 'a'.toNat + 10)
  else if 'A' ≤ c && c ≤ 'F' then some (c.toNat - 'A'.toNat + 10)
  else none

/-- A code unit of four hexadecimal digits. -/
def unit? : List Char → Option (Nat × List Char)
  | a :: b :: c :: d :: rest => do
    let a ← hexValue? a
    let b ← hexValue? b
    let c ← hexValue? c
    let d ← hexValue? d
    return (((a * 16 + b) * 16 + c) * 16 + d, rest)
  | _ => none

/-- The second half of a surrogate pair. -/
def lowHalf? : List Char → Option (Nat × List Char)
  | '\\' :: 'u' :: rest => do
    let (u, rest) ← unit? rest
    if 0xdc00 ≤ u && u ≤ 0xdfff then some (u, rest) else none
  | _ => none

/-- The character after a backslash and a `u`. -/
def unicode? (cs : List Char) : Option (Char × List Char) := do
  let (u, rest) ← unit? cs
  if 0xd800 ≤ u && u ≤ 0xdbff then
    match lowHalf? rest with
    | some (v, rest) => return (Char.ofNat (0x10000 + (u - 0xd800) * 0x400 + (v - 0xdc00)), rest)
    | none => return ('\ufffd', rest)
  else if 0xdc00 ≤ u && u ≤ 0xdfff then return ('\ufffd', rest)
  else return (Char.ofNat u, rest)

/-- The character that a backslash and the given one stand for. -/
def simpleEscape? (c : Char) : Option Char :=
  match c with
  | '"' => some '"'
  | '\\' => some '\\'
  | '/' => some '/'
  | 'b' => some '\x08'
  | 'f' => some '\x0c'
  | 'n' => some '\n'
  | 'r' => some '\r'
  | 't' => some '\t'
  | _ => none

/-- The rest of a string after its opening quote. -/
def string? (fuel : Nat) (cs : List Char) : Option (List Char × List Char) :=
  match fuel, cs with
  | _, [] => none
  | 0, _ => none
  | fuel + 1, c :: cs =>
    if c = '"' then some ([], cs)
    else if c = '\\' then
      match cs with
      | 'u' :: rest => do
        let (d, rest) ← unicode? rest
        let (ds, rest) ← string? fuel rest
        return (d :: ds, rest)
      | d :: rest => do
        let d ← simpleEscape? d
        let (ds, rest) ← string? fuel rest
        return (d :: ds, rest)
      | [] => none
    else if c.toNat < 0x20 then none
    else do
      let (ds, rest) ← string? fuel cs
      return (c :: ds, rest)

/-- The digits after a point, or the text unchanged. -/
def fraction (cs : List Char) : List Char × List Char :=
  match cs with
  | '.' :: rest =>
    let ds := rest.takeWhile Text.isAsciiDigit
    if ds.isEmpty then ([], cs) else (ds, rest.dropWhile Text.isAsciiDigit)
  | _ => ([], cs)

/-- An exponent, or the text unchanged. -/
def exponent (cs : List Char) : Option Int × List Char :=
  match cs with
  | c :: rest =>
    if c = 'e' ∨ c = 'E' then
      let (negative, rest) := Text.takeSign rest
      let ds := rest.takeWhile Text.isAsciiDigit
      if ds.isEmpty then (none, cs)
      else
        let n : Int := Text.asciiNumber ds
        (some (if negative then -n else n), rest.dropWhile Text.isAsciiDigit)
    else (none, cs)
  | [] => (none, cs)

/-- A number after its sign. -/
def number? (negative : Bool) (cs : List Char) : Option (Scalar × List Char) :=
  let whole :=
    match cs with
    | '0' :: _ => ['0']
    | _ => cs.takeWhile Text.isAsciiDigit
  if whole.isEmpty then none
  else
    let (places, rest) := fraction (cs.drop whole.length)
    let (e, rest) := exponent rest
    let m := Text.asciiNumber (whole ++ places)
    if places.isEmpty && e.isNone then
      some (.int (if negative then -(m : Int) else m), rest)
    else some (.real (Decimal.ofDecimal negative m (e.getD 0 - places.length)), rest)

/-- The rest of the text after a word. -/
def word? (word : String) (cs : List Char) : Option (List Char) :=
  if word.toList.isPrefixOf cs then some (cs.drop word.length) else none

def words : List (String × Scalar) :=
  [("null", .null), ("true", .bool true), ("false", .bool false), ("NaN", .real (0 / 0)),
    ("Infinity", .real (1 / 0)), ("-Infinity", .real (-(1 / 0)))]

/-- A scalar other than a string. -/
def scalar? (cs : List Char) : Option (Scalar × List Char) :=
  match words.findSome? fun (w, s) => (word? w cs).map (s, ·) with
  | some found => some found
  | none =>
    match cs with
    | '-' :: rest => number? true rest
    | _ => number? false cs

mutual

def value? (fuel : Nat) (cs : List Char) : Option (Value × List Char) :=
  match fuel, cs with
  | 0, _ => none
  | _ + 1, '"' :: rest => do
    let (s, rest) ← string? rest.length rest
    return (.text (String.ofList s), rest)
  | fuel + 1, '[' :: rest =>
    match skip rest with
    | ']' :: rest => some (.list [], rest)
    | rest => do
      let (items, rest) ← items? fuel rest
      return (.list items, rest)
  | fuel + 1, '\x7b' :: rest =>
    match skip rest with
    | '\x7d' :: rest => some (.map [], rest)
    | rest => do
      let (entries, rest) ← entries? fuel rest
      return (Value.ofEntries entries, rest)
  | _, cs => do
    let (s, rest) ← scalar? cs
    return (.scalar s, rest)

/-- The items of a list up to its closing bracket. -/
def items? (fuel : Nat) (cs : List Char) : Option (List Value × List Char) :=
  match fuel with
  | 0 => none
  | fuel + 1 => do
    let (v, rest) ← value? fuel cs
    match skip rest with
    | ',' :: rest =>
      let (vs, rest) ← items? fuel (skip rest)
      return (v :: vs, rest)
    | ']' :: rest => return ([v], rest)
    | _ => none

/-- The entries of a map up to its closing brace. -/
def entries? (fuel : Nat) (cs : List Char) : Option (List (Scalar × Value) × List Char) :=
  match fuel, cs with
  | fuel + 1, '"' :: rest => do
    let (key, rest) ← string? rest.length rest
    match skip rest with
    | ':' :: rest =>
      let (v, rest) ← value? fuel (skip rest)
      match skip rest with
      | ',' :: rest =>
        let (es, rest) ← entries? fuel (skip rest)
        return ((.text (String.ofList key), v) :: es, rest)
      | '\x7d' :: rest => return ([(.text (String.ofList key), v)], rest)
      | _ => none
    | _ => none
  | _, _ => none

end

/-- The value that a text writes. -/
def parse? (s : String) : Option Value := do
  let cs := s.toList
  let (v, rest) ← value? (2 * cs.length + 2) (skip cs)
  if (skip rest).isEmpty then some v else none

end Ontogram.Json
