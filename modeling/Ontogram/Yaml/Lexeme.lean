import Ontogram.Json
import Ontogram.Yaml.Fault

set_option autoImplicit false

namespace Ontogram.Yaml

/-- A character that ends a line. -/
def isBreak (c : Char) : Bool :=
  c == '\n' || c == '\u2028' || c == '\u2029'

def atLineEnd (cs : List Char) : Bool :=
  cs.head?.all isBreak

/-- Whether a blank or the end of a line comes next. -/
def atBlank (cs : List Char) : Bool :=
  cs.head?.all fun c => c == ' ' || isBreak c

/-- A blank, a tab or the end of a line. -/
def isGap (c : Char) : Bool :=
  c == ' ' || c == '\t' || isBreak c

/-- Whether a blank, a tab or the end of a line comes next. -/
def atGap (cs : List Char) : Bool :=
  cs.head?.all isGap

/-- Whether a line starts with a mark between documents. -/
def atMark : List Char → Bool
  | '-' :: '-' :: '-' :: rest => atGap rest
  | '.' :: '.' :: '.' :: rest => atGap rest
  | _ => false

/-- The number of columns that a text takes. A byte order mark takes none. -/
def width (cs : List Char) : Nat :=
  (cs.filter (· ≠ '\ufeff')).length

/-- The text of a line break that is followed by the breaks of empty lines. -/
def foldedBreak (first : Char) (empties : List Char) : List Char :=
  if first != '\n' then first :: empties
  else if empties.isEmpty then [' ']
  else empties

def isQuotedBlank (c : Char) : Bool :=
  c == ' ' || c == '\t'

/-- The breaks of the empty lines in front of a text, and the text behind them and the blanks of its
line. A mark between documents is not allowed there. -/
def emptyLines (fuel : Nat) (cs : List Char) : Except Fault (List Char × List Char) :=
  match fuel with
  | 0 => .error .lexical
  | fuel + 1 =>
    if atMark cs then .error .lexical
    else
      match cs.dropWhile isQuotedBlank with
      | [] => .ok ([], [])
      | c :: rest =>
        if isBreak c then do
          let (breaks, rest) ← emptyLines fuel rest
          return (c :: breaks, rest)
        else .ok ([], c :: rest)

/-- Blanks and line breaks inside a quoted scalar, folded. -/
def quotedGap (cs : List Char) : Except Fault (List Char × List Char) :=
  match cs.dropWhile isQuotedBlank with
  | [] => .error .lexical
  | c :: rest =>
    if isBreak c then do
      let (breaks, rest) ← emptyLines (rest.length + 1) rest
      return (foldedBreak c breaks, rest)
    else .ok (cs.takeWhile isQuotedBlank, c :: rest)

/-- The rest of a scalar after its opening single quote. A quote inside is written twice. -/
def singleQuoted (fuel : Nat) (cs : List Char) : Except Fault (List Char × List Char) :=
  match fuel, cs with
  | 0, _ => .error .lexical
  | _, [] => .error .lexical
  | fuel + 1, '\x27' :: '\x27' :: rest => do
    let (s, rest) ← singleQuoted fuel rest
    return ('\x27' :: s, rest)
  | _ + 1, '\x27' :: rest => .ok ([], rest)
  | fuel + 1, c :: rest =>
    if isGap c then do
      let (gap, rest) ← quotedGap (c :: rest)
      let (s, rest) ← singleQuoted fuel rest
      return (gap ++ s, rest)
    else do
      let (s, rest) ← singleQuoted fuel rest
      return (c :: s, rest)

/-- The characters that a backslash and one character stand for. -/
def escapes : List (Char × Char) :=
  [('0', '\x00'), ('a', '\x07'), ('b', '\x08'), ('t', '\t'), ('\t', '\t'), ('n', '\n'),
    ('v', '\x0b'), ('f', '\x0c'), ('r', '\r'), ('e', '\x1b'), (' ', ' '), ('"', '"'),
    ('\\', '\\'), ('/', '/'), ('N', '\u0085'), ('_', '\u00a0'), ('L', '\u2028'), ('P', '\u2029')]

/-- The numbers of hexadecimal digits after a backslash and a letter. -/
def hexEscapes : List (Char × Nat) :=
  [('x', 2), ('u', 4), ('U', 8)]

/-- The number that so many hexadecimal digits write. -/
def hexNumber (count : Nat) (cs : List Char) : Except Fault (Nat × List Char) :=
  match (cs.take count).mapM Json.hexValue? with
  | some ds =>
    if ds.length < count then .error .lexical
    else .ok (ds.foldl (fun n d => n * 16 + d) 0, cs.drop count)
  | none => .error .lexical

/-- The second half of a surrogate pair, written as an escape. -/
def secondHalf? (cs : List Char) : Option (Nat × List Char) :=
  match cs with
  | '\\' :: c :: rest =>
    match (hexEscapes.lookup c).map (hexNumber · rest) with
    | some (.ok (n, rest)) => if 0xdc00 ≤ n ∧ n ≤ 0xdfff then some (n, rest) else none
    | _ => none
  | _ => none

/-- The character of a number, which may be the first half of a surrogate pair. A half that stands
alone counts as the replacement character. -/
def numbered (n : Nat) (rest : List Char) : Except Fault (Char × List Char) :=
  if 0x7fffffff < n then .error .farCharacter
  else if 0x10ffff < n then .error .noCharacter
  else if 0xd800 ≤ n ∧ n ≤ 0xdfff then
    match secondHalf? rest with
    | some (m, behind) =>
      if n ≤ 0xdbff then
        .ok (Char.ofNat (0x10000 + (n - 0xd800) * 0x400 + (m - 0xdc00)), behind)
      else .ok ('\ufffd', rest)
    | none => .ok ('\ufffd', rest)
  else .ok (Char.ofNat n, rest)

/-- The text that an escape stands for, after its backslash. A line break is left out. -/
def escaped : List Char → Except Fault (List Char × List Char)
  | [] => .error .lexical
  | c :: rest =>
    if isBreak c then emptyLines (rest.length + 1) rest
    else
      match escapes.lookup c, hexEscapes.lookup c with
      | some d, _ => .ok ([d], rest)
      | none, some count => do
        let (n, rest) ← hexNumber count rest
        let (d, rest) ← numbered n rest
        return ([d], rest)
      | none, none => .error .lexical

/-- The rest of a scalar after its opening double quote. -/
def doubleQuoted (fuel : Nat) (cs : List Char) : Except Fault (List Char × List Char) :=
  match fuel, cs with
  | 0, _ => .error .lexical
  | _, [] => .error .lexical
  | _ + 1, '"' :: rest => .ok ([], rest)
  | fuel + 1, c :: rest =>
    if c == '\\' then do
      let (d, rest) ← escaped rest
      let (s, rest) ← doubleQuoted fuel rest
      return (d ++ s, rest)
    else if isGap c then do
      let (gap, rest) ← quotedGap (c :: rest)
      let (s, rest) ← doubleQuoted fuel rest
      return (gap ++ s, rest)
    else do
      let (s, rest) ← doubleQuoted fuel rest
      return (c :: s, rest)

/-- Whether a character of brackets and commas comes next. -/
def atBracket (cs : List Char) : Bool :=
  cs.head?.any fun c => ",[]\x7b\x7d".toList.contains c

/-- Whether a character with its successors ends a plain word; inside brackets more of them do. -/
def endsWord (inFlow : Bool) (c : Char) (rest : List Char) : Bool :=
  isGap c || (c == ':' && (atGap rest || (inFlow && atBracket rest))) ||
    (inFlow && ",?[]\x7b\x7d".toList.contains c)

def plainWord (inFlow : Bool) : List Char → List Char × List Char
  | [] => ([], [])
  | c :: rest =>
    if endsWord inFlow c rest then ([], c :: rest)
    else
      let (word, behind) := plainWord inFlow rest
      (c :: word, behind)

/-- What stands between two words of a plain scalar. -/
structure PlainGap where
  /-- The blanks as they count; none when the scalar ends here. -/
  blanks : List Char
  rest : List Char
  /-- The column of the rest. -/
  column : Nat
  /-- Whether the rest is on another line. -/
  broken : Bool

/-- The lines behind a line break in a plain scalar: the breaks of the empty ones, the column of the
rest, and whether it is a mark between documents. -/
def plainLines (fuel : Nat) (cs : List Char) : List Char × Nat × List Char × Bool :=
  match fuel with
  | 0 => ([], 0, cs, true)
  | fuel + 1 =>
    if atMark cs then ([], 0, cs, true)
    else
      let rest := cs.dropWhile (· == ' ')
      match rest with
      | c :: more =>
        if isBreak c then
          let (breaks, column, rest, mark) := plainLines fuel more
          (c :: breaks, column, rest, mark)
        else ([], cs.length - rest.length, rest, false)
      | [] => ([], cs.length, [], false)

/-- The gap behind a word that ends in some column. -/
def plainGap (column : Nat) (cs : List Char) : PlainGap :=
  let blanks := cs.takeWhile (· == ' ')
  match cs.dropWhile (· == ' ') with
  | c :: rest =>
    if isBreak c then
      let (breaks, column, rest, mark) := plainLines (rest.length + 1) rest
      ⟨if mark then [] else foldedBreak c breaks, rest, column, true⟩
    else ⟨blanks, c :: rest, column + blanks.length, false⟩
  | [] => ⟨blanks, [], column + blanks.length, false⟩

/-- The further words of a plain scalar, the text behind it, and whether that is on another line.
Words may stand in the columns from `least` on. -/
def plainTail (fuel : Nat) (inFlow : Bool) (least : Int) (column : Nat) (cs : List Char) :
    List Char × List Char × Bool :=
  match fuel with
  | 0 => ([], cs, false)
  | fuel + 1 =>
    let gap := plainGap column cs
    let ends := gap.blanks.isEmpty || gap.rest.head? == some '#' ||
      (!inFlow && decide ((gap.column : Int) < least))
    let (word, rest) := plainWord inFlow gap.rest
    if ends || word.isEmpty then ([], gap.rest, gap.broken)
    else
      let (more, rest, broken) := plainTail fuel inFlow least (gap.column + width word) rest
      (gap.blanks ++ word ++ more, rest, broken)

end Ontogram.Yaml
