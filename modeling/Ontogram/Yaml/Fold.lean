import Ontogram.Text.Quoted

set_option autoImplicit false

namespace Ontogram.Yaml

/-- How a text is laid out. -/
structure Margins where
  /-- The column of further lines. -/
  indent : Nat
  /-- Whether the text may go on in a new line. -/
  folds : Bool

namespace Margins

/-- The column behind which a line is full. -/
def widest : Nat :=
  80

/-- Whether a line that has come to some column is full. -/
def isFull (m : Margins) (column : Nat) : Bool :=
  m.folds && decide (widest < column)

/-- The break in front of a further line, and its indentation. -/
def newLine (m : Margins) : List Char :=
  '\n' :: List.replicate m.indent ' '

end Margins

/-- What a run of characters in a text is made of. -/
inductive RunKind where
  | blanks
  | breaks
  | word
deriving DecidableEq

def RunKind.ofChar (c : Char) : RunKind :=
  if c = ' ' then .blanks else if c = '\n' then .breaks else .word

/-- The longest runs of one kind in a text, in order. -/
def runsOf : List Char → List (RunKind × List Char)
  | [] => []
  | c :: cs =>
    match runsOf cs with
    | (kind, run) :: rest =>
      if kind = RunKind.ofChar c then (kind, c :: run) :: rest
      else (RunKind.ofChar c, [c]) :: (kind, run) :: rest
    | [] => [(RunKind.ofChar c, [c])]

def singleChar (c : Char) : List Char :=
  if c = '\x27' then ['\x27', '\x27'] else [c]

/-- Runs of a text from some column on. Breaks are written once more than there are of them. A blank
at one of the ends is kept when `outer` says so, and single quotes are doubled by `char`. -/
def foldRuns (m : Margins) (char : Char → List Char) (first : Bool) (column : Nat) :
    List (RunKind × List Char) → List Char
  | [] => []
  | (kind, run) :: rest =>
    match kind with
    | .blanks =>
      if run.length == 1 && m.isFull column && !first && !rest.isEmpty then
        m.newLine ++ foldRuns m char false m.indent rest
      else run ++ foldRuns m char false (column + run.length) rest
    | .breaks => '\n' :: run ++ List.replicate m.indent ' ' ++ foldRuns m char false m.indent rest
    | .word =>
      let written := run.flatMap char
      written ++ foldRuns m char false (column + written.length) rest

/-- A text without quotes that starts in some column. -/
def plainForm (m : Margins) (column : Nat) (cs : List Char) : List Char :=
  foldRuns m (fun c => [c]) true column (runsOf cs)

/-- A text in single quotes, the first of which stands in some column. -/
def singleForm (m : Margins) (column : Nat) (cs : List Char) : List Char :=
  '\x27' :: foldRuns m singleChar true (column + 1) (runsOf cs) ++ ['\x27']

def escapeLetters : List (Char × Char) :=
  [('\x00', '0'), ('\x07', 'a'), ('\x08', 'b'), ('\t', 't'), ('\n', 'n'), ('\x0b', 'v'),
    ('\x0c', 'f'), ('\r', 'r'), ('\x1b', 'e'), ('"', '"'), ('\\', '\\'), ('\u0085', 'N'),
    ('\u00a0', '_'), ('\u2028', 'L'), ('\u2029', 'P')]

/-- A number in so many hexadecimal digits with capitals. -/
def hexCapitals (width n : Nat) : List Char :=
  (Text.hexDigits width n).map Char.toUpper

/-- A character behind a backslash, unless it stands for itself in double quotes. -/
def escapeOf? (c : Char) : Option (List Char) :=
  match escapeLetters.lookup c with
  | some letter => some ['\\', letter]
  | none =>
    if ' ' ≤ c && c ≤ '~' then none
    else if c.toNat ≤ 0xff then some ('\\' :: 'x' :: hexCapitals 2 c.toNat)
    else if c.toNat ≤ 0xffff then some ('\\' :: 'u' :: hexCapitals 4 c.toNat)
    else some ('\\' :: 'U' :: hexCapitals 8 c.toNat)

/-- A backslash, the break in front of a further line, and a second backslash when that line starts
with a blank. -/
def continued (m : Margins) (startsBlank : Bool) : List Char :=
  '\\' :: m.newLine ++ if startsBlank then ['\\'] else []

def continuedColumn (m : Margins) (startsBlank : Bool) : Nat :=
  m.indent + if startsBlank then 1 else 0

/-- A text in double quotes from some column on. `fresh` when the last character was an escape;
neither the first nor the last character starts a line. -/
def doubleChars (m : Margins) (first fresh : Bool) (column : Nat) : List Char → List Char
  | [] => []
  | c :: cs =>
    let inner := !first && !cs.isEmpty
    match escapeOf? c with
    | some e =>
      let startsBlank := cs.head? == some ' '
      if inner && m.isFull (column + e.length - 1) then
        e ++ continued m startsBlank ++
          doubleChars m false true (continuedColumn m startsBlank) cs
      else e ++ doubleChars m false true (column + e.length) cs
    | none =>
      if inner && (c == ' ' || fresh) && m.isFull column then
        continued m (c == ' ') ++
          c :: doubleChars m false false (continuedColumn m (c == ' ') + 1) cs
      else c :: doubleChars m false false (column + 1) cs

/-- A text in double quotes, the first of which stands in some column. -/
def doubleForm (m : Margins) (column : Nat) (cs : List Char) : List Char :=
  '"' :: doubleChars m true true (column + 1) cs ++ ['"']

end Ontogram.Yaml
