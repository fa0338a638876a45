import Ontogram.Yaml.Lexeme

set_option autoImplicit false

namespace Ontogram.Yaml

/-- What becomes of the line breaks at the end. -/
inductive Chomping where
  | one
  | all
  | none
deriving DecidableEq

/-- What stands behind the sign of a block scalar. -/
structure BlockHeader where
  chomping : Chomping
  /-- How much further in the lines are than the block around them. -/
  step : Option Nat
  rest : List Char

/-- What a plus or minus says. -/
def chomping? : List Char → Option (Chomping × List Char)
  | '+' :: cs => some (.all, cs)
  | '-' :: cs => some (.none, cs)
  | _ => none

/-- The text behind the comment of a line and the break at its end; nothing else may stand there. -/
def emptyRest? (cs : List Char) : Option (List Char) :=
  let cs := cs.dropWhile (· == ' ')
  let cs := if cs.head? == some '#' then cs.dropWhile fun c => !isBreak c else cs
  if atLineEnd cs then some (cs.drop 1) else none

/-- A digit that says how much further in the lines are; zero is not allowed. -/
def step? (cs : List Char) : Option (Option Nat × List Char) :=
  match cs with
  | c :: rest =>
    if c = '0' then none
    else if Text.isAsciiDigit c then some (some (c.toNat - '0'.toNat), rest)
    else some (none, cs)
  | [] => some (none, cs)

/-- Reads the line of the sign, behind it. -/
def blockHeader? (cs : List Char) : Option BlockHeader := do
  let (chomping, step, cs) ←
    match chomping? cs with
    | some (chomping, cs) => (step? cs).map fun (step, cs) => (chomping, step, cs)
    | none => (step? cs).map fun (step, behind) =>
      match (if step.isSome then chomping? behind else none) with
      | some (chomping, cs) => (chomping, step, cs)
      | none => (Chomping.one, step, behind)
  if !atBlank cs then none
  else return ⟨chomping, step, ← emptyRest? cs⟩

/-- The breaks of the empty lines in front of a block scalar's first line, the widest column of the
blanks in them, and that line with its column. -/
def leadingLines (column widest : Nat) : List Char → List Char × Nat × Nat × List Char
  | [] => ([], widest, column, [])
  | c :: cs =>
    if c = ' ' then leadingLines (column + 1) (max widest (column + 1)) cs
    else if isBreak c then
      let (breaks, found) := leadingLines 0 widest cs
      (c :: breaks, found)
    else ([], widest, column, c :: cs)

/-- The breaks of empty lines, and the line behind them without its indentation, with the column in
which it starts then. -/
def blockBreaks (indent column : Nat) : List Char → List Char × Nat × List Char
  | [] => ([], column, [])
  | c :: cs =>
    if c = ' ' ∧ column < indent then blockBreaks indent (column + 1) cs
    else if isBreak c then
      let (breaks, found) := blockBreaks indent 0 cs
      (c :: breaks, found)
    else ([], column, c :: cs)

/-- The lines of a block scalar. -/
structure BlockLines where
  text : List Char
  /-- The break behind the last line. -/
  last : List Char
  /-- The breaks of the empty lines behind it. -/
  empties : List Char
  rest : List Char

def startsBlank (cs : List Char) : Bool :=
  cs.head?.any isQuotedBlank

/-- What stands for the break between two lines. -/
def blockJoin (folded : Bool) (line last empties next : List Char) : List Char :=
  if folded && last == ['\n'] && !startsBlank line && !startsBlank next then
    if empties.isEmpty then [' '] else []
  else last

/-- The lines from here on, in front of which there were empty ones. -/
def blockLines (fuel : Nat) (folded : Bool) (indent column : Nat) (empties cs : List Char) :
    BlockLines :=
  match fuel with
  | 0 => ⟨[], [], empties, cs⟩
  | fuel + 1 =>
    if column != indent || cs.isEmpty then ⟨[], [], empties, cs⟩
    else
      let line := cs.takeWhile fun c => !isBreak c
      let behind := cs.drop line.length
      let last := behind.take 1
      let (breaks, column, next) := blockBreaks indent 0 (behind.drop 1)
      if column != indent || next.isEmpty then ⟨empties ++ line, last, breaks, next⟩
      else
        let more := blockLines fuel folded indent column breaks next
        { more with text := empties ++ line ++ blockJoin folded line last breaks next ++ more.text }

/-- The text of a block scalar behind its sign, and the text behind it. `outer` is the column of the
block around it. -/
def blockScalar? (folded : Bool) (outer : Int) (cs : List Char) :
    Option (List Char × List Char) := do
  let header ← blockHeader? cs
  let least := max 1 (outer + 1).toNat
  let (breaks, indent, column, rest) :=
    match header.step with
    | none =>
      let (breaks, widest, column, rest) := leadingLines 0 0 header.rest
      (breaks, max least widest, column, rest)
    | some step =>
      let indent := least + step - 1
      let (breaks, column, rest) := blockBreaks indent 0 header.rest
      (breaks, indent, column, rest)
  let lines := blockLines (rest.length + 1) folded indent column breaks rest
  let last := if header.chomping == .none then [] else lines.last
  let kept := if header.chomping == .all then lines.empties else []
  return (lines.text ++ last ++ kept, lines.rest)

end Ontogram.Yaml
