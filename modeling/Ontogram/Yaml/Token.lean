import Ontogram.Yaml.Property

/-!
Tokens of YAML. Indentation opens and closes blocks. Whether a scalar or a bracketed collection is
a key shows only at the colon behind it; until the end of its line, or of 1024 characters, it stays
pending, and the tokens that make it a key are put in front of it then.

When a text goes wrong, the tokens from the first pending key on are not known yet: a reader gets to
see only those before it, and behind them the fault in the place of a token.
-/

set_option autoImplicit false

namespace Ontogram.Yaml

/-- A token. -/
inductive Token where
  | directive (d : Directive)
  | documentStart
  | documentEnd
  | streamEnd
  | blockSequence
  | blockMapping
  | blockEnd
  | flowSequence
  | flowSequenceEnd
  | flowMapping
  | flowMappingEnd
  | flowEntry
  | blockEntry
  | key
  | value
  | alias (label : String)
  | anchor (label : String)
  | tag (name : TagName)
  /-- A scalar; `plain` when it stands without quotes. -/
  | scalar (text : String) (plain : Bool)
  /-- The place behind which nothing is known. -/
  | broken (fault : Fault)
deriving DecidableEq

/-- A token that may turn out to be a key. -/
structure PendingKey where
  /-- The number of tokens in front of it. -/
  index : Nat
  /-- Whether nothing but a key may stand there. -/
  required : Bool
  /-- The number of characters in front of it. -/
  place : Nat
  line : Nat
  column : Nat
  /-- The number of brackets around it. -/
  depth : Nat

/-- A text that is cut into tokens. -/
structure Lexer where
  rest : List Char
  /-- The number of characters that are behind. -/
  place : Nat := 0
  line : Nat := 0
  column : Nat := 0
  /-- The number of open brackets. -/
  depth : Nat := 0
  /-- The column of the innermost block, or less than any column. -/
  indent : Int := -1
  /-- The columns of the blocks around it. -/
  outer : List Int := []
  /-- Whether a key may stand here. -/
  keyAllowed : Bool := true
  pending : List PendingKey := []
  tokens : List Token := []

namespace Lexer

/-- Goes over some characters. -/
def advance (s : Lexer) (cs : List Char) : Lexer :=
  cs.foldl (fun s c =>
    if isBreak c then { s with place := s.place + 1, line := s.line + 1, column := 0 }
    else { s with place := s.place + 1, column := s.column + width [c] }) s

/-- Goes on to a rest of the text. -/
def goTo (s : Lexer) (rest : List Char) : Lexer :=
  { s.advance (s.rest.take (s.rest.length - rest.length)) with rest }

/-- Adds a token. -/
def push (s : Lexer) (t : Token) : Lexer :=
  { s with tokens := s.tokens ++ [t] }

/-- Adds a token of so many characters. -/
def take (s : Lexer) (t : Token) (count : Nat) : Lexer :=
  (s.goTo (s.rest.drop count)).push t

/-- Goes over blanks, comments and line breaks. -/
def skip (fuel : Nat) (s : Lexer) : Lexer :=
  match fuel with
  | 0 => s
  | fuel + 1 =>
    let s := s.goTo (s.rest.dropWhile (· == ' '))
    let s :=
      if s.rest.head? == some '#' then s.goTo (s.rest.dropWhile fun c => !isBreak c) else s
    match s.rest with
    | c :: rest =>
      if isBreak c then skip fuel { s.goTo rest with keyAllowed := s.keyAllowed || s.depth == 0 }
      else s
    | [] => s

/-- Goes on to the next token. A byte order mark at the start of the text is no part of it. -/
def toToken (s : Lexer) : Lexer :=
  let s :=
    match s.rest with
    | '\ufeff' :: rest => if s.place == 0 then s.goTo rest else s
    | _ => s
  s.skip (s.rest.length + 1)

/-- Whether a pending key can be a key no more. -/
def isStale (s : Lexer) (k : PendingKey) : Bool :=
  k.line != s.line || k.place + 1024 < s.place

/-- Drops the stale keys, unless one of them had to be a key. -/
def dropStale (s : Lexer) : Except Fault Lexer :=
  if s.pending.any fun k => s.isStale k && k.required then .error .lexical
  else .ok { s with pending := s.pending.filter fun k => !s.isStale k }

/-- Drops the pending key between the innermost brackets, unless it had to be a key. -/
def dropPending (s : Lexer) : Except Fault Lexer :=
  let here (k : PendingKey) : Bool := k.depth == s.depth
  if s.pending.any fun k => here k && k.required then .error .lexical
  else .ok { s with pending := s.pending.filter fun k => !here k }

/-- Notes that the next token may be a key. -/
def notePending (s : Lexer) : Except Fault Lexer :=
  if s.keyAllowed then do
    let s ← s.dropPending
    let required := s.depth == 0 && s.indent == (s.column : Int)
    return { s with
      pending := s.pending ++
        [⟨s.tokens.length, required, s.place, s.line, s.column, s.depth⟩] }
  else .ok s

def closeBlocks (column : Int) : List Int → Lexer → Lexer
  | [], s => s
  | i :: is, s =>
    if column < s.indent then
      closeBlocks column is { s.push .blockEnd with indent := i, outer := is }
    else s

/-- Closes the blocks that are further in than a column, when no bracket is open. -/
def unwind (s : Lexer) (column : Int) : Lexer :=
  if s.depth == 0 then closeBlocks column s.outer s else s

/-- Opens a block in a column that is further in; its token goes to some place. -/
def openBlock (s : Lexer) (column : Nat) (t : Token) (index : Nat) : Lexer :=
  if s.indent < (column : Int) then
    { s with
      outer := s.indent :: s.outer
      indent := column
      tokens := s.tokens.insertIdx index t }
  else s

/-- A token behind which no key may stand, and which may be a key itself. -/
def atom (s : Lexer) (rest : List Char) (t : Token) : Lexer :=
  { (s.goTo rest).push t with keyAllowed := false }

/-- A scalar that is in double quotes, in single quotes, or plain. -/
def scalar (s : Lexer) (c : Char) : Except Fault Lexer := do
  let s ← s.notePending
  let fuel := s.rest.length + 1
  if c == '"' then
    let (text, rest) ← doubleQuoted fuel (s.rest.drop 1)
    return s.atom rest (.scalar (String.ofList text) false)
  else if c == '\x27' then
    let (text, rest) ← singleQuoted fuel (s.rest.drop 1)
    return s.atom rest (.scalar (String.ofList text) false)
  else
    let (word, rest) := plainWord (s.depth != 0) s.rest
    let (more, rest, broken) :=
      plainTail fuel (s.depth != 0) (s.indent + 1) (s.column + width word) rest
    return { s.atom rest (.scalar (String.ofList (word ++ more)) true) with keyAllowed := broken }

def block (s : Lexer) (folded : Bool) : Except Fault Lexer := do
  let s ← s.dropPending
  match blockScalar? folded s.indent (s.rest.drop 1) with
  | none => .error .lexical
  | some (text, rest) =>
    return { s.atom rest (.scalar (String.ofList text) false) with keyAllowed := true }

/-- An anchor, an alias or a tag, which `reader` reads behind its sign. -/
def property {α : Type} (s : Lexer) (reader : List Char → Option (α × List Char)) (t : α → Token) :
    Except Fault Lexer := do
  let s ← s.notePending
  match reader (s.rest.drop 1) with
  | none => .error .lexical
  | some (a, rest) => return s.atom rest (t a)

def directive (s : Lexer) : Except Fault Lexer := do
  let s ← (s.unwind (-1)).dropPending
  match directive? (s.rest.drop 1) with
  | none => .error .lexical
  | some (d, rest) => return s.atom rest (.directive d)

def openBracket (s : Lexer) (t : Token) : Except Fault Lexer := do
  let s ← s.notePending
  return { s.take t 1 with depth := s.depth + 1, keyAllowed := true }

def closeBracket (s : Lexer) (t : Token) : Except Fault Lexer := do
  let s ← s.dropPending
  return { s.take t 1 with depth := s.depth - 1, keyAllowed := false }

def comma (s : Lexer) : Except Fault Lexer := do
  let s ← s.dropPending
  return { s.take .flowEntry 1 with keyAllowed := true }

def hyphen (s : Lexer) : Except Fault Lexer := do
  if s.depth == 0 && !s.keyAllowed then .error .lexical
  else
    let s := if s.depth == 0 then s.openBlock s.column .blockSequence s.tokens.length else s
    let s ← s.dropPending
    return { s.take .blockEntry 1 with keyAllowed := true }

def questionMark (s : Lexer) : Except Fault Lexer := do
  if s.depth == 0 && !s.keyAllowed then .error .lexical
  else
    let s := if s.depth == 0 then s.openBlock s.column .blockMapping s.tokens.length else s
    let s ← s.dropPending
    return { s.take .key 1 with keyAllowed := s.depth == 0 }

def colonAfter (s : Lexer) (k : PendingKey) : Lexer :=
  let s := { s with
    pending := s.pending.filter fun p => p.depth != s.depth
    tokens := s.tokens.insertIdx k.index .key }
  let s := if s.depth == 0 then s.openBlock k.column .blockMapping k.index else s
  { s.take .value 1 with keyAllowed := false }

def colonAlone (s : Lexer) : Except Fault Lexer := do
  if s.depth == 0 && !s.keyAllowed then .error .lexical
  else
    let s := if s.depth == 0 then s.openBlock s.column .blockMapping s.tokens.length else s
    let s ← s.dropPending
    return { s.take .value 1 with keyAllowed := s.depth == 0 }

def colon (s : Lexer) : Except Fault Lexer :=
  match s.pending.find? fun k => k.depth == s.depth with
  | some k => .ok (s.colonAfter k)
  | none => s.colonAlone

def mark (s : Lexer) (t : Token) : Except Fault Lexer := do
  let s ← (s.unwind (-1)).dropPending
  return { s.take t 3 with keyAllowed := false }

/-- Whether a plain scalar may start with a character and its successors. -/
def startsPlain (s : Lexer) (c : Char) (rest : List Char) : Bool :=
  !"-?:,[]\x7b\x7d#&*!|>\x27\"%@\x60".toList.contains c ||
    (!atGap rest && (c == '-' || (s.depth == 0 && (c == '?' || c == ':'))))

/-- The token at the front of a text. -/
def next (s : Lexer) (c : Char) (rest : List Char) : Except Fault Lexer :=
  if s.column == 0 && c == '%' then s.directive
  else if s.column == 0 && c == '-' && atMark (c :: rest) then s.mark .documentStart
  else if s.column == 0 && c == '.' && atMark (c :: rest) then s.mark .documentEnd
  else if c == '[' then s.openBracket .flowSequence
  else if c == '\x7b' then s.openBracket .flowMapping
  else if c == ']' then s.closeBracket .flowSequenceEnd
  else if c == '\x7d' then s.closeBracket .flowMappingEnd
  else if c == ',' then s.comma
  else if c == '-' && atGap rest then s.hyphen
  else if c == '?' && (s.depth != 0 || atGap rest) then s.questionMark
  else if c == ':' && (s.depth != 0 || atGap rest) then s.colon
  else if c == '*' then s.property anchorName? .alias
  else if c == '&' then s.property anchorName? .anchor
  else if c == '!' then s.property tagName? .tag
  else if c == '|' && s.depth == 0 then s.block false
  else if c == '>' && s.depth == 0 then s.block true
  else if c == '\x27' || c == '"' || (!isGap c && s.startsPlain c rest) then s.scalar c
  else .error .lexical

/-- The number of tokens that are known: those in front of all pending keys. -/
def known (s : Lexer) : Nat :=
  s.pending.foldl (fun n k => min n k.index) s.tokens.length

/-- The tokens behind which a text goes wrong. -/
def cutOff (s : Lexer) (count : Nat) (fault : Fault) : List Token :=
  s.tokens.take count ++ [.broken fault]

/-- Goes on to the next token and takes it; none at the end of the text. -/
def step (s : Lexer) : Except Fault (Option Lexer) := do
  let s ← s.toToken.dropStale
  match s.rest with
  | [] => return none
  | c :: rest => return some (← (s.unwind s.column).next c rest)

/-- The end of the text. -/
def finish (s : Lexer) : Except Fault Lexer := do
  let s ← (s.toToken.unwind (-1)).dropPending
  return s.push .streamEnd

/-- The tokens from here to the end of the text. So many of those that are there have been seen
already when it turns out that one of them had to be a key. -/
def run (fuel : Nat) (seen : Nat) (s : Lexer) : List Token :=
  match fuel with
  | 0 => s.cutOff seen .lexical
  | fuel + 1 =>
    match s.dropStale with
    | .error f => s.cutOff seen f
    | .ok s =>
      match s.step with
      | .error f => s.cutOff s.known f
      | .ok (some next) => run fuel s.known next
      | .ok none =>
        match s.finish with
        | .error f => s.cutOff s.known f
        | .ok s => s.tokens

end Lexer

/-- The text with a line feed for each carriage return, for each pair of the two, and for each next
line character. -/
def normalBreaks : List Char → List Char
  | '\r' :: '\n' :: cs => '\n' :: normalBreaks cs
  | '\r' :: cs => '\n' :: normalBreaks cs
  | '\u0085' :: cs => '\n' :: normalBreaks cs
  | c :: cs => c :: normalBreaks cs
  | [] => []

def tokens (s : String) : List Token :=
  let cs := normalBreaks s.toList
  Lexer.run (cs.length + 2) 0 { rest := cs }

end Ontogram.Yaml
