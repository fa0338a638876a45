import Ontogram.Expression
import Ontogram.Expression.Group
import Ontogram.Expression.Token
import Ontogram.Text.Basic

/-!
Reading class expressions. From the loosest binding to the tightest: `or`, `and`, `not`, and the
restriction of a property, whose argument is the rest of its operand. Keywords are recognised in
any case and only outside groups. Reading never fails: parentheses without a partner are dropped,
and tokens of no known shape become one name.
-/

set_option autoImplicit false

namespace Ontogram.Expression

/-- The tokens that are no parentheses with a space between each two. -/
def joinWords (tokens : List String) : String :=
  String.intercalate " " (tokens.filter fun t => !isParen t)

/-- The number that a token writes in digits of ASCII. -/
def count? (token : String) : Option Nat :=
  let cs := token.toList
  if cs.isEmpty || !cs.all Text.isAsciiDigit then none else some (Text.asciiNumber cs)

/-- The operands that a keyword separates, without empty ones; none where it does not occur. -/
def operands? (keyword : String) (tokens : List String) : Option (List (List String)) :=
  let parts := splitTop keyword tokens
  if parts.length ≤ 1 then none else some (parts.filter (!·.isEmpty))

/-- A junction of operands. One operand stands for itself, and without operands the tokens are
read as a name. -/
def junction (join : List Expression → Expression) (tokens : List String) :
    List Expression → Expression
  | [] => .name (joinWords tokens)
  | [e] => e
  | es => join es

/-- What a list of tokens is, judged by its keywords outside groups. -/
inductive Shape where
  /-- Operands of `or`. -/
  | union (operands : List (List String))
  /-- Operands of `and`. -/
  | inter (operands : List (List String))
  /-- What follows `not`. -/
  | compl (rest : List String)
  /-- A property, its quantifier and what follows. -/
  | restrict (property : String) (quantifier : Quantifier) (rest : List String)
  /-- Anything else. -/
  | other

/-- The property and the quantifier at the front of a token list. -/
def restriction? : List String → Option (String × Quantifier × List String)
  | t :: u :: ts =>
    if isParen t then none else (Quantifier.ofWord? (Text.lower u)).map fun q => (t, q, ts)
  | _ => none

/-- The token lists that a shape holds. -/
def Shape.parts : Shape → List (List String)
  | .union operands => operands
  | .inter operands => operands
  | .compl rest => [rest]
  | .restrict _ _ rest => [rest]
  | .other => []

def unaryShape (tokens : List String) : Shape :=
  match tokens with
  | t :: u :: ts =>
    if Text.lower t = "not" then .compl (u :: ts)
    else
      match restriction? tokens with
      | some (property, quantifier, rest) => .restrict property quantifier rest
      | none => .other
  | _ => .other

def shapeOf (tokens : List String) : Shape :=
  match operands? "or" tokens with
  | some parts => .union parts
  | none =>
    match operands? "and" tokens with
    | some parts => .inter parts
    | none => unaryShape tokens

/-- Whether the arguments of a quantifier are the word `self`. -/
def isReflexive (quantifier : Quantifier) (args : List String) : Bool :=
  quantifier == .self ||
    (quantifier == .some && args.length == 1 && args.all fun a => Text.lower a == "self")

/-- The number at the front of the arguments of a quantifier that takes one. -/
def number? (quantifier : Quantifier) (args : List String) : Option Nat :=
  if quantifier.counts then args.head?.bind count? else none

/-- The arguments of a quantifier after its number. -/
def fillerTokens (quantifier : Quantifier) (args : List String) : List String :=
  if (number? quantifier args).isSome then args.tail else args

theorem length_lt_of_mem_operands? {keyword : String} {tokens part : List String}
    {parts : List (List String)} (h : operands? keyword tokens = some parts)
    (hp : part ∈ parts) : part.length < tokens.length := by
  unfold operands? at h
  simp only at h
  split at h
  · simp at h
  · obtain rfl := Option.some.inj h
    exact length_lt_of_mem_splitTop (by omega) (List.mem_filter.1 hp).1

theorem restriction?_eq_some {tokens rest : List String} {property : String}
    {quantifier : Quantifier} (h : restriction? tokens = some (property, quantifier, rest)) :
    ∃ u, tokens = property :: u :: rest ∧ isParen property = false ∧
      Quantifier.ofWord? (Text.lower u) = some quantifier := by
  unfold restriction? at h
  split at h
  · rename_i t u ts
    split at h
    · simp at h
    · rename_i hp
      obtain ⟨q, hq, he⟩ := Option.map_eq_some_iff.1 h
      simp only [Prod.mk.injEq] at he
      obtain ⟨rfl, rfl, rfl⟩ := he
      exact ⟨u, rfl, by simpa using hp, hq⟩
  · simp at h

theorem length_lt_of_mem_unaryShape {tokens part : List String}
    (h : part ∈ (unaryShape tokens).parts) : part.length < tokens.length := by
  unfold unaryShape at h
  split at h
  · split at h
    · obtain rfl : part = _ := by simpa [Shape.parts] using h
      simp
    · split at h
      · rename_i hr
        obtain ⟨_, he, _⟩ := restriction?_eq_some hr
        obtain rfl : part = _ := by simpa [Shape.parts] using h
        rw [he]
        simp only [List.length_cons]
        omega
      · simp [Shape.parts] at h
  · simp [Shape.parts] at h

/-- Every token list that a shape holds is shorter than the tokens it was taken from. -/
theorem length_lt_of_mem_shapeOf {tokens part : List String}
    (h : part ∈ (shapeOf tokens).parts) : part.length < tokens.length := by
  unfold shapeOf at h
  split at h
  · rename_i ho
    exact length_lt_of_mem_operands? ho h
  · split at h
    · rename_i ha
      exact length_lt_of_mem_operands? ha h
    · exact length_lt_of_mem_unaryShape h

theorem length_lt_of_shapeOf_stripOuter {tokens part : List String} {shape : Shape}
    (h : shapeOf (stripOuter tokens) = shape) (hp : part ∈ shape.parts) :
    part.length < tokens.length :=
  Nat.lt_of_lt_of_le (length_lt_of_mem_shapeOf (h ▸ hp)) (length_stripOuter_le tokens)

theorem length_fillerTokens_le (quantifier : Quantifier) (args : List String) :
    (fillerTokens quantifier args).length ≤ args.length := by
  unfold fillerTokens
  split <;> simp

/-- Reads tokens whose parentheses are balanced. -/
def parseTokens (tokens : List String) : Expression :=
  match _h : shapeOf (stripOuter tokens) with
  | .union parts =>
    junction .union (stripOuter tokens) (parts.attach.map fun ⟨part, _⟩ => parseTokens part)
  | .inter parts =>
    junction .inter (stripOuter tokens) (parts.attach.map fun ⟨part, _⟩ => parseTokens part)
  | .compl rest => .compl (parseTokens rest)
  | .restrict property quantifier args =>
    if isReflexive quantifier args then .restrict property quantifier none none true
    else if quantifier = .value then
      .restrict property quantifier (some (.raw (joinWords args))) none false
    else
      let number := (number? quantifier args).map Int.ofNat
      if (fillerTokens quantifier args).isEmpty then
        .restrict property quantifier none number false
      else
        .restrict property quantifier (some (parseTokens (fillerTokens quantifier args))) number
          false
  | .other => .name (joinWords (stripOuter tokens))
termination_by tokens.length
decreasing_by
  · exact length_lt_of_shapeOf_stripOuter _h ‹_›
  · exact length_lt_of_shapeOf_stripOuter _h ‹_›
  · exact length_lt_of_shapeOf_stripOuter _h List.mem_cons_self
  · exact Nat.lt_of_le_of_lt (length_fillerTokens_le quantifier args)
      (length_lt_of_shapeOf_stripOuter _h List.mem_cons_self)

/-- Reads a class expression. -/
def parse (s : String) : Expression :=
  parseTokens (balance (tokens s))

/-- The token lists that reading a list of tokens goes on with: the parts of its shape, or the
filler of a restriction that has one. -/
def callsOf (tokens : List String) : List (List String) :=
  match shapeOf (stripOuter tokens) with
  | .restrict _ quantifier args =>
    let filler := fillerTokens quantifier args
    if isReflexive quantifier args || quantifier == .value || filler.isEmpty then [] else [filler]
  | shape => shape.parts

theorem length_lt_of_mem_callsOf {tokens part : List String} (h : part ∈ callsOf tokens) :
    part.length < tokens.length := by
  unfold callsOf at h
  split at h
  · rename_i quantifier args hs
    dsimp only at h
    split at h
    · cases h
    · rw [List.mem_singleton.1 h]
      exact Nat.lt_of_le_of_lt (length_fillerTokens_le quantifier args)
        (length_lt_of_shapeOf_stripOuter hs List.mem_cons_self)
  · exact Nat.lt_of_lt_of_le (length_lt_of_mem_shapeOf h) (length_stripOuter_le tokens)

/-- A list of tokens that is read, and the lists that are read for it. -/
inductive CallTree where
  | node (tokens : List String) (calls : List CallTree)

/-- The calls of reading a list of tokens. -/
def callTree (tokens : List String) : CallTree :=
  .node tokens ((callsOf tokens).attach.map fun ⟨part, _⟩ => callTree part)
termination_by tokens.length
decreasing_by exact length_lt_of_mem_callsOf ‹_›

end Ontogram.Expression
