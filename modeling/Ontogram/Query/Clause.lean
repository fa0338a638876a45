import Ontogram.Query
import Ontogram.Query.Token
import Ontogram.Text.Basic
import Ontogram.Text.Lexeme

/-!
The clauses of a query: prefix declarations, the choice of variables, the pattern block in braces
and the limit. Each is looked for in the text, and what stands between the clauses is passed over.
Keywords count in any case, where no name character touches them.

Comments are taken out first; a hash sign inside an IRI or a quoted literal starts none.
-/

set_option autoImplicit false

namespace Ontogram.Query

open Text

def stripComments : List Char → List Char
  | [] => []
  | c :: cs =>
    match _h : (bracketed? (c :: cs)).or (literal? (c :: cs)) with
    | some (kept, rest) => kept ++ stripComments rest
    | none =>
      if c = '#' then stripComments (cs.dropWhile (· ≠ '\n')) else c :: stripComments cs
termination_by cs => cs.length
decreasing_by
  · obtain ⟨happ, hne⟩ := takes_or takes_bracketed takes_literal _ _ _ _h
    have h := congrArg List.length happ
    have := List.length_pos_iff.2 hne
    rw [List.length_append] at h
    omega
  · have := (List.dropWhile_suffix (· ≠ '\n') (l := cs)).length_le
    simp only [List.length_cons]
    omega
  · simp

/-- White space between the parts of a clause. -/
def isGap (c : Char) : Bool :=
  c == ' ' || c == '\t' || c == '\n' || c == '\r'

/-- The text from the next part of a clause on. -/
def skipGap (cs : List Char) : List Char :=
  cs.dropWhile isGap

def touchesKeyword (c : Char) : Bool :=
  let u := upperChar c
  u.isUpper || u.isDigit || u == '_' || u == '$'

/-- What follows a keyword in upper case at the front of a text. -/
def keyword? (word : String) (before : Option Char) (cs : List Char) : Option (List Char) :=
  let rest := cs.drop word.length
  if !before.any touchesKeyword && (cs.take word.length).map upperChar == word.toList &&
      !rest.head?.any touchesKeyword then some rest
  else none

/-- The first place in a text where a clause can be read, what it says, and what follows it. The
reader is told the character in front of the place. -/
def find? {α : Type} (reader : Option Char → List Char → Option (α × List Char))
    (before : Option Char) : List Char → Option (α × List Char)
  | [] => none
  | c :: cs => (reader before (c :: cs)).or (find? reader (some c) cs)

def isDeclaredChar (c : Char) : Bool :=
  c.isAlphanum || c == '_' || c == '-'

def prefixClause? (before : Option Char) (cs : List Char) :
    Option ((String × String) × List Char) := do
  let rest ← keyword? "PREFIX" before cs
  let (name, rest) := span isDeclaredChar (skipGap rest)
  match rest with
  | ':' :: rest =>
    let (iri, rest) ← bracketed? (skipGap rest)
    return ((String.ofList name, String.ofList iri.tail.dropLast), rest)
  | _ => none

theorem length_find?_lt {α : Type} {reader : Option Char → List Char → Option (α × List Char)}
    (hr : ∀ before cs a rest, reader before cs = some (a, rest) → rest.length < cs.length)
    {before : Option Char} {cs rest : List Char} {a : α}
    (h : find? reader before cs = some (a, rest)) : rest.length < cs.length := by
  induction cs generalizing before with
  | nil => simp [find?] at h
  | cons c cs ih =>
    unfold find? at h
    rcases Option.or_eq_some_iff.1 h with h | ⟨_, h⟩
    · exact hr _ _ _ _ h
    · exact Nat.lt_succ_of_lt (ih h)

theorem length_skipGap_le (cs : List Char) : (skipGap cs).length ≤ cs.length :=
  (List.dropWhile_suffix _).length_le

theorem length_keyword?_le {word : String} {before : Option Char} {cs rest : List Char}
    (h : keyword? word before cs = some rest) : rest.length ≤ cs.length := by
  unfold keyword? at h
  simp only at h
  split at h
  · obtain rfl := Option.some.inj h
    simp
  · simp at h

theorem length_prefixClause?_lt (before : Option Char) (cs : List Char) (a : String × String)
    (rest : List Char) (h : prefixClause? before cs = some (a, rest)) :
    rest.length < cs.length := by
  unfold prefixClause? at h
  simp only [Option.bind_eq_bind, Option.bind_eq_some_iff] at h
  obtain ⟨afterWord, hk, h⟩ := h
  have hk := length_keyword?_le hk
  have hg := length_skipGap_le afterWord
  have hs := congrArg List.length (span_append isDeclaredChar (skipGap afterWord))
  rw [List.length_append] at hs
  split at h
  · rename_i afterColon hc
    obtain ⟨⟨iri, after⟩, hb, h⟩ := Option.bind_eq_some_iff.1 h
    obtain ⟨_, rfl⟩ := Prod.mk.inj (Option.some.inj h)
    have hb := congrArg List.length (takes_bracketed _ _ _ hb).1
    have hg' := length_skipGap_le afterColon
    rw [List.length_append] at hb
    rw [hc, List.length_cons] at hs
    change after.length < cs.length
    omega
  · simp at h

/-- The prefix declarations of a text, one after the other. -/
def prefixClauses (cs : List Char) : List (String × String) :=
  match _h : find? prefixClause? none cs with
  | some (declared, rest) => declared :: prefixClauses rest
  | none => []
termination_by cs.length
decreasing_by exact length_find?_lt length_prefixClause?_lt _h

/-- Variables at the front of a text, and what follows them. -/
def variableNames (cs : List Char) : List String × List Char :=
  match _h : variableToken? (skipGap cs) with
  | some (name, rest) =>
    let (names, rest) := variableNames rest
    (String.ofList name.tail :: names, rest)
  | none => ([], cs)
termination_by cs.length
decreasing_by
  obtain ⟨happ, hne⟩ := takes_variableToken _ _ _ _h
  have h := congrArg List.length happ
  have := List.length_pos_iff.2 hne
  have := length_skipGap_le cs
  rw [List.length_append] at h
  omega

/-- Which variables a query asks for, all when none, and whether equal rows count once. -/
structure Choice where
  distinct : Bool
  projection : List String

/-- The choice of variables. -/
def selectClause? (before : Option Char) (cs : List Char) : Option (Choice × List Char) := do
  let rest ← keyword? "SELECT" before cs
  let rest := skipGap rest
  let (distinct, rest) :=
    match keyword? "DISTINCT" none rest with
    | some rest => (true, skipGap rest)
    | none => (false, rest)
  match rest with
  | '*' :: rest => return (⟨distinct, []⟩, rest)
  | _ =>
    let (names, rest) := variableNames rest
    if names.isEmpty then none else return (⟨distinct, names⟩, rest)

def limitDigits? (before : Option Char) (cs : List Char) : Option (List Char × List Char) := do
  let rest ← keyword? "LIMIT" before cs
  let (digits, rest) := span isAsciiDigit (skipGap rest)
  if digits.isEmpty then none else return (digits, rest)

def limitClause? (before : Option Char) (cs : List Char) : Option (Nat × List Char) :=
  (limitDigits? before cs).map fun found => (asciiNumber found.1, found.2)

/-- The characters of a quoted text up to its closing quote `q`: a doubled quote stands for itself,
a backslash takes a character along (and an `x` only with a hexadecimal digit), and a line ends
the text. -/
def quoteRun (q : Char) : List Char → List Char
  | [] => []
  | ['\\'] => ['\\']
  | '\\' :: c :: rest =>
    if c = 'x' then
      match rest with
      | d :: rest => if d.isDigit || ('a' ≤ d && d ≤ 'f') || ('A' ≤ d && d ≤ 'F') then
          quoteRun q rest else '\\' :: c :: d :: rest
      | [] => ['\\', c]
    else quoteRun q rest
  | [c] => if c = q ∨ c = '\n' ∨ c = '\r' then [c] else []
  | c :: d :: rest =>
    if c = q then if d = q then quoteRun q rest else c :: d :: rest
    else if c = '\n' ∨ c = '\r' then c :: d :: rest
    else quoteRun q (d :: rest)

/-- What follows a quoted text in single or double quotes. -/
def quotedRest? : List Char → Option (List Char)
  | c :: cs =>
    if c = '"' ∨ c = '\x27' then
      match quoteRun c cs with
      | d :: rest => if d = c then some rest else none
      | [] => none
    else none
  | [] => none

theorem length_quoteRun_le (q : Char) (cs : List Char) :
    (quoteRun q cs).length ≤ cs.length := by
  fun_induction quoteRun q cs <;> simp_all <;> omega

theorem length_quotedRest?_lt {cs rest : List Char} (h : quotedRest? cs = some rest) :
    rest.length < cs.length := by
  unfold quotedRest? at h
  split at h
  · rename_i c cs
    split at h
    · have hrun := length_quoteRun_le c cs
      split at h
      · rename_i d more hd
        split at h
        · obtain rfl := Option.some.inj h
          rw [hd] at hrun
          simp only [List.length_cons] at hrun ⊢
          omega
        · simp at h
      · simp at h
    · simp at h
  · simp at h

/-- What follows the brace that closes `depth` open ones; braces in quoted texts do not count. -/
def closeBraces (depth : Nat) : List Char → Option (List Char)
  | [] => none
  | c :: cs =>
    match _h : quotedRest? (c :: cs) with
    | some rest => closeBraces depth rest
    | none =>
      if c = '\x7b' then closeBraces (depth + 1) cs
      else if c = '\x7d' then
        if depth ≤ 1 then some cs else closeBraces (depth - 1) cs
      else closeBraces depth cs
termination_by cs => cs.length
decreasing_by
  · exact length_quotedRest?_lt _h
  · simp
  · simp
  · simp

/-- The text between two braces that are partners. -/
def blockClause? (_before : Option Char) (cs : List Char) : Option (List Char × List Char) :=
  match cs with
  | '\x7b' :: cs =>
    (closeBraces 1 cs).map fun rest => (cs.take (cs.length - rest.length - 1), rest)
  | _ => none

end Ontogram.Query
