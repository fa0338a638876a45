import Ontogram.Text.Lexeme

set_option autoImplicit false

namespace Ontogram.Expression

open Text

def isWordChar (c : Char) : Bool :=
  !isBlank c && c != '(' && c != ')' && c != '"'

/-- A character of a datatype after a literal. -/
def isTypeChar (c : Char) : Bool :=
  !isBlank c && c != '(' && c != ')'

/-- The datatype after a literal, with its two carets. -/
def typeMark? : List Char → Option (List Char × List Char)
  | '^' :: '^' :: rest =>
    match span isTypeChar rest with
    | ([], _) => none
    | (datatype, rest) => some ('^' :: '^' :: datatype, rest)
  | _ => none

/-- A quoted literal with its tag or datatype. -/
def literal? : List Char → Option (List Char × List Char) :=
  marked? fun cs => (languageMark? cs).or (typeMark? cs)

/-- The token at the front of a text that starts with `c`, and what follows it. -/
def cut (c : Char) (cs : List Char) : List Char × List Char :=
  if c = '(' ∨ c = ')' then ([c], cs)
  else
    match (literal? (c :: cs)).or (bracketed? (c :: cs)) with
    | some found => found
    | none =>
      if c = '"' then ([c], cs)
      else
        let (word, rest) := span isWordChar cs
        (c :: word, rest)

theorem takes_typeMark : Takes typeMark? := by
  intro cs a b h
  unfold typeMark? at h
  split at h
  · rename_i rest
    split at h
    · simp at h
    · rename_i name r _ hs
      obtain ⟨rfl, rfl⟩ := Prod.mk.inj (Option.some.inj h)
      have := span_append isTypeChar rest
      rw [hs] at this
      simpa using this
  · simp at h

theorem takes_literal : Takes literal? :=
  takes_marked (takes_or takes_languageMark takes_typeMark)

theorem cut_append (c : Char) (cs : List Char) :
    (cut c cs).1 ++ (cut c cs).2 = c :: cs ∧ (cut c cs).1 ≠ [] := by
  unfold cut
  split
  · simp
  · split
    · rename_i found hf
      exact takes_or takes_literal takes_bracketed (c :: cs) found.1 found.2 hf
    · split
      · simp
      · simp [span]

/-- The tokens of a text without tabs. -/
def tokensOf : List Char → List (List Char) :=
  Cutter.tokens ⟨cut, cut_append⟩

theorem tokenizes : Tokenizes cut tokensOf :=
  Cutter.tokenizes ⟨cut, cut_append⟩

/-- The tokens of a text. Tabs are expanded first, also inside literals. -/
def tokens (s : String) : List String :=
  (tokensOf (expandTabs s.toList)).map String.ofList

end Ontogram.Expression
