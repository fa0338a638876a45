set_option autoImplicit false

namespace Ontogram.Text

/-- One character as it is written between double quotes. -/
def escapeChar (c : Char) : List Char :=
  if c = '\\' ∨ c = '"' then ['\\', c] else [c]

/-- A text as it is written between double quotes. -/
def escape (cs : List Char) : List Char :=
  cs.flatMap escapeChar

/-- Every double quote without the backslash in front of it. -/
def unescapeQuotes : List Char → List Char
  | '\\' :: '"' :: cs => '"' :: unescapeQuotes cs
  | c :: cs => c :: unescapeQuotes cs
  | [] => []

/-- One backslash for every two, from the left. -/
def unescapeBackslashes : List Char → List Char
  | '\\' :: '\\' :: cs => '\\' :: unescapeBackslashes cs
  | c :: cs => c :: unescapeBackslashes cs
  | [] => []

/-- The text up to its last double quote that is followed by a suffix which `suffix?` accepts,
and what that suffix says. -/
def closeQuote {α : Type} (suffix? : List Char → Option α) :
    List Char → Option (List Char × α)
  | [] => none
  | c :: cs =>
    match closeQuote suffix? cs with
    | some (value, a) => some (c :: value, a)
    | none => if c = '"' then (suffix? cs).map ([], ·) else none

/-- The text without one line feed at its end. -/
def dropFinalNewline (cs : List Char) : List Char :=
  if cs.getLast? = some '\n' then cs.dropLast else cs

theorem dropFinalNewline_eq_self {cs : List Char} (line : '\n' ∉ cs) : dropFinalNewline cs = cs :=
  if_neg fun last => line (List.mem_of_getLast? last)

theorem dropFinalNewline_concat {c : Char} (other : c ≠ '\n') (cs : List Char) :
    dropFinalNewline (cs ++ [c]) = cs ++ [c] := by
  refine if_neg fun last => other ?_
  simpa using last

theorem dropFinalNewline_cons {cs : List Char} (filled : cs ≠ []) (c : Char) :
    dropFinalNewline (c :: cs) = c :: dropFinalNewline cs := by
  rw [dropFinalNewline, dropFinalNewline, List.getLast?_cons_of_ne_nil filled]
  split
  · rw [List.dropLast_cons_of_ne_nil filled]
  · rfl

theorem mem_dropFinalNewline {cs : List Char} {c : Char} (mem : c ∈ cs) (other : c ≠ '\n') :
    c ∈ dropFinalNewline cs := by
  unfold dropFinalNewline
  split
  · rename_i last
    obtain ⟨front, rfl⟩ := List.getLast?_eq_some_iff.1 last
    simpa [other] using mem
  · exact mem

theorem closeQuote_eq_some {α : Type} {suffix? : List Char → Option α} {cs value : List Char}
    {a : α} (h : closeQuote suffix? cs = some (value, a)) :
    ∃ rest, cs = value ++ '"' :: rest ∧ suffix? rest = some a := by
  induction cs generalizing value with
  | nil => simp [closeQuote] at h
  | cons c cs ih =>
    unfold closeQuote at h
    split at h
    · rename_i v b hv
      simp only [Option.some.injEq, Prod.mk.injEq] at h
      obtain ⟨rfl, rfl⟩ := h
      obtain ⟨rest, rfl, hs⟩ := ih hv
      exact ⟨rest, rfl, hs⟩
    · split at h
      · rename_i hc
        obtain ⟨b, hb, he⟩ := Option.map_eq_some_iff.1 h
        simp only [Prod.mk.injEq] at he
        obtain ⟨rfl, rfl⟩ := he
        exact ⟨cs, by simp [hc], hb⟩
      · simp at h

end Ontogram.Text
