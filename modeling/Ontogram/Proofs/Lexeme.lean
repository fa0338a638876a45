import Ontogram.Proofs.Ascii

set_option autoImplicit false

namespace Ontogram.Text

theorem quotedTail?_append_quote {body : List Char} (quote : '"' ∉ body) (slash : '\\' ∉ body)
    (rest : List Char) : quotedTail? (body ++ '"' :: rest) = some (body ++ ['"'], rest) := by
  induction body with
  | nil => rfl
  | cons c body ih =>
    have hq : c ≠ '"' := fun e => quote (e ▸ List.mem_cons_self)
    have hs : c ≠ '\\' := fun e => slash (e ▸ List.mem_cons_self)
    have tail := ih (fun m => quote (List.mem_cons_of_mem c m)) fun m =>
      slash (List.mem_cons_of_mem c m)
    rw [List.cons_append, quotedTail?]
    · rw [if_neg hq, tail]
      rfl
    · exact fun h _ => hs h
    · exact fun _ _ h _ => hs h

theorem quotedText?_append_quote {body : List Char} (quote : '"' ∉ body) (slash : '\\' ∉ body)
    (rest : List Char) :
    quotedText? ('"' :: (body ++ '"' :: rest)) = some ('"' :: (body ++ ['"']), rest) := by
  rw [quotedText?, quotedTail?_append_quote quote slash]
  rfl

theorem quotedText?_eq_none {c : Char} {cs : List Char} (h : c ≠ '"') :
    quotedText? (c :: cs) = none := by
  unfold quotedText?
  split
  · rename_i same
    exact absurd (List.cons.inj same).1 h
  · rfl

theorem bracketed?_eq_none {c : Char} {cs : List Char} (h : c ≠ '<') :
    bracketed? (c :: cs) = none := by
  unfold bracketed?
  split
  · rename_i same
    exact absurd (List.cons.inj same).1 h
  · rfl

/-- A text in angle brackets has neither blanks nor brackets inside. -/
theorem exists_name_of_bracketed? {cs text rest : List Char}
    (h : bracketed? cs = some (text, rest)) :
    ∃ name, text = '<' :: (name ++ ['>']) ∧ ∀ c ∈ name, isBracketChar c = true := by
  unfold bracketed? at h
  split at h
  · split at h
    · rename_i inside _ name back found
      obtain ⟨rfl, -⟩ := Prod.mk.inj (Option.some.inj h)
      have taken : name = inside.takeWhile isBracketChar := (congrArg Prod.fst found).symm
      exact ⟨name, rfl, fun c hc =>
        List.all_eq_true.1 List.all_takeWhile c (taken ▸ hc)⟩
    · cases h
  · cases h

theorem bracketed?_append {name : List Char} (chars : ∀ c ∈ name, isBracketChar c = true)
    (rest : List Char) :
    bracketed? ('<' :: (name ++ '>' :: rest)) = some ('<' :: (name ++ ['>']), rest) := by
  have stop : ∀ c ∈ ('>' :: rest).head?, isBracketChar c = false :=
    forall_head?_cons (by decide) rest
  have cut : span isBracketChar (name ++ '>' :: rest) = (name, '>' :: rest) :=
    span_append_of_all chars stop
  rw [bracketed?, cut]
  rfl

end Ontogram.Text
