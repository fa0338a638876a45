import Ontogram.Proofs.QueryItem

set_option autoImplicit false

namespace Ontogram.Query

open Text

theorem stripComments_kept {cs kept rest : List Char}
    (h : (bracketed? cs).or (literal? cs) = some (kept, rest)) :
    stripComments cs = kept ++ stripComments rest := by
  cases cs with
  | nil => exact absurd h (by simp [bracketed?, literal?, marked?, quotedText?])
  | cons c cs =>
    rw [stripComments]
    split
    · rename_i same
      rw [h] at same
      obtain ⟨rfl, rfl⟩ := Prod.mk.inj (Option.some.inj same)
      rfl
    · rename_i same
      rw [h] at same
      contradiction

theorem stripComments_cons {c : Char} {cs : List Char}
    (h : (bracketed? (c :: cs)).or (literal? (c :: cs)) = none) :
    stripComments (c :: cs) =
      if c = '#' then stripComments (cs.dropWhile (· ≠ '\n')) else c :: stripComments cs := by
  rw [stripComments]
  split
  · rename_i same
    rw [h] at same
    contradiction
  · rfl

theorem stripComments_char {c : Char} {cs : List Char} (left : c ≠ '<') (quote : c ≠ '"')
    (hash : c ≠ '#') : stripComments (c :: cs) = c :: stripComments cs := by
  rw [stripComments_cons, if_neg hash]
  rw [bracketed?_eq_none left, literal?_eq_none quote]
  rfl

theorem stripComments_hash (cs : List Char) :
    stripComments ('#' :: cs) = stripComments (cs.dropWhile (· ≠ '\n')) := by
  rw [stripComments_cons, if_pos rfl]
  rw [bracketed?_eq_none (by decide), literal?_eq_none (by decide)]
  rfl

theorem stripComments_newline (cs : List Char) :
    stripComments ('\n' :: cs) = '\n' :: stripComments cs :=
  stripComments_char (by decide) (by decide) (by decide)

theorem stripComments_append {item : List Char}
    (plain : ∀ c ∈ item, c ≠ '<' ∧ c ≠ '"' ∧ c ≠ '#') (rest : List Char) :
    stripComments (item ++ rest) = item ++ stripComments rest := by
  induction item with
  | nil => rfl
  | cons c item ih =>
    obtain ⟨left, quote, hash⟩ := plain c List.mem_cons_self
    rw [List.cons_append, stripComments_char left quote hash,
      ih fun d hd => plain d (List.mem_cons_of_mem c hd)]
    rfl

theorem isSymbolChar_plain {c : Char} (h : isSymbolChar c = true) :
    c ≠ '<' ∧ c ≠ '"' ∧ c ≠ '#' :=
  ⟨ne_of_class h (by decide), ne_of_class h (by decide), ne_of_class h (by decide)⟩

/-- An item stays as it is. -/
theorem IsItem.stripComments_append {item rest : List Char} (h : IsItem item)
    (apart : item = ['\x7b'] ∨ item = ['\x7d'] ∨ Ends isStop rest) :
    stripComments (item ++ rest) = item ++ stripComments rest := by
  cases h with
  | symbols _ chars =>
    exact Query.stripComments_append (fun c hc => isSymbolChar_plain (chars c hc)) rest
  | bracket chars =>
    apply stripComments_kept
    rw [bracketed?_bracket chars, Option.some_or]
  | @literal text mark _ _ chars marked =>
    have ends : Ends isStop rest := ends_of_apart rfl (by decide) (by decide) apart
    apply stripComments_kept
    have found := literal?_append chars marked ends
    have unbracketed : bracketed? ('"' :: (text ++ '"' :: (mark ++ rest))) = none :=
      bracketed?_eq_none (by decide)
    simp [unbracketed, found]

theorem dropWhile_line {body : List Char} (line : '\n' ∉ body) (rest : List Char) :
    (body ++ '\n' :: rest).dropWhile (· ≠ '\n') = '\n' :: rest := by
  rw [List.dropWhile_append_of_pos]
  · simp
  · intro c hc
    have apart : c ≠ '\n' := by
      rintro rfl
      exact line hc
    simp [apart]

theorem Blank.cons {c : Char} {gap : List Char} (h : c = ' ' ∨ c = '\n') (rest : Blank gap) :
    Blank (c :: gap) := by
  intro d hd
  rcases List.mem_cons.1 hd with rfl | inside
  · exact h
  · exact rest d inside

theorem Gap.stripComments_append {gap : List Char} (h : Gap gap) :
    ∃ blanks, Blank blanks ∧
      ∀ rest, stripComments (gap ++ rest) = blanks ++ stripComments rest := by
  induction h with
  | nil => exact ⟨[], nofun, fun _ => rfl⟩
  | @blank c gap hc _ ih =>
    obtain ⟨blanks, blank, strips⟩ := ih
    refine ⟨c :: blanks, blank.cons hc, fun rest => ?_⟩
    have plain : c ≠ '<' ∧ c ≠ '"' ∧ c ≠ '#' := by
      rcases hc with rfl | rfl <;> decide
    rw [List.cons_append, stripComments_char plain.1 plain.2.1 plain.2.2, strips]
    rfl
  | @comment body gap line _ ih =>
    obtain ⟨blanks, blank, strips⟩ := ih
    refine ⟨'\n' :: blanks, blank.cons (Or.inr rfl), fun rest => ?_⟩
    have same : '#' :: (body ++ '\n' :: gap) ++ rest = '#' :: (body ++ '\n' :: (gap ++ rest)) := by
      simp
    rw [same, stripComments_hash, dropWhile_line line, stripComments_newline, strips]
    rfl

theorem LastGap.stripComments_eq {gap : List Char} (h : LastGap gap) :
    Blank (stripComments gap) := by
  have none : stripComments [] = [] := by rw [stripComments]
  cases h with
  | gap h =>
    obtain ⟨blanks, blank, strips⟩ := h.stripComments_append
    have whole := strips []
    rw [List.append_nil, none, List.append_nil] at whole
    rwa [whole]
  | @comment gap body h line =>
    obtain ⟨blanks, blank, strips⟩ := h.stripComments_append
    have last : body.dropWhile (· ≠ '\n') = [] := by
      rw [List.dropWhile_eq_nil_iff]
      intro c hc
      have apart : c ≠ '\n' := by
        rintro rfl
        exact line hc
      simp [apart]
    rwa [strips, stripComments_hash, last, none, List.append_nil]

theorem stripComments_of_isBreak {c : Char} {cs : List Char} (h : isBreak c = true) :
    stripComments (c :: cs) = c :: stripComments cs := by
  have left : c ≠ '<' := ne_of_class h (by decide)
  have quote : c ≠ '"' := ne_of_class h (by decide)
  have hash : c ≠ '#' := ne_of_class h (by decide)
  exact stripComments_char left quote hash

theorem stripComments_head {rest : List Char} (h : ∀ c ∈ rest.head?, isStop c = true) :
    ∀ c ∈ (stripComments rest).head?, isBreak c = true := by
  cases rest with
  | nil =>
    rw [stripComments]
    simp
  | cons c rest =>
    have stop := h c rfl
    simp only [isStop, Bool.or_eq_true, beq_iff_eq] at stop
    rcases stop with rfl | stop
    · rw [stripComments_hash]
      cases behind : rest.dropWhile (· ≠ '\n') with
      | nil =>
        rw [stripComments]
        simp
      | cons d more =>
        have nonempty : rest.dropWhile (· ≠ '\n') ≠ [] := by
          rw [behind]
          exact List.cons_ne_nil d more
        have newline := List.head_dropWhile_not (· ≠ '\n') nonempty
        simp only [behind, List.head_cons, decide_eq_false_iff_not, not_not] at newline
        subst newline
        rw [stripComments_newline]
        exact forall_head?_cons (by decide) (stripComments more)
    · rw [stripComments_of_isBreak stop]
      exact forall_head?_cons stop (stripComments rest)

theorem Ends.stripComments {rest : List Char} (h : Ends isStop rest) :
    Ends isBreak (stripComments rest) := by
  have dotted (more : List Char) (behind : ∀ c ∈ more.head?, isStop c = true) :
      Ends isBreak (Query.stripComments ('.' :: more)) := by
    rw [stripComments_char (by decide) (by decide) (by decide)]
    exact forall_head?_cons (Or.inr ⟨rfl, stripComments_head behind⟩) _
  rcases h.forms with rfl | ⟨c, cs, rfl, stopped⟩ | rfl | ⟨d, ds, rfl, stopped⟩
  · rw [Query.stripComments]
    exact .nil
  · intro d hd
    exact Or.inl (stripComments_head (forall_head?_cons stopped cs) d hd)
  · exact dotted [] (by simp)
  · exact dotted (d :: ds) (forall_head?_cons stopped ds)

/-- The text without its comments lays the same items out, with blank gaps. -/
theorem LaidOut.stripComments {items : List (List Char)} {cs : List Char}
    (h : LaidOut Gap LastGap isStop items cs) (each : ∀ item ∈ items, IsItem item) :
    LaidOut Blank Blank isBreak items (stripComments cs) := by
  induction h with
  | nil last => exact .nil last.stripComments_eq
  | @cons item gap rest items hg apart _ ih =>
    have others := ih fun other ho => each other (List.mem_cons_of_mem item ho)
    obtain ⟨blanks, blank, strips⟩ := hg.stripComments_append
    have kept := (each item List.mem_cons_self).stripComments_append apart
    rw [strips, kept]
    apply LaidOut.cons blank _ others
    rcases apart with brace | brace | ends
    · exact Or.inl brace
    · exact Or.inr (Or.inl brace)
    · exact Or.inr (Or.inr ends.stripComments)

end Ontogram.Query
