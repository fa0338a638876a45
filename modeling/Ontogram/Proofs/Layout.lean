import Ontogram.Expression.Token
import Ontogram.Proofs.Grammar
import Ontogram.Proofs.Lexeme

set_option autoImplicit false

namespace Ontogram.Expression

open Text

/-- A token that the grammar uses. -/
inductive IsToken (t : String) : Prop where
  | paren (h : isParen t = true) : IsToken t
  | word (nonempty : t.toList ≠ []) (chars : ∀ c ∈ t.toList, isPlainChar c = true) : IsToken t
  | quoted (h : IsQuoted t) : IsToken t

theorem tokensOf_gap {gap : List Char} (blank : IsGap gap) (rest : List Char) :
    tokensOf (gap ++ rest) = tokensOf rest := by
  induction gap with
  | nil => rfl
  | cons c gap ih =>
    have hc : isBlank c = true := by
      rcases blank c List.mem_cons_self with rfl | rfl <;> decide
    rw [List.cons_append, tokenizes.blank c _ hc]
    exact ih fun d hd => blank d (List.mem_cons_of_mem c hd)

theorem isWordChar_of_isPlainChar {c : Char} (h : isPlainChar c = true) : isWordChar c = true := by
  have := toNat_of_isPlainChar h
  have blank : isBlank c = false := isBlank_eq_false (by omega) (by omega)
  have apart (d : Char) (hd : isPlainChar d = false) : c ≠ d := ne_of_class h hd
  simp [isWordChar, blank, apart '(' (by decide), apart ')' (by decide), apart '"' (by decide)]

theorem cut_paren {c : Char} (h : c = '(' ∨ c = ')') (rest : List Char) :
    cut c rest = ([c], rest) := by
  rw [cut, if_pos h]

/-- A word ends where a character of no word stands. -/
theorem cut_run {c : Char} {cs rest : List Char} (first : isWordChar c = true) (left : c ≠ '<')
    (others : ∀ d ∈ cs, isWordChar d = true) (stop : ∀ d ∈ rest.head?, isWordChar d = false) :
    cut c (cs ++ rest) = (c :: cs, rest) := by
  have apart (d : Char) (hd : isWordChar d = false) : c ≠ d := ne_of_class first hd
  have paren : ¬(c = '(' ∨ c = ')') := by
    simp [apart '(' (by decide), apart ')' (by decide)]
  have unquoted : literal? (c :: (cs ++ rest)) = none := by
    rw [literal?, marked?, quotedText?_eq_none (apart '"' (by decide))]
    rfl
  have unbracketed : bracketed? (c :: (cs ++ rest)) = none := bracketed?_eq_none left
  have word : span isWordChar (cs ++ rest) = (cs, rest) := span_append_of_all others stop
  rw [cut, if_neg paren, unquoted, unbracketed, Option.or_none]
  simp only [if_neg (apart '"' (by decide)), word]

theorem cut_word {c : Char} {cs rest : List Char} (first : isPlainChar c = true)
    (others : ∀ d ∈ cs, isPlainChar d = true) (ends : EndsWord rest) :
    cut c (cs ++ rest) = (c :: cs, rest) := by
  refine cut_run (isWordChar_of_isPlainChar first) (ne_of_class first (by decide))
    (fun d hd => isWordChar_of_isPlainChar (others d hd)) fun d hd => ?_
  rcases ends d hd with rfl | rfl | rfl | rfl | rfl <;> decide

/-- What does not start with a tag or a datatype. -/
def IsUnmarked (rest : List Char) : Prop :=
  ∀ c ∈ rest.head?, c ≠ '@' ∧ c ≠ '^'

theorem cut_quoted {body rest : List Char} (quote : '"' ∉ body) (slash : '\\' ∉ body)
    (unmarked : IsUnmarked rest) :
    cut '"' (body ++ '"' :: rest) = ('"' :: (body ++ ['"']), rest) := by
  have tagged : languageMark? rest = none := by
    unfold languageMark?
    split
    · exact absurd rfl (unmarked _ rfl).1
    · rfl
  have typed : typeMark? rest = none := by
    unfold typeMark?
    split
    · exact absurd rfl (unmarked _ rfl).2
    · rfl
  have text := quotedText?_append_quote quote slash rest
  have found : literal? ('"' :: (body ++ '"' :: rest)) = some ('"' :: (body ++ ['"']), rest) := by
    simp [literal?, marked?, text, tagged, typed]
  rw [cut, if_neg (by decide), found, Option.some_or]

/-- A token of the grammar is the first token of what starts with it. -/
theorem IsToken.tokensOf_append {t : String} (token : IsToken t) {rest : List Char}
    (apart : (∃ c ∈ t.toList.head?, isPlainChar c = true) → EndsWord rest)
    (unmarked : IsUnmarked rest) :
    tokensOf (t.toList ++ rest) = t.toList :: tokensOf rest := by
  cases token with
  | paren h =>
    simp only [isParen, Bool.or_eq_true, beq_iff_eq] at h
    rcases h with rfl | rfl
    · exact tokenizes.cons_of_cut (by decide) (cut_paren (Or.inl rfl) rest)
    · exact tokenizes.cons_of_cut (by decide) (cut_paren (Or.inr rfl) rest)
  | word nonempty chars =>
    obtain ⟨c, cs, hc⟩ := List.exists_cons_of_ne_nil nonempty
    rw [hc] at chars apart ⊢
    have first := chars c List.mem_cons_self
    have range := toNat_of_isPlainChar first
    have visible : isBlank c = false := isBlank_eq_false (by omega) (by omega)
    have others (d : Char) (hd : d ∈ cs) := chars d (List.mem_cons_of_mem c hd)
    exact tokenizes.cons_of_cut visible (cut_word first others (apart ⟨c, rfl, first⟩))
  | quoted h =>
    obtain ⟨body, hb, quote, slash, _⟩ := h
    have text : t.toList ++ rest = '"' :: (body ++ '"' :: rest) := by
      simp [hb]
    rw [text, hb]
    exact tokenizes.cons_of_cut (by decide) (cut_quoted quote slash unmarked)

theorem IsToken.unmarked {t : String} (token : IsToken t) :
    ∃ c cs, t.toList = c :: cs ∧ c ≠ '@' ∧ c ≠ '^' := by
  cases token with
  | paren h =>
    simp only [isParen, Bool.or_eq_true, beq_iff_eq] at h
    rcases h with rfl | rfl
    · exact ⟨'(', [], rfl, by decide, by decide⟩
    · exact ⟨')', [], rfl, by decide, by decide⟩
  | word nonempty chars =>
    obtain ⟨c, cs, hc⟩ := List.exists_cons_of_ne_nil nonempty
    have first := chars c (hc ▸ List.mem_cons_self)
    refine ⟨c, cs, hc, ?_, ?_⟩
    · rintro rfl
      exact absurd first (by decide)
    · rintro rfl
      exact absurd first (by decide)
  | quoted h =>
    obtain ⟨body, hb, _⟩ := h
    exact ⟨'"', _, hb, by decide, by decide⟩

theorem IsToken.tab_notMem {t : String} (token : IsToken t) : '\t' ∉ t.toList := by
  cases token with
  | paren h =>
    simp only [isParen, Bool.or_eq_true, beq_iff_eq] at h
    rcases h with rfl | rfl <;> decide
  | word _ chars => exact fun m => absurd (chars _ m) (by decide)
  | quoted h =>
    obtain ⟨body, hb, _, _, tab⟩ := h
    rw [hb]
    simp [tab]

theorem IsGap.tab_notMem {gap : List Char} (blank : IsGap gap) : '\t' ∉ gap := by
  intro m
  rcases blank _ m with h | h
  · exact absurd h (by decide)
  · exact absurd h (by decide)

theorem IsGap.unmarked {gap : List Char} (blank : IsGap gap) {rest : List Char}
    (h : IsUnmarked rest) : IsUnmarked (gap ++ rest) := by
  cases gap with
  | nil => exact h
  | cons c gap =>
    intro d hd
    obtain rfl : c = d := by simpa using hd
    rcases blank c List.mem_cons_self with rfl | rfl <;> decide

namespace LaidOut

variable {ts : List String} {cs : List Char}

theorem unmarked (h : LaidOut ts cs) (tokens : ∀ t ∈ ts, IsToken t) : IsUnmarked cs := by
  cases h with
  | nil blank =>
    have none : IsUnmarked [] := nofun
    simpa using blank.unmarked none
  | cons blank _ _ =>
    apply blank.unmarked
    obtain ⟨c, cs, hc, at', caret⟩ := (tokens _ List.mem_cons_self).unmarked
    intro d hd
    obtain rfl : c = d := by simpa [hc] using hd
    exact ⟨at', caret⟩

/-- A layout of tokens has these tokens. -/
theorem tokensOf_eq (h : LaidOut ts cs) (tokens : ∀ t ∈ ts, IsToken t) :
    tokensOf cs = ts.map String.toList := by
  induction h with
  | nil blank =>
    have none := tokensOf_gap blank []
    rw [List.append_nil] at none
    rw [none, tokenizes.nil]
    rfl
  | cons blank apart others ih =>
    have rest := ih fun u hu => tokens u (List.mem_cons_of_mem _ hu)
    have unmarked := others.unmarked fun u hu => tokens u (List.mem_cons_of_mem _ hu)
    rw [tokensOf_gap blank, (tokens _ List.mem_cons_self).tokensOf_append apart unmarked, rest]
    rfl

theorem tab_notMem (h : LaidOut ts cs) (tokens : ∀ t ∈ ts, IsToken t) : '\t' ∉ cs := by
  induction h with
  | nil blank => exact blank.tab_notMem
  | @cons t _ _ _ blank _ _ ih =>
    have token := (tokens t List.mem_cons_self).tab_notMem
    have rest := ih fun u hu => tokens u (List.mem_cons_of_mem _ hu)
    simp only [List.mem_append, not_or]
    exact ⟨blank.tab_notMem, token, rest⟩

end LaidOut

/-- A text that lays tokens out has exactly these tokens. -/
theorem tokens_eq {s : String} {ts : List String} (h : LaidOut ts s.toList)
    (each : ∀ t ∈ ts, IsToken t) : tokens s = ts := by
  rw [tokens, expandTabs_eq_self (h.tab_notMem each), h.tokensOf_eq each, List.map_map]
  have same : String.ofList ∘ String.toList = id := funext fun _ => String.ofList_toList
  rw [same, List.map_id]

end Ontogram.Expression
