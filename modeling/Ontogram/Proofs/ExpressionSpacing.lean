import Ontogram.Proofs.Identifier
import Ontogram.Proofs.Layout
import Ontogram.Proofs.TabStops

set_option autoImplicit false

namespace Ontogram.Expression

open Text
open Query (Spaced narrow wide narrow_cons wide_cons_of_ne wide_nil EndsAt EndsAtSpacing
  SameCut CutsAlike)

theorem typeMark?_stop {c : Char} (caret : c ≠ '^') (stop : isTypeChar c = false) :
    EndsAt c typeMark? := by
  intro front rest
  rcases front with _ | ⟨d, _ | ⟨e, front⟩⟩
  · simp [typeMark?, caret]
  · by_cases hd : d = '^' <;> simp [typeMark?, hd, caret]
  · by_cases carets : d = '^' ∧ e = '^'
    · obtain ⟨rfl, rfl⟩ := carets
      simp only [List.cons_append, typeMark?, Query.span_stop stop]
      cases taken : span isTypeChar front with
      | mk datatype back => cases datatype <;> rfl
    · have none (cs : List Char) : typeMark? (d :: e :: cs) = none := by
        unfold typeMark?
        split
        · rename_i same
          obtain ⟨first, same⟩ := List.cons.inj same
          exact absurd ⟨first, (List.cons.inj same).1⟩ carets
        · rfl
      rw [List.cons_append, List.cons_append, none, none]
      rfl

theorem endsAtSpacing_typeMark : EndsAtSpacing typeMark? := fun front _ rest h =>
  typeMark?_stop (Query.ne_of_isSpacing (by decide) h)
    (Query.eq_false_of_isSpacing (by decide) h) front rest

theorem sameCut_literal (ms : Spaced) :
    SameCut narrow wide ms (literal? (narrow ms)) (literal? (wide ms)) :=
  Query.sameCut_marked (Query.endsAtSpacing_languageMark.or endsAtSpacing_typeMark)
    (takes_or takes_languageMark takes_typeMark) ms

/-- A token is cut from a text and from its widening at the same place. -/
theorem exists_cut {c : Char} (visible : isBlank c = false) (n : Nat) (ms : Spaced) :
    ∃ token rest, rest <:+ (c, n) :: ms ∧ cut c (narrow ms) = (narrow token, narrow rest) ∧
      cut c (wide ms) = (wide token, wide rest) := by
  have tab : c ≠ '\t' := by
    rintro rfl
    exact absurd visible (by decide)
  have single : ∃ token, narrow token = [c] ∧ wide token = [c] :=
    ⟨[(c, n)], rfl, by rw [wide_cons_of_ne tab, wide_nil]⟩
  obtain ⟨token, here, there⟩ := single
  unfold cut
  split
  · exact ⟨token, ms, List.suffix_cons _ _, by rw [here], by rw [there]⟩
  obtain ⟨found, lexeme, lexeme', inside⟩ := (sameCut_literal ((c, n) :: ms)).or
    (Query.sameCut_of_endsAtSpacing Query.endsAtSpacing_bracketed takes_bracketed ((c, n) :: ms))
  rw [narrow_cons] at lexeme
  rw [wide_cons_of_ne tab] at lexeme'
  rw [lexeme, lexeme']
  cases found with
  | some p => exact ⟨p.1, p.2, inside p rfl, rfl, rfl⟩
  | none =>
    simp only [Option.map_none]
    split
    · exact ⟨token, ms, List.suffix_cons _ _, by rw [here], by rw [there]⟩
    · have word : EndsAtSpacing fun cs => some (span isWordChar cs) :=
        fun front d rest h => congrArg some (Query.span_spacing (by decide) h front rest)
      obtain ⟨run, rest, suffix, taken, taken'⟩ := word.exists_taken (span_append isWordChar) ms
      refine ⟨(c, n) :: Query.kept run, rest, suffix.trans (List.suffix_cons _ _), ?_, ?_⟩
      · rw [taken, narrow_cons, Query.narrow_kept]
      · rw [taken', wide_cons_of_ne tab, Query.wide_kept]

/-- Tab stops change no token that holds no tab. -/
theorem tokens_eq_tokensOf {s : String} (clean : ∀ token ∈ tokensOf s.toList, '\t' ∉ token) :
    tokens s = (tokensOf s.toList).map String.ofList := by
  have same := Query.narrow_stopsFrom 0 s.toList
  have alike : CutsAlike cut := fun _ n ms h => exists_cut h n ms
  rw [tokens, expandTabs, ← Query.wide_stopsFrom, alike.tokensOf_wide tokenizes (by rwa [same]),
    same]

/-! Blanks at the end. -/

section Concat

variable {b : Char} (blank : isBlank b = true)
include blank

theorem ne_of_isBlank {d : Char} (hd : isBlank d = false) : b ≠ d :=
  ne_of_class blank hd

theorem isTagChar_of_isBlank : (b.isAlphanum || b == '-') = false := by
  refine Bool.eq_false_iff.2 fun tag => ?_
  rcases Bool.or_eq_true_iff.1 tag with plain | hyphen
  · have range := toNat_of_isPlainChar (c := b) (by simp [isPlainChar, plain])
    rw [isBlank_eq_false (by omega) (by omega)] at blank
    cases blank
  · exact ne_of_isBlank blank (d := '-') (by decide) (eq_of_beq hyphen)

/-- A blank behind a text closes no quotes. -/
theorem quotedTail?_concat (cs : List Char) :
    quotedTail? (cs ++ [b]) = (quotedTail? cs).map fun found => (found.1, found.2 ++ [b]) := by
  have plain : b ≠ '"' ∧ b ≠ '\\' :=
    ⟨ne_of_isBlank blank (by decide), ne_of_isBlank blank (by decide)⟩
  fun_induction quotedTail? cs with
  | case1 => exact Query.quotedTail?_append_plain [b] (by simpa using plain) []
  | case2 => simp [quotedTail?]
  | case3 => simp [quotedTail?]
  | case4 d rest line ih => simp [quotedTail?, line, ih, Function.comp_def]
  | case5 rest => simp [quotedTail?]
  | case6 c rest single pair other ih =>
    have slash : c ≠ '\\' := by
      rintro rfl
      cases rest with
      | nil => exact single rfl rfl
      | cons d rest => exact pair d rest rfl rfl
    have front := Query.quotedTail?_append_plain [c] (by simp [other, slash]) (rest ++ [b])
    rw [List.cons_append, ← List.singleton_append, front, ih]
    simp [Function.comp_def]

theorem quotedText?_concat (cs : List Char) :
    quotedText? (cs ++ [b]) = (quotedText? cs).map fun found => (found.1, found.2 ++ [b]) := by
  cases cs with
  | nil =>
    rw [List.nil_append, quotedText?_eq_none (ne_of_isBlank blank (by decide))]
    rfl
  | cons c cs =>
    by_cases quote : c = '"'
    · subst quote
      simp [quotedText?, quotedTail?_concat blank, Function.comp_def]
    · rw [List.cons_append, quotedText?_eq_none quote, quotedText?_eq_none quote]
      rfl

theorem literal?_concat (cs : List Char) :
    literal? (cs ++ [b]) = (literal? cs).map fun found => (found.1, found.2 ++ [b]) := by
  have marks := (Query.languageMark?_stop (ne_of_isBlank blank (by decide))
    (isTagChar_of_isBlank blank)).or
    (typeMark?_stop (ne_of_isBlank blank (by decide)) (by simp [isTypeChar, blank]))
  rw [literal?, marked?, marked?, quotedText?_concat blank]
  cases quotedText? cs with
  | none => rfl
  | some found =>
    have mark := marks found.2 []
    simp only [Option.map_some, Option.bind_eq_bind, Option.bind_some, mark]
    cases (languageMark? found.2).or (typeMark? found.2) <;> rfl

theorem cut_concat (c : Char) (cs : List Char) :
    cut c (cs ++ [b]) = ((cut c cs).1, (cut c cs).2 ++ [b]) := by
  have bracket := Query.bracketed?_stop (ne_of_isBlank blank (by decide))
    (ne_of_isBlank blank (by decide)) (by simp [isBracketChar, blank]) (c :: cs) []
  have quoted := literal?_concat blank (c :: cs)
  rw [List.cons_append] at bracket quoted
  unfold cut
  split
  · rfl
  rw [quoted, bracket]
  cases (literal? (c :: cs)) with
  | some found => rfl
  | none =>
    cases bracketed? (c :: cs) with
    | some found => rfl
    | none =>
      simp only [Option.map_none, Option.none_or]
      split
      · rfl
      · rw [Query.span_stop (by simp [isWordChar, blank])]

theorem tokensOf_concat (cs : List Char) : tokensOf (cs ++ [b]) = tokensOf cs := by
  induction length : cs.length using Nat.strong_induction_on generalizing cs with
  | _ k ih =>
  subst length
  cases cs with
  | nil => rw [List.nil_append, tokenizes.blank b [] blank]
  | cons c cs =>
    cases visible : isBlank c with
    | true =>
      rw [List.cons_append, tokenizes.blank c _ visible, tokenizes.blank c _ visible]
      exact ih cs.length (by simp) cs rfl
    | false =>
      rw [List.cons_append, tokenizes.visible c _ visible, tokenizes.visible c _ visible,
        cut_concat blank, ih _ (tokenizes.shorter c cs) _ rfl]

end Concat

/-- Blanks at the ends of a text belong to no token. -/
theorem tokensOf_stripBoth (cs : List Char) : tokensOf (stripBoth isBlank cs) = tokensOf cs := by
  have right (cs : List Char) : tokensOf (stripRight isBlank cs) = tokensOf cs := by
    induction cs using List.reverseRecOn with
    | nil => rfl
    | append_singleton cs b ih =>
      cases blank : isBlank b with
      | true =>
        rw [tokensOf_concat blank, ← ih, stripRight, stripRight, List.reverse_concat,
          List.dropWhile_cons_of_pos blank]
      | false =>
        rw [stripRight, List.reverse_concat, List.dropWhile_cons_of_neg (by simp [blank]),
          ← List.reverse_concat, List.reverse_reverse]
  have blanks (c : Char) (hc : c ∈ cs.takeWhile isBlank) : isBlank c = true :=
    List.mem_takeWhile_imp hc
  have left := tokenizes.blanks blanks (cs.dropWhile isBlank)
  rw [List.takeWhile_append_dropWhile] at left
  rw [stripBoth, right, stripLeft, left]

/-! Words in front. -/

theorem tokensOf_word {c : Char} {cs rest : List Char} (first : isWordChar c = true)
    (left : c ≠ '<') (others : ∀ d ∈ cs, isWordChar d = true)
    (blank : ∀ d ∈ rest.head?, isBlank d = true) :
    tokensOf (c :: cs ++ rest) = (c :: cs) :: tokensOf rest := by
  have visible : isBlank c = false := by
    simp only [isWordChar, Bool.and_eq_true, Bool.not_eq_true'] at first
    exact first.1.1.1
  exact tokenizes.cons_of_cut visible (cut_run first left others fun d hd => by
    simp [isWordChar, blank d hd])

theorem isWordChar_of_isWord {c : Char} (h : isWord c = true) : isWordChar c = true := by
  have apart (d : Char) (hd : isWord d = false) : c ≠ d := ne_of_class h hd
  simp [isWordChar, isBlank_eq_false_of_isWord h, apart '(' (by decide), apart ')' (by decide),
    apart '"' (by decide)]

theorem tokensOf_identifier {name : String} (named : IsIdentifier name) {rest : List Char}
    (blank : ∀ c ∈ rest.head?, isBlank c = true) :
    tokensOf (name.toList ++ rest) = name.toList :: tokensOf rest := by
  obtain ⟨c, cs, shape, -, first⟩ := named.exists_cons
  have others (d : Char) (hd : d ∈ cs) : isWordChar d = true :=
    isWordChar_of_isWord (named.chars d (shape ▸ List.mem_cons_of_mem c hd))
  rw [shape]
  exact tokensOf_word (isWordChar_of_isWord first) (ne_of_class first (by decide)) others blank

theorem tokensOf_behind {name : String} (named : IsIdentifier name) (s : String) :
    tokensOf (name ++ " " ++ s).toList = name.toList :: tokensOf s.toList := by
  have text : (name ++ " " ++ s).toList = name.toList ++ ' ' :: s.toList := by simp
  rw [text, tokensOf_identifier named (by simp [isBlank_space]),
    tokenizes.blank ' ' _ isBlank_space]

/-- Behind an identifier come the tokens of the text itself. -/
theorem tokens_behind {name s : String} (named : IsIdentifier name)
    (clean : ∀ token ∈ tokensOf s.toList, '\t' ∉ token) :
    tokens (name ++ " " ++ s) = name :: tokens s := by
  have tabless : ∀ token ∈ tokensOf (name ++ " " ++ s).toList, '\t' ∉ token := by
    rw [tokensOf_behind named]
    exact List.forall_mem_cons.2 ⟨named.notMem (by decide), clean⟩
  rw [tokens_eq_tokensOf tabless, tokens_eq_tokensOf clean, tokensOf_behind named, List.map_cons,
    String.ofList_toList]

/-- Behind an identifier and `some` come the tokens of the text itself. -/
theorem tokens_some {name s : String} (named : IsIdentifier name)
    (clean : ∀ token ∈ tokensOf s.toList, '\t' ∉ token) :
    tokens (name ++ " some " ++ strip s) = name :: "some" :: tokens s := by
  have keyword : IsIdentifier "some" := ⟨⟨'s', rfl, by decide⟩, List.all_eq_true.1 rfl⟩
  have text : name ++ " some " ++ strip s = name ++ " " ++ ("some" ++ " " ++ strip s) := by
    simp [String.ext_iff]
  have inner : tokensOf (strip s).toList = tokensOf s.toList := by
    rw [strip, String.toList_ofList, tokensOf_stripBoth]
  have stripped : ∀ token ∈ tokensOf (strip s).toList, '\t' ∉ token := by
    rw [inner]
    exact clean
  have same : tokens (strip s) = tokens s := by
    rw [tokens_eq_tokensOf stripped, tokens_eq_tokensOf clean, inner]
  have behind : ∀ token ∈ tokensOf ("some" ++ " " ++ strip s).toList, '\t' ∉ token := by
    rw [tokensOf_behind keyword, inner]
    exact List.forall_mem_cons.2 ⟨by decide, clean⟩
  rw [text, tokens_behind named behind, tokens_behind keyword stripped, same]

end Ontogram.Expression
