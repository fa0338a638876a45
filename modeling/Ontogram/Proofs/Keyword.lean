import Mathlib
import Ontogram.Proofs.Balanced
import Ontogram.Proofs.Layout

set_option autoImplicit false

namespace Ontogram.Expression

theorem lowerOf_eq_map {cs : List Char} (h : ∀ c ∈ cs, c ≠ '\u0130' ∧ c ≠ '\u212a') :
    Text.lowerOf cs = cs.map Char.toLower := by
  induction cs with
  | nil => rfl
  | cons c cs ih =>
    obtain ⟨dotted, kelvin⟩ := h c List.mem_cons_self
    have tail := ih fun d hd => h d (List.mem_cons_of_mem c hd)
    have head : Text.lowerChar c = [c.toLower] := by
      rw [Text.lowerChar, if_neg dotted, if_neg kelvin]
    rw [Text.lowerOf, List.flatMap_cons, head, List.map_cons]
    exact congrArg _ tail

theorem Spells.lower_eq {t word : String} (h : Spells t word)
    (plain : ∀ c ∈ word.toList, c ≠ '\u0130' ∧ c ≠ '\u212a') : Text.lower t = word := by
  have folded : Text.lowerOf t.toList = t.toList.map Char.toLower := by
    apply lowerOf_eq_map
    intro c hc
    have image : c.toLower ∈ word.toList := by
      rw [← h]
      exact List.mem_map_of_mem hc
    obtain ⟨dotted, kelvin⟩ := plain _ image
    constructor
    · rintro rfl
      exact dotted (by decide)
    · rintro rfl
      exact kelvin (by decide)
  rw [Text.lower, folded, h, String.ofList_toList]

theorem IsName.lower_ne {token : String} (h : IsName token) {word : String}
    (hw : word ∈ keywords) : Text.lower token ≠ word := by
  intro same
  apply h.free word hw
  have folded : Text.lowerOf token.toList = token.toList.map Char.toLower := by
    apply lowerOf_eq_map
    intro c hc
    have ascii := h.chars c hc
    constructor
    · rintro rfl
      exact absurd ascii (by decide)
    · rintro rfl
      exact absurd ascii (by decide)
  rw [Spells, ← folded, ← same, Text.lower, String.toList_ofList]

theorem Spells.plain {t word : String} (h : Spells t word) (plain : isParen word = false) :
    isParen t = false := by
  obtain ⟨left, right⟩ := ne_of_plain plain
  have apart (paren : String) (fixed : paren.toList.map Char.toLower = paren.toList)
      (other : word ≠ paren) : t ≠ paren := by
    rintro rfl
    apply other
    apply String.toList_inj.1
    rw [← h, fixed]
  have lt := apart "(" (by decide) left
  have rt := apart ")" (by decide) right
  exact plain_of_ne lt rt

theorem isParen_eq_false {t : String} (h : '(' ∉ t.toList ∧ ')' ∉ t.toList) :
    isParen t = false := by
  have lt : t ≠ "(" := by
    rintro rfl
    simp at h
  have rt : t ≠ ")" := by
    rintro rfl
    simp at h
  exact plain_of_ne lt rt

theorem IsName.plain {token : String} (h : IsName token) : isParen token = false := by
  apply isParen_eq_false
  constructor
  · intro hm
    exact absurd (h.chars _ hm) (by decide)
  · intro hm
    exact absurd (h.chars _ hm) (by decide)

theorem IsNumber.plain {n : Nat} {token : String} (h : IsNumber n token) :
    isParen token = false := by
  apply isParen_eq_false
  constructor
  · intro hm
    exact absurd (h.digits _ hm) (by decide)
  · intro hm
    exact absurd (h.digits _ hm) (by decide)

theorem IsQuoted.plain {token : String} (h : IsQuoted token) : isParen token = false := by
  obtain ⟨body, hb, _⟩ := h
  have lt : token ≠ "(" := by
    rintro rfl
    simp at hb
  have rt : token ≠ ")" := by
    rintro rfl
    simp at hb
  exact plain_of_ne lt rt

/-- The keywords as the reader knows them: in lower case and apart from each other. -/
theorem Spells.keyword {t word : String} (h : Spells t word) (hw : word ∈ keywords) :
    isParen t = false ∧ Text.lower t = word := by
  have ascii : (keywords.all fun w => !isParen w &&
      w.toList.all fun c => c != '\u0130' && c != '\u212a') = true := by
    decide
  have known := List.all_eq_true.1 ascii word hw
  simp only [Bool.and_eq_true, Bool.not_eq_true', List.all_eq_true, bne_iff_ne] at known
  exact ⟨h.plain known.1, h.lower_eq known.2⟩

/-- A token that starts with no letter is no keyword. -/
theorem lower_ne_keyword {t word : String} {c : Char} {cs : List Char} (h : t.toList = c :: cs)
    (hc : c.isAlpha = false) (dotted : c ≠ '\u0130') (kelvin : c ≠ '\u212a')
    (hw : word ∈ keywords) : Text.lower t ≠ word := by
  rintro rfl
  have letters : (keywords.all fun w => w.toList.head?.all Char.isAlpha) = true := by
    decide
  have head : (Text.lower t).toList.head? = some c.toLower := by
    rw [Text.lower, String.toList_ofList, h, Text.lowerOf, List.flatMap_cons, Text.lowerChar,
      if_neg dotted, if_neg kelvin]
    rfl
  have letter := List.all_eq_true.1 letters _ hw
  rw [head, Option.all_some, Char.isAlpha_toLower_eq_isAlpha, hc] at letter
  exact Bool.false_ne_true letter

theorem IsQuoted.lower_ne {token word : String} (h : IsQuoted token) (hw : word ∈ keywords) :
    Text.lower token ≠ word := by
  obtain ⟨body, hb, _⟩ := h
  exact lower_ne_keyword hb (by decide) (by decide) (by decide) hw

theorem IsNumber.lower_ne {n : Nat} {token word : String} (h : IsNumber n token)
    (hw : word ∈ keywords) : Text.lower token ≠ word := by
  obtain ⟨c, cs, hc⟩ := List.exists_cons_of_ne_nil h.nonempty
  have digit : c.isDigit = true := h.digits c (hc ▸ List.mem_cons_self)
  have noLetter : c.isAlpha = false := by
    by_contra letter
    rw [Text.isDigit_eq_false (by simpa using letter)] at digit
    contradiction
  have dotted : c ≠ '\u0130' := by
    rintro rfl
    exact absurd digit (by decide)
  have kelvin : c ≠ '\u212a' := by
    rintro rfl
    exact absurd digit (by decide)
  exact lower_ne_keyword hc noLetter dotted kelvin hw

theorem IsName.isToken {token : String} (h : IsName token) : IsToken token := by
  obtain ⟨c, cs, hc, _⟩ := h.letter
  exact .word (by simp [hc]) h.chars

theorem IsNumber.isToken {n : Nat} {token : String} (h : IsNumber n token) : IsToken token :=
  .word h.nonempty fun c hc => Text.isPlainChar_of_isDigit (h.digits c hc)

theorem Spells.isToken {t word : String} (h : Spells t word) (hw : word ∈ keywords) :
    IsToken t := by
  have letters : (keywords.all fun w => !w.toList.isEmpty && w.toList.all Char.isAlpha) = true := by
    decide
  have known := List.all_eq_true.1 letters word hw
  simp only [Bool.and_eq_true, Bool.not_eq_true', List.isEmpty_eq_false_iff,
    List.all_eq_true] at known
  apply IsToken.word
  · intro none
    rw [Spells, none] at h
    exact known.1 h.symm
  · intro c hc
    have letter : c.toLower.isAlpha = true := by
      apply known.2
      rw [← h]
      exact List.mem_map_of_mem hc
    rw [Char.isAlpha_toLower_eq_isAlpha] at letter
    exact Text.isPlainChar_of_isAlpha letter

theorem keyword_of_junction {word : String} (h : word ∈ ["or", "and"]) : word ∈ keywords :=
  List.mem_append_left _ (List.mem_append_left ["not"] h)

theorem word_ne_junction (quantifier : Quantifier) :
    ∀ word ∈ ["or", "and"], quantifier.word ≠ word := by
  cases quantifier <;> decide

theorem word_mem_keywords (quantifier : Quantifier) : quantifier.word ∈ keywords := by
  cases quantifier <;> decide

theorem IsNumber.count?_eq {n : Nat} {token : String} (h : IsNumber n token) :
    count? token = some n := by
  have digits : token.toList.all Text.isAsciiDigit = true := List.all_eq_true.2 h.digits
  have value : Text.asciiNumber token.toList = n := by
    rw [← h.value, Nat.ofDigitChars_eq_foldl, Text.asciiNumber]
    simp only [Nat.mul_comm]
  have nonempty : token.toList.isEmpty = false := by
    simpa using h.nonempty
  simp only [count?, digits, value, nonempty]
  rfl

theorem count?_eq_none {t : String} {c : Char} {cs : List Char} (h : t.toList = c :: cs)
    (hc : c.isDigit = false) : count? t = none := by
  have first : Text.isAsciiDigit c = false := hc
  simp [count?, h, first]

theorem ofWord?_word (quantifier : Quantifier) :
    Quantifier.ofWord? quantifier.word = some quantifier := by
  cases quantifier <;> decide

end Ontogram.Expression
