import Ontogram.Proofs.Ascii
import Ontogram.Proofs.Statement
import Ontogram.Proofs.StatementLines

set_option autoImplicit false

namespace Ontogram

namespace Text

theorem toList_underscored (s : String) :
    (underscored s).toList = ['_'].intercalate (wordsOf s.toList) := by
  rw [underscored, words, String.toList_intercalate, List.map_map]
  congr 1
  exact (List.map_congr_left fun w _ => String.toList_ofList).trans (List.map_id _)

/-- A text that starts a word has a word. -/
theorem wordsOf_cons_ne_nil {c : Char} (h : isBlank c = false) (cs : List Char) :
    wordsOf (c :: cs) ≠ [] := by
  intro none
  have blank := dropWhile_isBlank_of_wordsOf_eq_nil none
  rw [List.dropWhile_cons_of_neg (by simp [h])] at blank
  cases blank

/-- Words with an underscore between each two are not nothing. -/
theorem intercalate_wordsOf_ne_nil {cs : List Char} (h : wordsOf cs ≠ []) :
    ['_'].intercalate (wordsOf cs) ≠ [] := by
  obtain ⟨w, ws, words⟩ := List.exists_cons_of_ne_nil h
  have word : w ≠ [] := ne_nil_of_mem_wordsOf (words ▸ List.mem_cons_self)
  rw [words]
  cases ws with
  | nil => simpa using word
  | cons v ws => simp

end Text

namespace Resolver

open Text (isBlank isPlainChar)

/-- A text that can only be read as a name at the base. -/
structure IsBareName (s : String) : Prop where
  first : ∃ c ∈ s.toList.head?, isBlank c = false ∧ c ≠ '"' ∧ c ≠ '<'
  last : ∀ c ∈ s.toList.getLast?, isBlank c = false
  single : ':' ∉ s.toList
  own : s ∉ Vocabulary.owlWords

/-- A letter of ASCII and letters, digits, underscores and spaces behind it. -/
structure IsSimpleName (s : String) : Prop where
  first : ∃ c ∈ s.toList.head?, c.isAlpha = true
  chars : (s.toList.all fun c => isPlainChar c || c == ' ') = true
  last : s.toList.getLast? ≠ some ' '
  own : s ∉ Vocabulary.owlWords

theorem isBlank_eq_false_of_isPlainChar {c : Char} (h : isPlainChar c = true) :
    isBlank c = false := by
  have range := Text.toNat_of_isPlainChar h
  exact Text.isBlank_eq_false (by omega) (by omega)

theorem IsSimpleName.isPlainChar_or_eq {s : String} (h : IsSimpleName s) {c : Char}
    (hc : c ∈ s.toList) : isPlainChar c = true ∨ c = ' ' := by
  simpa using List.all_eq_true.1 h.chars c hc

theorem IsSimpleName.isBareName {s : String} (h : IsSimpleName s) : IsBareName s where
  first := by
    obtain ⟨c, first, letter⟩ := h.first
    have plain := Text.isPlainChar_of_isAlpha letter
    exact ⟨c, first, isBlank_eq_false_of_isPlainChar plain, Text.ne_of_class letter rfl,
      Text.ne_of_class letter rfl⟩
  last := by
    intro c last
    refine isBlank_eq_false_of_isPlainChar ((h.isPlainChar_or_eq ?_).resolve_right ?_)
    · exact List.mem_of_mem_getLast? last
    · rintro rfl
      exact h.last last
  single := by
    intro colon
    rcases h.isPlainChar_or_eq colon with plain | space
    · exact absurd plain (by decide)
    · exact absurd space (by decide)
  own := h.own

section Bare

variable (r : Resolver) {s : String} (bare : IsBareName s)
include bare

theorem isAbsolute_of_isBareName : isAbsolute s.toList = false := by
  have colons : ∀ scheme ∈ schemes, ':' ∈ scheme.toList := by decide
  refine Bool.eq_false_iff.2 fun absolute => bare.single ?_
  obtain ⟨scheme, known, front⟩ := List.any_eq_true.1 absolute
  exact (List.isPrefixOf_iff_prefix.1 front).subset (colons scheme known)

theorem iriOf_of_isBareName : r.iriOf s.toList = r.base ++ Text.underscored s := by
  obtain ⟨c, first, solid, unquoted, unbracketed⟩ := bare.first
  obtain ⟨cs, shape⟩ := List.head?_eq_some_iff.1 first
  have there : s.toList.isEmpty = false := by rw [shape]; rfl
  have unmarked : isBracketed s.toList = false := by simp [isBracketed, shape, unbracketed]
  have absolute := isAbsolute_of_isBareName bare
  have named : "_:".toList.isPrefixOf s.toList = false := by
    refine Bool.eq_false_iff.2 fun front => bare.single ?_
    exact (List.isPrefixOf_iff_prefix.1 front).subset (by decide)
  have prefixed : s.toList.contains ':' = false := by
    simpa using bare.single
  have words := Text.intercalate_wordsOf_ne_nil (shape ▸ Text.wordsOf_cons_ne_nil solid cs)
  have name : localName s.toList = (Text.underscored s).toList := by
    rw [Text.toList_underscored, localName, if_neg (by simpa using words)]
  rw [iriOf, there, unmarked, absolute, named, prefixed, String.ofList_toList]
  simp only [Bool.false_eq_true, if_false, Bool.false_and, if_neg bare.own, atBase, name,
    String.ofList_toList]

/-- A bare name resolves to its words at the base. -/
theorem resolve_of_isBareName : r.resolve s = .iri (r.base ++ Text.underscored s) := by
  obtain ⟨c, first, solid, unquoted, -⟩ := bare.first
  have ends : Text.stripBoth isBlank s.toList = s.toList := by
    refine Text.stripBoth_eq_self (fun d hd => ?_) bare.last
    obtain rfl := Option.some.inj (hd.symm.trans first)
    exact solid
  have token : isQuoted s = false := by
    rw [isQuoted, ends, first]
    simpa using unquoted
  rw [r.resolve_of_not_isQuoted token, ends, r.iriOf_of_isBareName bare]

end Bare

end Resolver

end Ontogram
