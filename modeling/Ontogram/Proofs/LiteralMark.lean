import Mathlib.Data.List.Basic
import Mathlib.Data.List.TakeWhile
import Ontogram.Proofs.Ascii
import Ontogram.Query.Store

set_option autoImplicit false

namespace Ontogram

namespace Text

/-- What a text ends with behind one of its other characters. -/
theorem exists_of_concat_eq {cs front rest : List Char} {c d : Char}
    (shape : cs ++ [c] = front ++ d :: rest) (apart : c ≠ d) :
    ∃ back, rest = back ++ [c] ∧ cs = front ++ d :: back := by
  rcases List.eq_nil_or_concat' rest with rfl | ⟨back, last, rfl⟩
  · have ends := List.append_inj' shape rfl
    simp [apart] at ends
  · rw [← List.cons_append, ← List.append_assoc] at shape
    obtain ⟨split, one⟩ := List.append_inj' shape rfl
    obtain rfl : c = last := (List.cons.inj one).1
    exact ⟨back, rfl, split⟩

end Text

namespace Fact

theorem isTypeMark_iff {cs : List Char} :
    isTypeMark cs = true ↔
      ∃ datatype, cs = '^' :: '^' :: '<' :: (datatype ++ ['>']) ∧ '>' ∉ datatype := by
  constructor
  · intro h
    unfold isTypeMark at h
    split at h
    · rename_i rest
      split at h
      · rename_i closing
        have split := List.takeWhile_append_dropWhile (p := fun c => decide (c ≠ '>')) (l := rest)
        refine ⟨rest.takeWhile (· ≠ '>'), by rw [← closing, split], fun mem => ?_⟩
        simpa using List.mem_takeWhile_imp mem
      · cases h
    · cases h
  · rintro ⟨datatype, rfl, inside⟩
    have outside : ∀ c ∈ datatype, decide (c ≠ '>') = true := fun c mem =>
      decide_eq_true (ne_of_mem_of_not_mem mem inside)
    have closing : (datatype ++ ['>']).dropWhile (· ≠ '>') = ['>'] := by
      rw [List.dropWhile_append_of_pos outside]
      rfl
    simp only [isTypeMark, closing]

theorem literalEnd?_iff {cs : List Char} :
    literalEnd? cs = some () ↔
      let mark := Text.dropFinalNewline cs
      mark = [] ∨ isLanguageMark mark = true ∨ isTypeMark mark = true := by
  simp only [literalEnd?, Option.ite_none_right_eq_some, Bool.or_eq_true, List.isEmpty_iff,
    and_true, or_assoc]

theorem bracket_notMem_of_isLanguageMark {cs : List Char} (h : isLanguageMark cs = true) :
    '>' ∉ cs := by
  unfold isLanguageMark at h
  split at h
  · have inside := Text.notMem_of_all (Resolver.all_of_isLanguageTag h) (c := '>') (by decide)
    exact List.mem_cons.not.2 (not_or.2 ⟨by decide, inside⟩)
  · cases h

/-- In front of a closing bracket only a datatype without such brackets is allowed. -/
theorem literalEnd?_concat_iff {cs : List Char} :
    literalEnd? (cs ++ ['>']) = some () ↔
      ∃ datatype, cs = '^' :: '^' :: '<' :: datatype ∧ '>' ∉ datatype := by
  have filled : cs ++ ['>'] ≠ [] := by simp
  have untagged : ¬ isLanguageMark (cs ++ ['>']) = true := fun tagged =>
    bracket_notMem_of_isLanguageMark tagged (List.mem_append_right cs List.mem_cons_self)
  rw [literalEnd?_iff, Text.dropFinalNewline_concat (by decide)]
  simp only [filled, untagged, Bool.false_eq_true, false_or, isTypeMark_iff, ← List.cons_append,
    List.append_cancel_right_eq]

theorem literalEnd?_language_iff {tag : List Char} (filled : tag ≠ []) :
    literalEnd? ('@' :: tag) = some () ↔
      Resolver.isLanguageTag (Text.dropFinalNewline tag) = true := by
  rw [literalEnd?_iff, Text.dropFinalNewline_cons filled]
  simp [isLanguageMark, isTypeMark]

end Fact

end Ontogram
