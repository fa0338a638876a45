import Ontogram.Text.Lexeme
import Ontogram.Text.Basic

set_option autoImplicit false

namespace Ontogram.Text

/-- A character of a name: a letter or a digit of ASCII or an underscore. -/
def isPlainChar (c : Char) : Bool :=
  c.isAlphanum || c == '_'

theorem ne_of_class {p : Char → Bool} {c d : Char} (h : p c = true) (hd : p d = false) : c ≠ d := by
  intro same
  rw [same, hd] at h
  contradiction

theorem notMem_of_all {p : Char → Bool} {cs : List Char} (h : cs.all p = true) {c : Char}
    (hc : p c = false) : c ∉ cs := by
  intro m
  have inside := List.all_eq_true.1 h c m
  rw [hc] at inside
  contradiction

/-- What fails for each of a few characters fails for a character among them. -/
theorem eq_false_of_mem {p : Char → Bool} {cs : List Char}
    (h : (cs.all fun c => !p c) = true) {c : Char} (hc : c ∈ cs) : p c = false := by
  have found := List.all_eq_true.1 h c hc
  simpa using found

theorem forall_head?_cons {p : Char → Prop} {c : Char} (h : p c) (cs : List Char) :
    ∀ d ∈ (c :: cs).head?, p d := by
  intro d hd
  have same : c = d := by simpa using hd
  rwa [← same]

theorem toNat_of_isAlpha {c : Char} (h : c.isAlpha = true) :
    65 ≤ c.toNat ∧ c.toNat ≤ 90 ∨ 97 ≤ c.toNat ∧ c.toNat ≤ 122 := by
  have bounds : (decide ('A'.val ≤ c.val ∧ c.val ≤ 'Z'.val) ||
      (decide ('a'.val ≤ c.val) && decide (c.val ≤ 'z'.val))) = true := h
  simpa [UInt32.le_iff_toNat_le] using bounds

theorem toNat_of_isDigit {c : Char} (h : c.isDigit = true) : 48 ≤ c.toNat ∧ c.toNat ≤ 57 := by
  simpa [Char.isDigit, UInt32.le_iff_toNat_le] using h

theorem toNat_of_isPlainChar {c : Char} (h : isPlainChar c = true) :
    48 ≤ c.toNat ∧ c.toNat ≤ 57 ∨ 65 ≤ c.toNat ∧ c.toNat ≤ 90 ∨ c.toNat = 95 ∨
      97 ≤ c.toNat ∧ c.toNat ≤ 122 := by
  simp only [isPlainChar, Char.isAlphanum, Bool.or_eq_true, beq_iff_eq] at h
  rcases h with (letter | digit) | rfl
  · have := toNat_of_isAlpha letter
    omega
  · have := toNat_of_isDigit digit
    omega
  · decide

theorem isDigit_eq_false {c : Char} (letter : c.isAlpha = true) : c.isDigit = false := by
  cases digit : c.isDigit with
  | false => rfl
  | true =>
    have := toNat_of_isAlpha letter
    have := toNat_of_isDigit digit
    omega

theorem isDigit_eq {c : Char} (h : c.toNat < 128) : isDigit c = c.isDigit := by
  have others : (zeroPoints.all fun z => z == 48 || decide (128 ≤ z)) = true := by decide
  have listed : 48 ∈ zeroPoints := by decide
  have digit : isDigit c = true ↔ c.isDigit = true := by
    simp only [isDigit, digitValue?, Option.isSome_map, List.find?_isSome, Bool.and_eq_true,
      decide_eq_true_eq]
    constructor
    · rintro ⟨z, hz, lower, upper⟩
      have known := List.all_eq_true.1 others z hz
      simp only [Bool.or_eq_true, beq_iff_eq, decide_eq_true_eq] at known
      have ascii : 48 ≤ c.toNat ∧ c.toNat ≤ 57 := by omega
      simpa [Char.isDigit, UInt32.le_iff_toNat_le] using ascii
    · intro digit
      have range := toNat_of_isDigit digit
      exact ⟨48, listed, by omega, by omega⟩
  exact Bool.eq_iff_iff.2 digit

theorem isBlank_eq_false {c : Char} (lower : 33 ≤ c.toNat) (upper : c.toNat < 127) :
    isBlank c = false := by
  rw [isBlank, if_pos (by omega)]
  simp
  omega

theorem isPlainChar_of_isAlpha {c : Char} (h : c.isAlpha = true) : isPlainChar c = true := by
  simp [isPlainChar, Char.isAlphanum, h]

theorem isPlainChar_of_isDigit {c : Char} (h : c.isDigit = true) : isPlainChar c = true := by
  simp [isPlainChar, Char.isAlphanum, h]

theorem span_append_of_all {p : Char → Bool} {cs rest : List Char} (all : ∀ c ∈ cs, p c = true)
    (stop : ∀ c ∈ rest.head?, p c = false) : span p (cs ++ rest) = (cs, rest) := by
  induction cs with
  | nil =>
    cases rest with
    | nil => rfl
    | cons c rest =>
      have hc : p c = false := stop c rfl
      simp [span, hc]
  | cons c cs ih =>
    have hc : p c = true := all c List.mem_cons_self
    have tail := ih fun d hd => all d (List.mem_cons_of_mem c hd)
    simp only [span, Prod.mk.injEq] at tail
    simp [span, hc, tail.1, tail.2]

end Ontogram.Text
