import Mathlib.Data.List.TakeWhile
import Ontogram.Proofs.Ascii
import Ontogram.Proofs.OneLine

set_option autoImplicit false

namespace Ontogram

mutual

def Term.literals : Term → List Literal
  | .iri _ => []
  | .blank _ => []
  | .literal l => [l]
  | .list items => Term.literalsIn items

def Term.literalsIn : List Term → List Literal
  | [] => []
  | t :: ts => t.literals ++ Term.literalsIn ts

end

def Triple.literals (t : Triple) : List Literal :=
  t.subject.literals ++ t.predicate.literals ++ t.object.literals

namespace Literal

def signs : List (List Char) :=
  [[], ['+'], ['-']]

def IsDigits (cs : List Char) : Prop :=
  ∀ c ∈ cs, c.isDigit = true

/-- The literals of the four datatypes of class expressions whose forms these datatypes have. -/
inductive IsLexical : Literal → Prop where
  | integer {sign digits : List Char} (signed : sign ∈ signs) (filled : digits ≠ [])
      (ascii : IsDigits digits) :
      IsLexical ⟨String.ofList (sign ++ digits), none, some (Namespace.xsd ++ "integer")⟩
  | count {digits : List Char} (filled : digits ≠ []) (ascii : IsDigits digits) :
      IsLexical ⟨String.ofList digits, none, some (Namespace.xsd ++ "nonNegativeInteger")⟩
  | decimal {sign whole places : List Char} (signed : sign ∈ signs) (filled : places ≠ [])
      (front : IsDigits whole) (back : IsDigits places) :
      IsLexical ⟨String.ofList (sign ++ (whole ++ '.' :: places)), none,
        some (Namespace.xsd ++ "decimal")⟩
  | truth {value : String} (known : value = "true" ∨ value = "false") :
      IsLexical ⟨value, none, some (Namespace.xsd ++ "boolean")⟩

theorem IsDigits.lt {cs : List Char} (h : IsDigits cs) : ∀ c ∈ cs, c.toNat < 128 := by
  intro c mem
  have range := Text.toNat_of_isDigit (h c mem)
  omega

theorem lt_of_mem_signs {sign : List Char} (h : sign ∈ signs) : ∀ c ∈ sign, c.toNat < 128 := by
  simp only [signs, List.mem_cons, List.not_mem_nil, or_false] at h
  rcases h with rfl | rfl | rfl <;> simp

/-- All lexical forms are ASCII. -/
theorem IsLexical.lt {l : Literal} (h : l.IsLexical) : ∀ c ∈ l.value.toList, c.toNat < 128 := by
  cases h with
  | integer signed _ ascii =>
    rw [String.toList_ofList]
    exact List.forall_mem_append.2 ⟨lt_of_mem_signs signed, ascii.lt⟩
  | count _ ascii =>
    rw [String.toList_ofList]
    exact ascii.lt
  | decimal signed _ front back =>
    rw [String.toList_ofList]
    exact List.forall_mem_append.2 ⟨lt_of_mem_signs signed, List.forall_mem_append.2
      ⟨front.lt, List.forall_mem_cons.2 ⟨by decide, back.lt⟩⟩⟩
  | truth known =>
    have ascii : ["true", "false"].all (fun s => s.toList.all fun c => decide (c.toNat < 128)) := by
      decide
    have word := List.all_eq_true.1 ascii _ (by simpa using known)
    exact fun c mem => of_decide_eq_true (List.all_eq_true.1 word c mem)

end Literal

namespace Resolver

open Literal (IsLexical IsDigits signs)

variable (r : Resolver)

/-- A value that reads as a number and has a character outside ASCII. -/
def IsForeignNumber (text : String) : Prop :=
  let cs := Text.stripBoth Text.isBlank text.toList
  (isInteger cs = true ∨ isDecimal cs = true) ∧ ∃ c ∈ cs, 128 ≤ c.toNat

/-- A sign is taken from the front. -/
theorem exists_sign (cs : List Char) : ∃ sign ∈ signs, cs = sign ++ (Text.takeSign cs).2 := by
  unfold Text.takeSign
  split
  · exact ⟨['-'], by decide, rfl⟩
  · exact ⟨['+'], by decide, rfl⟩
  · exact ⟨[], by decide, rfl⟩

/-- Digits of any script that are ASCII. -/
theorem isDigits_of_all {cs : List Char} (digits : cs.all Text.isDigit = true)
    (ascii : ∀ c ∈ cs, c.toNat < 128) : IsDigits cs := fun c mem => by
  rw [← Text.isDigit_eq (ascii c mem)]
  exact List.all_eq_true.1 digits c mem

theorem isLexical_integer {cs : List Char} (integer : isInteger cs = true)
    (ascii : ∀ c ∈ cs, c.toNat < 128) :
    IsLexical ⟨String.ofList cs, none, some (Namespace.xsd ++ "integer")⟩ := by
  obtain ⟨sign, signed, whole⟩ := exists_sign cs
  obtain ⟨filled, digits⟩ := Bool.and_eq_true_iff.1 integer
  rw [whole]
  refine .integer signed (by simpa using filled) (isDigits_of_all digits fun c mem => ascii c ?_)
  rw [whole]
  exact List.mem_append_right sign mem

theorem isLexical_decimal {cs : List Char} (decimal : isDecimal cs = true)
    (ascii : ∀ c ∈ cs, c.toNat < 128) :
    IsLexical ⟨String.ofList cs, none, some (Namespace.xsd ++ "decimal")⟩ := by
  obtain ⟨sign, signed, whole⟩ := exists_sign cs
  unfold isDecimal at decimal
  split at decimal
  · rename_i places point
    obtain ⟨filled, digits⟩ := Bool.and_eq_true_iff.1 decimal
    have parts := List.takeWhile_append_dropWhile (p := Text.isDigit) (l := (Text.takeSign cs).2)
    rw [point] at parts
    rw [← parts] at whole
    have within : ∀ c ∈ (Text.takeSign cs).2.takeWhile Text.isDigit ++ '.' :: places,
        c.toNat < 128 := fun c mem => ascii c (whole ▸ List.mem_append_right sign mem)
    obtain ⟨front, back⟩ := List.forall_mem_append.1 within
    rw [whole]
    refine .decimal signed (by simpa using filled) (isDigits_of_all ?_ front)
      (isDigits_of_all digits (List.forall_mem_cons.1 back).2)
    exact List.all_eq_true.2 fun c mem => List.mem_takeWhile_imp mem
  · cases decimal

variable {r}

theorem head?_ne_quote {text : String} (plain : '"' ∉ text.toList) :
    (Text.stripBoth Text.isBlank text.toList).head? ≠ some '"' :=
  fun quoted => plain (Text.mem_of_mem_stripBoth (List.mem_of_head? quoted))

/-- Without quotes a token names a resource. -/
theorem literals_resolve {token : String} (plain : '"' ∉ token.toList) :
    (r.resolve token).literals = [] := by
  rw [resolve, termOf, if_neg (head?_ne_quote plain)]
  rfl

theorem literals_resolveDatatype {token : String} (named : (r.resolve token).literals = []) :
    (r.resolveDatatype token).literals = [] := by
  unfold resolveDatatype
  split
  · rfl
  · exact named

variable (r) in
/-- A value is a literal or names a resource. -/
theorem resolveValue_cases (text : String) :
    (∃ l, r.resolveValue text = .literal l) ∨ ∃ iri, r.resolveValue text = .iri iri := by
  unfold resolveValue
  simp only
  split
  · exact Or.inl ⟨_, rfl⟩
  split
  · exact Or.inl ⟨_, rfl⟩
  split
  · exact Or.inl ⟨_, rfl⟩
  split
  · exact Or.inl ⟨_, rfl⟩
  · exact Or.inr ⟨_, rfl⟩

variable (r) in
theorem exists_literal_of_isForeignNumber {text : String} (h : IsForeignNumber text) :
    ∃ l, r.resolveValue text = .literal l := by
  obtain ⟨number, -⟩ := h
  unfold resolveValue
  simp only
  split
  · exact ⟨_, rfl⟩
  split
  · exact ⟨_, rfl⟩
  · rename_i integer
    rw [if_pos (number.resolve_left integer)]
    exact ⟨_, rfl⟩

/-- The literal of a number has a form of its datatype exactly if it is ASCII. -/
theorem isLexical_iff_of_isNumber {cs : List Char}
    (number : isInteger cs = true ∨ isDecimal cs = true) {l : Literal}
    (value : l.value = String.ofList cs) (form : (∀ c ∈ cs, c.toNat < 128) → l.IsLexical) :
    l.IsLexical ↔
      ¬ ((isInteger cs = true ∨ isDecimal cs = true) ∧ ∃ c ∈ cs, 128 ≤ c.toNat) := by
  constructor
  · rintro lexical ⟨-, c, mem, foreign⟩
    have ascii := lexical.lt c (by rwa [value, String.toList_ofList])
    omega
  · intro native
    refine form fun c mem => ?_
    by_contra foreign
    exact native ⟨number, c, mem, Nat.le_of_not_lt foreign⟩

/-- The literal of a value without quotes has a form of its datatype exactly if the value is no
foreign number. -/
theorem isLexical_iff_of_resolveValue {text : String} (plain : '"' ∉ text.toList) {l : Literal}
    (h : r.resolveValue text = .literal l) : l.IsLexical ↔ ¬ IsForeignNumber text := by
  have unquoted := head?_ne_quote plain
  unfold resolveValue at h
  unfold IsForeignNumber
  generalize Text.stripBoth Text.isBlank text.toList = cs at h unquoted
  simp only [if_neg unquoted] at h
  by_cases integer : isInteger cs = true
  · rw [if_pos integer] at h
    obtain rfl := Term.literal.inj h
    exact isLexical_iff_of_isNumber (Or.inl integer) rfl (isLexical_integer integer)
  by_cases decimal : isDecimal cs = true
  · rw [if_neg integer, if_pos decimal] at h
    obtain rfl := Term.literal.inj h
    exact isLexical_iff_of_isNumber (Or.inr decimal) rfl (isLexical_decimal decimal)
  rw [if_neg integer, if_neg decimal] at h
  split at h
  · rename_i truth
    obtain rfl := Term.literal.inj h
    refine iff_of_true (.truth ?_) (by simp [integer, decimal])
    rcases truth with rfl | rfl
    · exact Or.inl (String.ofList_toList)
    · exact Or.inr (String.ofList_toList)
  · cases h

end Resolver

end Ontogram
