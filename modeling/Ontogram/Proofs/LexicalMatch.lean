import Ontogram.Proofs.DisplayedLiteral
import Ontogram.Proofs.NestedLoops

set_option autoImplicit false

namespace Ontogram

namespace Text

theorem length_lt_length_escape {c : Char} {cs : List Char} (found : c ∈ cs)
    (mark : c = '\\' ∨ c = '"') : cs.length < (escape cs).length := by
  obtain ⟨front, back, rfl⟩ := List.append_of_mem found
  have before := length_le_length_escape front
  have behind := length_le_length_escape back
  have split : escape (front ++ c :: back) = escape front ++ ('\\' :: c :: escape back) := by
    rw [escape, List.flatMap_append, List.flatMap_cons, escapeChar_of_mark mark]
    rfl
  simp only [split, List.length_append, List.length_cons]
  omega

/-- Only a text without quotes and backslashes is written as it is. -/
theorem escape_eq_self_iff {cs : List Char} : escape cs = cs ↔ '"' ∉ cs ∧ '\\' ∉ cs := by
  constructor
  · intro same
    have length := congrArg List.length same
    refine ⟨fun quote => ?_, fun slash => ?_⟩
    · exact absurd length (length_lt_length_escape quote (Or.inr rfl)).ne'
    · exact absurd length (length_lt_length_escape slash (Or.inl rfl)).ne'
  · rintro ⟨quote, slash⟩
    induction cs with
    | nil => rfl
    | cons c cs ih =>
      obtain ⟨first, quote⟩ := not_or.1 (List.mem_cons.not.1 quote)
      obtain ⟨other, slash⟩ := not_or.1 (List.mem_cons.not.1 slash)
      rw [escape_cons, escapeChar_of_ne (Ne.symm other) (Ne.symm first), ih quote slash]
      rfl

end Text

open Text (escape)

namespace Literal

theorem toList_display_bare (v : String) :
    (⟨v, none, none⟩ : Literal).display.toList = '"' :: (escape v.toList ++ ['"']) := by
  rw [toList_display, mark_bare]

/-- The display text of an untagged literal is that of no other. -/
theorem display_bare_eq_iff {v : String} {l : Literal}
    (marked : LexicalMark l.language l.datatype) :
    (⟨v, none, none⟩ : Literal).display = l.display ↔ l.value = v ∧ l.mark = [] := by
  constructor
  · intro same
    have value : l.value = v := by
      rw [← lexicalValue_display marked, ← same, lexicalValue_display .bare]
    have texts := congrArg String.toList same
    rw [toList_display_bare, toList_display, value] at texts
    exact ⟨value, by simpa using texts.symm⟩
  · rintro ⟨value, mark⟩
    refine String.toList_inj.1 ?_
    rw [toList_display_bare, toList_display, value, mark]

end Literal

namespace TriplePattern

/-- Without its quotes the display text of an untagged literal still has the escapes. -/
theorem unquoted_display_bare (v : String) :
    unquoted (⟨v, none, none⟩ : Literal).display = String.ofList (escape v.toList) := by
  rw [unquoted, Literal.toList_display_bare, dropOpeningQuote]
  simp

/-- The pattern of two variables and an untagged literal. -/
def ofValue (subject predicate v : String) : TriplePattern :=
  ⟨.var subject, .var predicate, .literal ⟨v, none, none⟩⟩

/-- Two variables for the first two positions are bound, unless they are one and the texts
differ. -/
theorem accepts_ofValue (prefixes : Table String) {s p : String} (v : String) {f : Fact}
    (agree : s = p → f.subject = f.predicate) :
    (ofValue s p v).accepts prefixes f =
      meetsObject (some (⟨v, none, none⟩ : Literal).display) f := by
  have bound : consistent ((ofValue s p v).bindings f) = true := by
    have texts : (ofValue s p v).bindings f = [(s, f.subject), (p, f.predicate)] := rfl
    rw [texts, consistent]
    by_cases one : s = p
    · simp [one, agree one]
    · simp [List.lookup, beq_eq_false_iff_ne.2 (Ne.symm one)]
  have constant : (ofValue s p v).object.constant? prefixes = some _ :=
    Literal.constant?_literal (l := ⟨v, none, none⟩) .bare prefixes
  rw [accepts, bound, constant, Bool.and_true]
  rfl

theorem accepts_ofValue_iff (prefixes : Table String) {s p : String} {subject predicate : Term}
    (agree : s = p → subject.display = predicate.display) (v : String) {l : Literal}
    (marked : Literal.LexicalMark l.language l.datatype) :
    (ofValue s p v).accepts prefixes (Fact.ofTriple ⟨subject, predicate, .literal l⟩) = true ↔
      (l.value = v ∧ l.mark = []) ∨ l.value.toList = escape v.toList := by
  have lexical : (Fact.ofTriple ⟨subject, predicate, .literal l⟩).lexical = l.value := by
    simp only [Fact.ofTriple, Fact.ofTexts, Term.display, Literal.lexicalValue_display marked]
  have object : (Fact.ofTriple ⟨subject, predicate, .literal l⟩).object = l.display := rfl
  rw [accepts_ofValue prefixes v agree, meetsObject, lexical, object, unquoted_display_bare,
    Bool.or_eq_true, beq_iff_eq, beq_iff_eq, Literal.display_bare_eq_iff marked]
  refine or_congr_right ⟨fun same => ?_, fun same => ?_⟩
  · rw [← same, String.toList_ofList]
  · rw [← same, String.ofList_toList]

/-- An untagged literal finds the untagged literals with its value and, with any mark, the literals
whose value is its escaped one. These are the literals with its value, whatever their mark, just if
there is nothing to escape. -/
theorem accepts_value_iff (prefixes : Table String) {s p : String} {subject predicate : Term}
    (agree : s = p → subject.display = predicate.display) (v : String) :
    let finds (l : Literal) : Prop :=
      (ofValue s p v).accepts prefixes (Fact.ofTriple ⟨subject, predicate, .literal l⟩) = true
    (∀ l : Literal, Literal.LexicalMark l.language l.datatype →
      (finds l ↔ (l.value = v ∧ l.mark = []) ∨ l.value.toList = escape v.toList)) ∧
    ((∀ l : Literal, Literal.LexicalMark l.language l.datatype → (finds l ↔ l.value = v)) ↔
      '"' ∉ v.toList ∧ '\\' ∉ v.toList) := by
  intro finds
  have found (l : Literal) (marked : Literal.LexicalMark l.language l.datatype) :
      finds l ↔ (l.value = v ∧ l.mark = []) ∨ l.value.toList = escape v.toList :=
    accepts_ofValue_iff prefixes agree v marked
  refine ⟨found, ?_⟩
  rw [← Text.escape_eq_self_iff]
  constructor
  · intro exact
    -- A literal with a mark is found by its lexical value only.
    have marked : Literal.LexicalMark (some "en") none := .language (by decide)
    rcases (found ⟨v, some "en", none⟩ marked).1 ((exact _ marked).2 rfl) with ⟨-, bare⟩ | same
    · rw [Literal.mark_language v (by decide)] at bare
      cases bare
    · exact same.symm
  · intro plain l marked
    rw [found l marked, plain, String.toList_inj]
    exact or_iff_right_of_imp And.left

theorem accepts_value_word :
    ("s" = "p" → (Term.iri "a").display = (Term.iri "b").display) ∧
    ('"' ∉ "Car".toList ∧ '\\' ∉ "Car".toList) ∧
    (ofValue "s" "p" "Car").accepts {}
      (Fact.ofTriple ⟨.iri "a", .iri "b", .literal ⟨"Car", some "en", none⟩⟩) = true :=
  have agree : "s" = "p" → (Term.iri "a").display = (Term.iri "b").display :=
    fun same => absurd same (by decide)
  have plain : '"' ∉ "Car".toList ∧ '\\' ∉ "Car".toList := by decide
  have marked : Literal.LexicalMark (some "en") none := .language (by decide)
  ⟨agree, plain, ((accepts_value_iff {} agree "Car").2.2 plain _ marked).2 rfl⟩

/-- Behind a language a value with a backslash is not found by itself, and untagged it is found by
another. -/
theorem not_accepts_value_backslash :
    Literal.LexicalMark (some "en") none ∧
    ¬ ((ofValue "s" "p" "a\\b").accepts {}
        (Fact.ofTriple ⟨.iri "s", .iri "p", .literal ⟨"a\\b", some "en", none⟩⟩) = true ↔
      "a\\b" = "a\\b") ∧
    ¬ ((ofValue "s" "p" "a\\b").accepts {}
        (Fact.ofTriple ⟨.iri "s", .iri "p", .literal ⟨"a\\\\b", none, none⟩⟩) = true ↔
      "a\\\\b" = "a\\b") :=
  ⟨.language (by decide), by decide, by decide⟩

end TriplePattern

end Ontogram
