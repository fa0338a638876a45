import Mathlib
import Ontogram.Proofs.QueryLexeme

set_option autoImplicit false

namespace Ontogram.Query

open Text

/-- A character of an item that is no IRI and no literal. -/
def isSymbolChar (c : Char) : Bool :=
  isPlainChar c || [':', '*', '?', '$', '.', '+', '-', '\x7b', '\x7d'].contains c

/-- An item by the way it is read. -/
inductive IsItem : List Char → Prop where
  | symbols {item : List Char} (nonempty : item ≠ []) (chars : ∀ c ∈ item, isSymbolChar c = true) :
      IsItem item
  | bracket {iri : List Char} (chars : iri.all isIriText = true) : IsItem (bracket iri)
  | literal {text mark : List Char} {language datatype : Option String}
      (chars : text.all isQuotedText = true) (marked : MarkText language datatype mark) :
      IsItem ('"' :: (text ++ '"' :: mark))

theorem isSymbolChar_of_isPlainChar {c : Char} (h : isPlainChar c = true) :
    isSymbolChar c = true := by
  simp [isSymbolChar, h]

theorem isItem_of_plain {item : List Char} (nonempty : item ≠ [])
    (chars : ∀ c ∈ item, isPlainChar c = true) : IsItem item :=
  .symbols nonempty fun c hc => isSymbolChar_of_isPlainChar (chars c hc)

theorem isItem_mark {c : Char} (h : isSymbolChar c = true) : IsItem [c] := by
  apply IsItem.symbols (List.cons_ne_nil c [])
  intro d hd
  obtain rfl : d = c := by simpa using hd
  exact h

theorem IsIdentifier.ne_nil {name : List Char} (h : IsIdentifier name) : name ≠ [] := by
  obtain ⟨c, cs, rfl, _⟩ := h.exists_cons
  exact List.cons_ne_nil c cs

theorem qualified_isItem {space name : List Char} (hs : IsIdentifier space)
    (plain : ∀ c ∈ name, isPlainChar c = true) : IsItem (qualified space name) := by
  apply IsItem.symbols
  · simp [qualified]
  · intro c hc
    simp only [qualified, List.mem_append, List.mem_cons] at hc
    rcases hc with left | rfl | right
    · exact isSymbolChar_of_isPlainChar (hs.plain c left)
    · decide
    · exact isSymbolChar_of_isPlainChar (plain c right)

theorem VariableText.isItem {name : String} {text : List Char} (h : VariableText name text) :
    IsItem text := by
  cases h with
  | @var mark name marked _ chars =>
    apply IsItem.symbols (List.cons_ne_nil mark name)
    intro c hc
    rcases List.mem_cons.1 hc with rfl | inside
    · rcases marked with rfl | rfl <;> decide
    · exact isSymbolChar_of_isPlainChar (List.all_eq_true.1 chars c inside)

theorem TermText.isItem {term : PatternTerm} {text : List Char} (h : TermText term text) :
    IsItem text := by
  cases h with
  | var h => exact h.isItem
  | iri chars => exact .bracket chars
  | qualified hs hn => exact qualified_isItem hs hn.plain
  | type => exact isItem_mark (by decide)
  | @integer sign digits signed nonempty hd =>
    apply IsItem.symbols (by simp [nonempty])
    intro c hc
    rcases List.mem_append.1 hc with left | right
    · rcases signed with rfl | rfl | rfl
      · simp at left
      · obtain rfl : c = '+' := by simpa using left
        decide
      · obtain rfl : c = '-' := by simpa using left
        decide
    · have digit := List.all_eq_true.1 hd c right
      exact isSymbolChar_of_isPlainChar (isPlainChar_of_isDigit digit)
  | literal chars marked => exact .literal chars marked

/-! The characters of a term. -/

def isTermChar (c : Char) : Bool :=
  isIriText c || ['<', '>', '?', '$', '+', '@', '^'].contains c

theorem isTermChar_of_isIriText {c : Char} (h : isIriText c = true) : isTermChar c = true := by
  simp [isTermChar, h]

theorem isTermChar_of_isPlainChar {c : Char} (h : isPlainChar c = true) : isTermChar c = true := by
  simp only [isPlainChar, Bool.or_eq_true, beq_iff_eq] at h
  rcases h with ascii | rfl
  · simp [isTermChar, isIriText, ascii]
  · decide

theorem all_isTermChar_bracket {iri : List Char} (chars : iri.all isIriText = true) :
    (bracket iri).all isTermChar = true := by
  rw [List.all_eq_true]
  intro c hc
  simp only [bracket, List.mem_cons, List.mem_append, List.not_mem_nil, or_false] at hc
  rcases hc with rfl | inside | rfl
  · decide
  · exact isTermChar_of_isIriText (List.all_eq_true.1 chars c inside)
  · decide

theorem all_isTermChar_qualified {space name : List Char} (hs : IsIdentifier space)
    (hn : IsIdentifier name) : (qualified space name).all isTermChar = true := by
  rw [List.all_eq_true]
  intro c hc
  simp only [qualified, List.mem_append, List.mem_cons] at hc
  rcases hc with left | rfl | right
  · exact isTermChar_of_isPlainChar (hs.plain c left)
  · decide
  · exact isTermChar_of_isPlainChar (hn.plain c right)

theorem MarkText.all_isTermChar {language datatype : Option String} {mark : List Char}
    (h : MarkText language datatype mark) : mark.all isTermChar = true := by
  cases h with
  | none => rfl
  | @language c tag letter chars =>
    have first : isTermChar c = true :=
      isTermChar_of_isPlainChar (isPlainChar_of_isAlpha letter)
    have others : tag.all isTermChar = true := by
      rw [List.all_eq_true]
      intro d hd
      have known := List.all_eq_true.1 chars d hd
      simp only [Bool.or_eq_true, beq_iff_eq] at known
      rcases known with ascii | rfl
      · simp [isTermChar, isIriText, ascii]
      · decide
    have sign : isTermChar '@' = true := by decide
    simp only [List.all_cons, sign, first, others, Bool.and_self]
  | iri chars =>
    have caret : isTermChar '^' = true := by decide
    simp only [List.all_cons, caret, all_isTermChar_bracket chars, Bool.and_self]
  | qualified hs hn =>
    have caret : isTermChar '^' = true := by decide
    simp only [List.all_cons, caret, all_isTermChar_qualified hs hn, Bool.and_self]

/-- A term is a literal or has none but the characters of terms. -/
theorem TermText.all_isTermChar_or {term : PatternTerm} {text : List Char}
    (h : TermText term text) :
    text.all isTermChar = true ∨ ∃ quoted mark language datatype,
      text = '"' :: (quoted ++ '"' :: mark) ∧ quoted.all isQuotedText = true ∧
        MarkText language datatype mark := by
  cases h with
  | var h =>
    cases h with
    | @var mark name marked _ chars =>
      left
      have first : isTermChar mark = true := by
        rcases marked with rfl | rfl <;> decide
      have others : name.all isTermChar = true := by
        rw [List.all_eq_true]
        exact fun c hc => isTermChar_of_isPlainChar (List.all_eq_true.1 chars c hc)
      simp only [List.all_cons, first, others, Bool.and_self]
  | iri chars => exact Or.inl (all_isTermChar_bracket chars)
  | qualified hs hn => exact Or.inl (all_isTermChar_qualified hs hn)
  | type => exact Or.inl (by decide)
  | @integer sign digits signed _ hd =>
    left
    have front : sign.all isTermChar = true := by
      rcases signed with rfl | rfl | rfl <;> decide
    have others : digits.all isTermChar = true := by
      rw [List.all_eq_true]
      intro c hc
      exact isTermChar_of_isPlainChar (isPlainChar_of_isDigit (List.all_eq_true.1 hd c hc))
    simp only [List.all_append, front, others, Bool.and_self]
  | @literal quoted mark language datatype chars marked =>
    exact Or.inr ⟨quoted, mark, language, datatype, rfl, chars, marked⟩

/-! The items of the clauses. -/

/-- A keyword consists of letters. -/
theorem Spells.isAlpha {item : List Char} {word : String} (h : Spells item word)
    (letters : word.toList.all Char.isAlpha = true) : ∀ c ∈ item, c.isAlpha = true := by
  intro c hc
  have image : c.toUpper ∈ word.toList := by
    rw [← h]
    exact List.mem_map_of_mem hc
  have letter := List.all_eq_true.1 letters _ image
  rwa [Char.isAlpha_toUpper_eq_isAlpha] at letter

theorem Spells.length_eq {item : List Char} {word : String} (h : Spells item word) :
    item.length = word.length := by
  rw [← String.length_toList, ← h, List.length_map]

theorem Spells.exists_cons {item : List Char} {word : String} (h : Spells item word)
    (nonempty : word.toList ≠ []) : ∃ c cs, item = c :: cs := by
  apply List.exists_cons_of_ne_nil
  intro none
  rw [none] at h
  exact nonempty h.symm

theorem Spells.isItem {item : List Char} {word : String} (h : Spells item word)
    (letters : word.toList.all Char.isAlpha = true) (nonempty : word.toList ≠ []) :
    IsItem item := by
  obtain ⟨c, cs, hc⟩ := h.exists_cons nonempty
  apply isItem_of_plain
  · rw [hc]
    exact List.cons_ne_nil c cs
  · intro d hd
    exact isPlainChar_of_isAlpha (h.isAlpha letters d hd)

theorem DeclarationItems.isItem {declared : List (String × String)} {items : List (List Char)}
    (h : DeclarationItems declared items) : ∀ item ∈ items, IsItem item := by
  induction h with
  | nil => simp
  | cons spelled named chars _ ih =>
    have name : IsItem (qualified _ []) := qualified_isItem named (by simp)
    simp only [List.forall_mem_cons]
    exact ⟨spelled.isItem (by decide) (by decide), name, .bracket chars, ih⟩

theorem ProjectionItems.isItem {names : List String} {items : List (List Char)}
    (h : ProjectionItems names items) : ∀ item ∈ items, IsItem item := by
  induction h with
  | all =>
    simp only [List.forall_mem_singleton]
    exact isItem_mark (by decide)
  | one h =>
    simp only [List.forall_mem_singleton]
    exact h.isItem
  | more h _ ih =>
    simp only [List.forall_mem_cons]
    exact ⟨h.isItem, ih⟩

theorem BlockItems.isItem {patterns : List TriplePattern} {items : List (List Char)}
    (h : BlockItems patterns items) : ∀ item ∈ items, IsItem item := by
  induction h with
  | nil => simp
  | last hs hq ho =>
    simp only [List.forall_mem_cons]
    exact ⟨hs.isItem, hq.isItem, ho.isItem, by simp⟩
  | cons hs hq ho _ ih =>
    simp only [List.forall_mem_cons]
    exact ⟨hs.isItem, hq.isItem, ho.isItem, isItem_mark (by decide), ih⟩

theorem LimitItems.isItem {limit : Option Nat} {items : List (List Char)}
    (h : LimitItems limit items) : ∀ item ∈ items, IsItem item := by
  cases h with
  | none => simp
  | some spelled nonempty hd =>
    have digits : IsItem _ := isItem_of_plain nonempty fun c hc =>
      isPlainChar_of_isDigit (List.all_eq_true.1 hd c hc)
    simp only [List.forall_mem_cons]
    exact ⟨spelled.isItem (by decide) (by decide), digits, by simp⟩

theorem DistinctItems.isItem {distinct : Bool} {items : List (List Char)}
    (h : DistinctItems distinct items) : ∀ item ∈ items, IsItem item := by
  cases h with
  | no => simp
  | yes spelled =>
    simp only [List.forall_mem_singleton]
    exact spelled.isItem (by decide) (by decide)

theorem WhereItems.isItem {items : List (List Char)} (h : WhereItems items) :
    ∀ item ∈ items, IsItem item := by
  cases h with
  | none => simp
  | word spelled =>
    simp only [List.forall_mem_singleton]
    exact spelled.isItem (by decide) (by decide)

/-- Every item of a query is read as one of the kinds. -/
theorem QueryItems.isItem {q : Written} {items : List (List Char)} (h : QueryItems q items) :
    ∀ item ∈ items, IsItem item := by
  cases h with
  | query hd spelled hu hv hw hb hl =>
    simp only [List.forall_mem_append, List.forall_mem_cons]
    exact ⟨hd.isItem, spelled.isItem (by decide) (by decide), hu.isItem, hv.isItem, hw.isItem,
      isItem_mark (by decide), hb.isItem, isItem_mark (by decide), hl.isItem⟩

end Ontogram.Query
