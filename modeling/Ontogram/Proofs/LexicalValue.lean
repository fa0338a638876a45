import Ontogram.Proofs.LiteralReading

set_option autoImplicit false

namespace Ontogram

namespace Text

variable {α : Type} {suffix? : List Char → Option α}

/-- The quotes stay where the escapes of backslashes are undone. -/
theorem count_quote_unescapeBackslashes (cs : List Char) :
    (unescapeBackslashes cs).count '"' = cs.count '"' := by
  fun_induction unescapeBackslashes cs with
  | case1 cs ih => simp [ih]
  | case2 c cs _ ih => simp [List.count_cons, ih]
  | case3 => rfl

theorem closeQuote_eq_none_iff {cs : List Char} :
    closeQuote suffix? cs = none ↔
      ∀ front mark, cs = front ++ '"' :: mark → suffix? mark = none := by
  constructor
  · rintro closed front mark rfl
    refine Option.eq_none_iff_forall_ne_some.2 fun a allowed => ?_
    obtain ⟨value, b, later⟩ := exists_closeQuote_append allowed front
    rw [closed] at later
    cases later
  · intro silent
    refine Option.eq_none_iff_forall_ne_some.2 fun ⟨value, a⟩ closed => ?_
    obtain ⟨mark, shape, allowed⟩ := closeQuote_eq_some closed
    rw [silent value mark shape] at allowed
    cases allowed

/-- A quote closes a text if an allowed suffix follows it, and no later quote does so. -/
theorem closeQuote_append_iff (front : List Char) {mark : List Char} {a : α} :
    closeQuote suffix? (front ++ '"' :: mark) = some (front, a) ↔
      suffix? mark = some a ∧ closeQuote suffix? mark = none := by
  constructor
  · intro closed
    obtain ⟨rest, shape, allowed⟩ := closeQuote_eq_some closed
    obtain rfl : mark = rest := by simpa using shape
    refine ⟨allowed, Option.eq_none_iff_forall_ne_some.2 fun ⟨value, b⟩ later => ?_⟩
    have longer := closeQuote_append_of_some later (front ++ ['"'])
    rw [List.append_assoc, List.singleton_append, closed] at longer
    have length := congrArg (fun found => found.1.length) (Option.some.inj longer)
    simp at length
  · rintro ⟨allowed, last⟩
    have own : closeQuote suffix? ('"' :: mark) = some ([], a) := by
      simp [closeQuote, last, allowed]
    simpa using closeQuote_append_of_some own front

end Text

open Text (escape)

namespace Fact

theorem lexicalValue_of_closed {text : String} {cs value : List Char}
    (shape : text.toList = '"' :: cs)
    (closed : Text.closeQuote literalEnd? cs = some (value, ())) :
    lexicalValue text =
      String.ofList (Text.unescapeBackslashes (Text.unescapeQuotes value)) := by
  rw [lexicalValue, shape]
  simp only [closed]

theorem lexicalValue_of_open {text : String} {cs : List Char} (shape : text.toList = '"' :: cs)
    (unclosed : Text.closeQuote literalEnd? cs = none) : lexicalValue text = text := by
  rw [lexicalValue, shape]
  simp only [unclosed]

/-- A mark closes a value if it is known and has no quote that another known mark follows. -/
def ClosesValue (mark : List Char) : Prop :=
  literalEnd? mark = some () ∧ Text.closeQuote literalEnd? mark = none

/-- The mark of a language closes a value if it is a language tag. One line feed behind it is
overlooked. -/
theorem closesValue_language_iff {tag : List Char} (filled : tag ≠ []) :
    ClosesValue ('@' :: tag) ↔ Resolver.isLanguageTag (Text.dropFinalNewline tag) = true := by
  rw [ClosesValue, literalEnd?_language_iff filled]
  refine and_iff_left_of_imp fun valid => Text.closeQuote_eq_none ?_
  have kept : '"' ∉ Text.dropFinalNewline tag :=
    Text.notMem_of_all (Resolver.all_of_isLanguageTag valid) (by decide)
  have inside : '"' ∉ tag := fun mem => kept (Text.mem_dropFinalNewline mem (by decide))
  exact List.mem_cons.not.2 (not_or.2 ⟨by decide, inside⟩)

/-- The mark of a datatype closes a value if the datatype has no closing bracket, and no quote in it
starts the mark of another. -/
theorem closesValue_datatype_iff {datatype : List Char} :
    ClosesValue ('^' :: '^' :: Query.bracket datatype) ↔
      '>' ∉ datatype ∧ ¬ ['"', '^', '^', '<'] <:+: datatype := by
  have text : '^' :: '^' :: Query.bracket datatype = ('^' :: '^' :: '<' :: datatype) ++ ['>'] :=
    rfl
  rw [ClosesValue, text, literalEnd?_concat_iff, Text.closeQuote_eq_none_iff]
  constructor
  · rintro ⟨⟨same, shape, inside⟩, last⟩
    obtain rfl : datatype = same := by simpa using shape
    refine ⟨inside, ?_⟩
    rintro ⟨before, behind, rfl⟩
    -- The mark of the datatype ends with one that its own quote is in front of.
    have later : ('^' :: '^' :: '<' :: (before ++ ['"', '^', '^', '<'] ++ behind)) ++ ['>'] =
        ('^' :: '^' :: '<' :: before) ++ '"' :: (('^' :: '^' :: '<' :: behind) ++ ['>']) := by simp
    have closed : '>' ∉ behind := fun mem => inside (List.mem_append_right _ mem)
    have refused := last _ _ later
    rw [literalEnd?_concat_iff.2 ⟨behind, rfl, closed⟩] at refused
    cases refused
  · rintro ⟨inside, whole⟩
    refine ⟨⟨datatype, rfl, inside⟩, fun front rest shape => ?_⟩
    refine Option.eq_none_iff_forall_ne_some.2 fun _ allowed => ?_
    obtain ⟨back, rfl, split⟩ := Text.exists_of_concat_eq shape (by decide)
    obtain ⟨behind, rfl, -⟩ := literalEnd?_concat_iff.1 allowed
    have found : ['"', '^', '^', '<'] <:+: '^' :: '^' :: '<' :: datatype :=
      ⟨front, behind, by rw [split]; simp⟩
    exact whole (by simpa [List.infix_cons_iff, List.cons_prefix_cons] using found)

/-- A written value is read again exactly if its mark closes it. -/
theorem lexicalValue_eq_iff {text : String} {value mark : List Char}
    (shape : text.toList = '"' :: (escape value ++ '"' :: mark)) :
    lexicalValue text = String.ofList value ↔ ClosesValue mark := by
  rw [ClosesValue, ← Text.closeQuote_append_iff (escape value)]
  constructor
  · intro same
    cases closed : Text.closeQuote literalEnd? (escape value ++ '"' :: mark) with
    | none =>
      -- A text that is no literal keeps the two quotes around the value.
      have whole := congrArg (fun s => s.toList.count '"')
        ((lexicalValue_of_open shape closed).symm.trans same)
      simp [shape, Text.count_quote_escape] at whole
      omega
    | some found =>
      -- The quotes in the value tell which quote has closed it.
      obtain ⟨front, ⟨⟩⟩ := found
      have undone := congrArg (fun s => s.toList.count '"')
        ((lexicalValue_of_closed shape closed).symm.trans same)
      simp only [String.toList_ofList, Text.count_quote_unescapeBackslashes,
        Text.count_quote_unescapeQuotes, ← Text.count_quote_escape value] at undone
      obtain ⟨rest, split, -⟩ := Text.closeQuote_eq_some closed
      rw [(Text.eq_of_count_quote split undone.symm).1]
  · intro closed
    rw [lexicalValue_of_closed shape closed, Text.unescapeQuotes_escape,
      Text.unescapeBackslashes_double]

end Fact

namespace Literal

/-- A literal whose mark closes its value: it has no mark, or a language tag, behind which a line
feed is overlooked, or else a datatype without closing brackets in which no quote starts another.
-/
def IsRecoverable (l : Literal) : Prop :=
  match l.language.filter (· ≠ ""), l.datatype.filter (· ≠ "") with
  | some tag, _ => Resolver.isLanguageTag (Text.dropFinalNewline tag.toList) = true
  | none, some iri => '>' ∉ iri.toList ∧ ¬ ['"', '^', '^', '<'] <:+: iri.toList
  | none, none => True

theorem closesValue_mark_iff (l : Literal) : Fact.ClosesValue l.mark ↔ l.IsRecoverable := by
  unfold mark suffix IsRecoverable
  cases tagged : l.language.filter (· ≠ "") with
  | some tag =>
    have filled : tag ≠ "" := by simpa using (Option.filter_eq_some_iff.1 tagged).2
    have text : ("@" ++ tag).toList = '@' :: tag.toList := by simp
    simp only [text]
    exact Fact.closesValue_language_iff (by simpa using filled)
  | none =>
    cases typed : l.datatype.filter (· ≠ "") with
    | some iri =>
      have text : ("^^" ++ ("<" ++ iri ++ ">")).toList =
          '^' :: '^' :: Query.bracket iri.toList := by simp [Query.bracket]
      simp only [text]
      exact Fact.closesValue_datatype_iff
    | none => simp [Fact.ClosesValue, Fact.literalEnd?, Text.closeQuote, Text.dropFinalNewline]

/-- The lexical value of the display text of a literal is its value, whatever characters it holds,
if it has no mark, a language tag, or a datatype without closing brackets and quotes. The literals
whose mark closes the value are all of which this is true. -/
theorem lexicalValue_display_iff (l : Literal) :
    (LexicalMark l.language l.datatype → Fact.lexicalValue l.display = l.value) ∧
      (Fact.lexicalValue l.display = l.value ↔ l.IsRecoverable) := by
  refine ⟨lexicalValue_display, ?_⟩
  rw [← closesValue_mark_iff, ← Fact.lexicalValue_eq_iff l.toList_display, String.ofList_toList]

/-- A value that holds the text of a mark behind a quote, and backslashes in front of quotes. -/
theorem lexicalValue_display_quotedMark :
    let l : Literal := ⟨"a\\\"@en\"^^<b>\\", some "en-GB", none⟩
    LexicalMark l.language l.datatype ∧ Fact.lexicalValue l.display = l.value := by
  intro l
  have marked : LexicalMark l.language l.datatype := .language (by decide)
  exact ⟨marked, (lexicalValue_display_iff l).1 marked⟩

end Literal

end Ontogram
