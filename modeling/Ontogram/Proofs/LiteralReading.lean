import Ontogram.Proofs.BareName
import Ontogram.Proofs.DisplayedLiteral
import Ontogram.Proofs.ExpressionSpacing

set_option autoImplicit false

namespace Ontogram

namespace Text

variable {α : Type} {suffix? : List Char → Option α}

theorem length_double (cs : List Char) : (double cs).length = cs.length + cs.count '\\' := by
  induction cs with
  | nil => rfl
  | cons c cs ih =>
    rw [double_cons, List.length_append, ih]
    by_cases slash : c = '\\'
    · subst slash
      simp only [if_true, List.length_cons, List.length_nil, List.count_cons_self]
      omega
    · simp only [if_neg slash, List.length_cons, List.length_nil, List.count_cons_of_ne slash]
      omega

theorem double_eq_self_iff {cs : List Char} : double cs = cs ↔ '\\' ∉ cs := by
  refine ⟨fun same slash => ?_, double_eq_self⟩
  have more : 0 < cs.count '\\' := List.count_pos_iff.2 slash
  have length := length_double cs
  rw [same] at length
  omega

theorem count_quote_escape (cs : List Char) : (escape cs).count '"' = cs.count '"' := by
  induction cs with
  | nil => rfl
  | cons c cs ih =>
    rw [escape_cons, List.count_append, ih]
    by_cases mark : c = '\\' ∨ c = '"'
    · rcases mark with rfl | rfl
      · simp [escapeChar_of_mark (Or.inl rfl)]
      · simp [escapeChar_of_mark (Or.inr rfl), Nat.add_comm]
    · obtain ⟨slash, quote⟩ := not_or.1 mark
      simp [escapeChar_of_ne slash quote, List.count_cons_of_ne quote]

/-- The quotes stay where their escapes are undone. -/
theorem count_quote_unescapeQuotes (cs : List Char) :
    (unescapeQuotes cs).count '"' = cs.count '"' := by
  fun_induction unescapeQuotes cs with
  | case1 cs ih => simp [ih]
  | case2 c cs _ ih => simp [List.count_cons, ih]
  | case3 => rfl

/-- What closes the end of a text closes the text. -/
theorem closeQuote_append_of_some {back value : List Char} {a : α}
    (closed : closeQuote suffix? back = some (value, a)) (front : List Char) :
    closeQuote suffix? (front ++ back) = some (front ++ value, a) := by
  induction front with
  | nil => exact closed
  | cons c front ih => rw [List.cons_append, closeQuote, ih, List.cons_append]

/-- A quote with an allowed suffix is closed by itself or by a later one. -/
theorem exists_closeQuote_append {mark : List Char} {a : α} (allowed : suffix? mark = some a)
    (front : List Char) :
    ∃ value b, closeQuote suffix? (front ++ '"' :: mark) = some (front ++ value, b) := by
  have own : ∃ value b, closeQuote suffix? ('"' :: mark) = some (value, b) := by
    cases later : closeQuote suffix? mark with
    | none => exact ⟨[], a, by simp [closeQuote, later, allowed]⟩
    | some closed => exact ⟨'"' :: closed.1, closed.2, by simp [closeQuote, later]⟩
  obtain ⟨value, b, closed⟩ := own
  exact ⟨value, b, closeQuote_append_of_some closed front⟩

/-- Two quotes with as many quotes in front of them are one. -/
theorem eq_of_count_quote {front back front' back' : List Char}
    (whole : front ++ '"' :: back = front' ++ '"' :: back')
    (count : front.count '"' = front'.count '"') : front = front' ∧ back = back' := by
  rcases List.append_eq_append_iff.1 whole with ⟨more, rfl, rest⟩ | ⟨more, rfl, rest⟩
  · cases more with
    | nil => simpa using rest
    | cons c more =>
      obtain rfl : '"' = c := (List.cons.inj rest).1
      simp at count
  · cases more with
    | nil => simpa using rest.symm
    | cons c more =>
      obtain rfl : '"' = c := (List.cons.inj rest).1
      simp at count

end Text

open Text (escape double)

namespace Literal

/-- A datatype that is taken from a display text: it is not empty, has no blanks, and no quote in it
looks like the closing one. -/
structure IsPlainType (datatype : String) : Prop where
  filled : datatype ≠ ""
  solid : ∀ c ∈ datatype.toList, Text.isBlank c = false
  whole : ¬ ['"', '^', '^'] <:+: datatype.toList

/-- The marks of literals that are read: none, a language, or a datatype. -/
inductive ReadMark : Option String → Option String → Prop where
  | bare : ReadMark none none
  | language {tag : String} (h : Resolver.isLanguageTag tag.toList = true) :
      ReadMark (some tag) none
  | datatype (iri : String) : ReadMark none (some iri)

end Literal

namespace Resolver

open Literal (IsPlainType ReadMark)

variable (r : Resolver)

/-- A token that starts with a quote and has another that an allowed suffix follows. -/
def IsClosed (token : String) : Prop :=
  ∃ value mark, Text.stripBoth Text.isBlank token.toList = '"' :: (value ++ '"' :: mark) ∧
    (literalSuffix? mark).isSome = true

/-- In front of a closing bracket only a datatype without blanks is allowed. -/
theorem literalSuffix?_concat_iff {cs : List Char}
    {a : Option (List Char) × Option (List Char)} :
    literalSuffix? (cs ++ ['>']) = some a ↔
      ∃ datatype, cs = '^' :: '^' :: datatype ∧ (∀ c ∈ datatype, Text.isBlank c = false) ∧
        a = (none, some (datatype ++ ['>'])) := by
  rw [literalSuffix?, Text.dropFinalNewline_concat (by decide)]
  constructor
  · intro h
    split at h
    · rename_i none
      simp at none
    · rename_i tag shape
      have last : '>' ∈ '@' :: tag := shape ▸ List.mem_append_right cs List.mem_cons_self
      have closing : '>' ∈ tag := (List.mem_cons.1 last).resolve_left (by decide)
      split at h
      · rename_i valid
        exact absurd closing (Text.notMem_of_all (all_of_isLanguageTag valid) (by decide))
      · cases h
    · rename_i datatype shape
      split at h
      · cases h
      · rename_i allowed
        obtain ⟨filled, solid⟩ := not_or.1 (Bool.or_eq_true_iff.not.1 allowed)
        obtain ⟨front, last, rfl⟩ := (List.eq_nil_or_concat' datatype).resolve_left
          fun empty => filled (List.isEmpty_iff.2 empty)
        have ends : cs ++ ['>'] = ('^' :: '^' :: front) ++ [last] := shape
        obtain ⟨rfl, one⟩ := List.append_inj' ends rfl
        obtain rfl : '>' = last := (List.cons.inj one).1
        refine ⟨front, rfl, fun c mem => ?_, (Option.some.inj h).symm⟩
        simpa using List.any_eq_false.1 (Bool.eq_false_iff.2 solid) c (List.mem_append_left _ mem)
    · cases h
  · rintro ⟨datatype, rfl, solid, rfl⟩
    have kept : (datatype ++ ['>']).any Text.isBlank = false := by
      rw [List.any_append, List.any_eq_false.2 fun c mem => by simp [solid c mem]]
      decide
    exact if_neg (by simp [kept])

variable {l : Literal}

/-- The text of a typed literal in its two parts. -/
theorem toList_display_typed {value datatype : String} (filled : datatype ≠ "") :
    (⟨value, none, some datatype⟩ : Literal).display.toList =
      '"' :: (escape value.toList ++ '"' :: (('^' :: '^' :: '<' :: datatype.toList) ++ ['>'])) := by
  rw [Literal.toList_display, Literal.mark_datatype value filled]
  rfl

/-- The last quote closes a text with nothing behind it. -/
theorem closeQuote_bare (front : List Char) :
    Text.closeQuote literalSuffix? (front ++ ['"']) = some (front, none, none) := by
  have allowed : literalSuffix? [] = some (none, none) := rfl
  exact Text.closeQuote_append List.not_mem_nil allowed front

/-- A later quote that an allowed suffix follows stands in the datatype. -/
theorem infix_of_later {datatype value rest : List Char}
    (shape : ('^' :: '^' :: '<' :: datatype) ++ ['>'] = value ++ '"' :: rest)
    {a : Option (List Char) × Option (List Char)} (allowed : literalSuffix? rest = some a) :
    ['"', '^', '^'] <:+: datatype := by
  obtain ⟨front, rfl, typed⟩ := Text.exists_of_concat_eq shape (by decide)
  obtain ⟨inner, rfl, -, -⟩ := literalSuffix?_concat_iff.1 allowed
  have found : ['"', '^', '^'] <:+: '^' :: '^' :: '<' :: datatype :=
    ⟨value, inner, by rw [typed]; simp⟩
  simpa [List.infix_cons_iff, List.cons_prefix_cons] using found

/-- The quote behind the value closes it, if the datatype is plain. -/
theorem closeQuote_typed {datatype : String} (plain : IsPlainType datatype) (front : List Char) :
    Text.closeQuote literalSuffix?
        (front ++ '"' :: (('^' :: '^' :: '<' :: datatype.toList) ++ ['>'])) =
      some (front, none, some (Query.bracket datatype.toList)) := by
  have later : Text.closeQuote literalSuffix? (('^' :: '^' :: '<' :: datatype.toList) ++ ['>']) =
      none := by
    refine Option.eq_none_iff_forall_ne_some.2 fun ⟨value, a⟩ closed => ?_
    obtain ⟨rest, shape, allowed⟩ := Text.closeQuote_eq_some closed
    exact plain.whole (infix_of_later shape allowed)
  have own : literalSuffix? (('^' :: '^' :: '<' :: datatype.toList) ++ ['>']) =
      some (none, some (Query.bracket datatype.toList)) := by
    refine literalSuffix?_concat_iff.2 ⟨'<' :: datatype.toList, rfl, ?_, rfl⟩
    exact List.forall_mem_cons.2 ⟨by decide, plain.solid⟩
  have closed : Text.closeQuote literalSuffix?
      ('"' :: (('^' :: '^' :: '<' :: datatype.toList) ++ ['>'])) =
        some ([], none, some (Query.bracket datatype.toList)) := by
    rw [Text.closeQuote, later, own]
    rfl
  simpa using Text.closeQuote_append_of_some closed front

/-- What the reader takes from the display text of a literal with a plain datatype. -/
theorem literalOf_display (marked : ReadMark l.language l.datatype)
    (plain : ∀ datatype ∈ l.datatype, IsPlainType datatype) :
    r.literalOf l.display.toList = { l with value := String.ofList (double l.value.toList) } := by
  obtain ⟨value, language, datatype⟩ := l
  simp only at marked plain
  cases marked with
  | bare =>
    rw [Literal.toList_display, Literal.mark_bare, literalOf, closeQuote_bare]
    simp only [Text.unescapeQuotes_escape]
    rfl
  | @language tag valid =>
    have filled := Literal.ne_empty_of_isLanguageTag valid
    have quote : '"' ∉ '@' :: tag.toList := by
      rw [← Literal.mark_language value filled]
      exact Literal.quote_notMem_mark (l := ⟨value, some tag, none⟩) (.language valid)
    have line : '\n' ∉ '@' :: tag.toList :=
      List.mem_cons.not.2
        (not_or.2 ⟨by decide, Text.notMem_of_all (all_of_isLanguageTag valid) (by decide)⟩)
    have allowed : literalSuffix? ('@' :: tag.toList) = some (some tag.toList, none) := by
      rw [literalSuffix?, Text.dropFinalNewline_eq_self line]
      exact if_pos valid
    rw [Literal.toList_display, Literal.mark_language value filled, literalOf,
      Text.closeQuote_append quote allowed]
    simp only [Text.unescapeQuotes_escape, Option.map_some, Option.map_none, String.ofList_toList]
  | datatype iri =>
    have plain := plain iri rfl
    have bracketed : isBracketed (Query.bracket iri.toList) = true :=
      Query.isBracketed_bracket iri.toList
    have own : r.datatypeOf (Query.bracket iri.toList) = iri := by
      rw [datatypeOf, if_neg (by simp [Query.bracket]), iriOf, if_neg (by simp [Query.bracket]),
        if_pos bracketed, inner, Query.tail_dropLast_bracket, String.ofList_toList]
    rw [toList_display_typed plain.filled, literalOf, closeQuote_typed plain]
    simp only [Text.unescapeQuotes_escape, Option.map_none, Option.map_some, own]

/-- Only a plain datatype is taken from a display text. -/
theorem isPlainType_of_literalOf_display (marked : ReadMark l.language l.datatype)
    (same : r.literalOf l.display.toList = l) :
    ∀ datatype ∈ l.datatype, IsPlainType datatype := by
  obtain ⟨value, language, datatype⟩ := l
  simp only at marked
  rintro iri ⟨⟩
  cases marked
  have filled : iri ≠ "" := by
    rintro rfl
    rw [Literal.toList_display, Literal.mark_emptyDatatype, literalOf, closeQuote_bare] at same
    cases congrArg Literal.datatype same
  rw [toList_display_typed filled, literalOf] at same
  generalize closing : Text.closeQuote literalSuffix? _ = closed at same
  rcases closed with - | ⟨front, language, datatype⟩
  · cases congrArg Literal.datatype same
  · -- The quotes in the value tell which quote has closed it.
    have undone : Text.unescapeQuotes front = value.toList := by
      have texts := congrArg (String.toList ∘ Literal.value) same
      simpa only [Function.comp, String.toList_ofList] using texts
    have count : (escape value.toList).count '"' = front.count '"' := by
      rw [Text.count_quote_escape, ← undone, Text.count_quote_unescapeQuotes]
    obtain ⟨rest, shape, allowed⟩ := Text.closeQuote_eq_some closing
    obtain ⟨rfl, rfl⟩ := Text.eq_of_count_quote shape count
    obtain ⟨inner, typed, solid, -⟩ := literalSuffix?_concat_iff.1 allowed
    obtain rfl : '<' :: iri.toList = inner := by simpa using typed
    refine ⟨filled, fun c mem => solid c (List.mem_cons_of_mem _ mem), ?_⟩
    rintro ⟨before, behind, whole⟩
    -- A quote inside the datatype would close the literal later.
    have text : escape value.toList ++ '"' :: (('^' :: '^' :: '<' :: iri.toList) ++ ['>']) =
        (escape value.toList ++ '"' :: '^' :: '^' :: '<' :: before) ++
          '"' :: (('^' :: '^' :: behind) ++ ['>']) := by
      rw [← whole]
      simp
    have late : literalSuffix? (('^' :: '^' :: behind) ++ ['>']) = some (none, some _) :=
      literalSuffix?_concat_iff.2 ⟨behind, rfl, fun c mem => solid c
        (List.mem_cons_of_mem _ (whole ▸ List.mem_append_right _ mem)), rfl⟩
    obtain ⟨more, b, closed⟩ := Text.exists_closeQuote_append late
      (escape value.toList ++ '"' :: '^' :: '^' :: '<' :: before)
    rw [← text, closing] at closed
    have length := congrArg (fun found => found.1.length) (Option.some.inj closed)
    simp at length

theorem readMark_of_literalSuffix? {cs : List Char} {language datatype : Option (List Char)}
    (h : literalSuffix? cs = some (language, datatype)) :
    ReadMark (language.map String.ofList) (datatype.map r.datatypeOf) := by
  rw [literalSuffix?] at h
  split at h
  · cases h
    exact .bare
  · split at h
    · rename_i tag _ valid
      cases h
      exact .language (by rwa [String.toList_ofList])
    · cases h
  · split at h
    · cases h
    · cases h
      exact .datatype _
  · cases h

theorem readMark_literalOf (value : List Char) {mark : List Char}
    (allowed : (literalSuffix? mark).isSome = true) :
    ReadMark (r.literalOf ('"' :: (value ++ '"' :: mark))).language
      (r.literalOf ('"' :: (value ++ '"' :: mark))).datatype := by
  obtain ⟨a, allowed⟩ := Option.isSome_iff_exists.1 allowed
  obtain ⟨more, ⟨language, datatype⟩, closed⟩ := Text.exists_closeQuote_append allowed value
  obtain ⟨rest, -, found⟩ := Text.closeQuote_eq_some closed
  rw [literalOf, closed]
  exact r.readMark_of_literalSuffix? found

theorem isBlank_of_mem_languageTag {tag : List Char} (h : isLanguageTag tag = true) :
    ∀ c ∈ tag, Text.isBlank c = false := by
  intro c mem
  refine Bool.eq_false_iff.2 fun blank => ?_
  refine Bool.eq_false_iff.1 (Expression.isTagChar_of_isBlank blank) ?_
  exact List.all_eq_true.1 (all_of_isLanguageTag h) c mem

/-- A display text does not end in a blank. -/
theorem isBlank_of_getLast?_mark (marked : ReadMark l.language l.datatype) :
    ∀ c ∈ ('"' :: l.mark).getLast?, Text.isBlank c = false := by
  obtain ⟨value, language, datatype⟩ := l
  simp only at marked
  intro c last
  cases marked with
  | bare =>
    rw [Literal.mark_bare] at last
    cases last
    decide
  | @language tag valid =>
    rw [Literal.mark_language value (Literal.ne_empty_of_isLanguageTag valid)] at last
    rcases List.mem_cons.1 (List.mem_of_getLast? last) with rfl | mem
    · decide
    · rcases List.mem_cons.1 mem with rfl | mem
      · decide
      · exact isBlank_of_mem_languageTag valid c mem
  | datatype iri =>
    by_cases filled : iri = ""
    · rw [filled, Literal.mark_emptyDatatype] at last
      cases last
      decide
    · rw [Literal.mark_datatype value filled, Query.bracket, ← List.cons_append, ← List.cons_append,
        ← List.cons_append, ← List.cons_append, List.getLast?_concat] at last
      cases last
      decide

theorem resolve_display (marked : ReadMark l.language l.datatype) :
    r.resolve l.display = .literal (r.literalOf l.display.toList) := by
  have opening : l.display.toList.head? = some '"' := by
    rw [Literal.toList_display, List.head?_cons]
  have closing : ∀ c ∈ l.display.toList.getLast?, Text.isBlank c = false := by
    intro c last
    rw [Literal.toList_display, ← List.cons_append, List.getLast?_append_cons] at last
    exact isBlank_of_getLast?_mark marked c last
  have whole : Text.stripBoth Text.isBlank l.display.toList = l.display.toList :=
    Text.stripBoth_eq_self (by simp [opening]; decide) closing
  rw [resolve, whole, termOf, if_pos opening]

/-- The display text of a literal that was read from closed quotes is read again. The reader leaves
every backslash doubled, so it is the same literal exactly if there is none, and if its datatype, if
there is one, is plain. -/
theorem resolve_display_iff {token : String} (closed : IsClosed token) :
    ∃ l, r.resolve token = .literal l ∧
      (r.resolve l.display = .literal l ↔
        '\\' ∉ l.value.toList ∧ ∀ datatype ∈ l.datatype, IsPlainType datatype) ∧
      ((∀ datatype ∈ l.datatype, IsPlainType datatype) →
        r.resolve l.display =
          .literal { l with value := String.ofList (double l.value.toList) }) := by
  obtain ⟨value, mark, text, allowed⟩ := closed
  have marked := r.readMark_literalOf value allowed
  have again := r.resolve_display marked
  refine ⟨r.literalOf ('"' :: (value ++ '"' :: mark)), by rw [resolve, text]; rfl, ?_, ?_⟩
  · generalize r.literalOf ('"' :: (value ++ '"' :: mark)) = l at marked again
    rw [again, Term.literal.injEq]
    constructor
    · intro same
      have plain := r.isPlainType_of_literalOf_display marked same
      rw [r.literalOf_display marked plain] at same
      have values := congrArg (String.toList ∘ Literal.value) same
      simp only [Function.comp, String.toList_ofList] at values
      exact ⟨Text.double_eq_self_iff.1 values, plain⟩
    · rintro ⟨slash, plain⟩
      rw [r.literalOf_display marked plain, Text.double_eq_self slash, String.ofList_toList]
  · intro plain
    rw [again, r.literalOf_display marked plain]

/-- Quotes in the value and a datatype that was written with a prefix come back. -/
theorem resolve_display_quotes :
    let token := "\"say \\\"yes\\\"\"^^xsd:string"
    let l : Literal := ⟨"say \"yes\"", none, some "http://www.w3.org/2001/XMLSchema#string"⟩
    IsClosed token ∧ default.resolve token = .literal l ∧
      default.resolve l.display = .literal l := by
  intro token l
  have closed : IsClosed token :=
    ⟨"say \\\"yes\\\"".toList, "^^xsd:string".toList, by decide +kernel, by decide +kernel⟩
  obtain ⟨read, found, same, -⟩ := default.resolve_display_iff closed
  have known : default.resolve token = .literal l := by decide +kernel
  obtain rfl : l = read := Term.literal.inj (known.symm.trans found)
  refine ⟨closed, known, same.2 ⟨by decide, ?_⟩⟩
  rintro datatype ⟨⟩
  have solid : "http://www.w3.org/2001/XMLSchema#string".toList.all (fun c => !Text.isBlank c) :=
    by decide +kernel
  refine ⟨by decide, fun c mem => ?_, by decide +kernel⟩
  simpa using List.all_eq_true.1 solid c mem

/-- A backslash is written twice and read as two. -/
theorem not_resolve_display :
    ¬ ∀ (r : Resolver) (token : String) (l : Literal), IsClosed token →
      r.resolve token = .literal l → r.resolve l.display = .literal l := by
  intro same
  have closed : IsClosed "\"a\\b\"" := ⟨"a\\b".toList, [], by decide +kernel, by decide +kernel⟩
  have again := same default _ ⟨"a\\b", none, none⟩ closed (by decide +kernel)
  exact absurd again (by decide +kernel)

end Resolver

end Ontogram
