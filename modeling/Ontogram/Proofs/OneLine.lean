import Mathlib.Algebra.Order.BigOperators.Group.List
import Mathlib.Algebra.Order.Group.Nat
import Ontogram.Encoding
import Ontogram.Proofs.TurtleReading

set_option autoImplicit false

namespace Ontogram

open Text (isBlank stripBoth)

/-- Whether a text has no line break. -/
def Text.IsOneLine (s : String) : Prop :=
  '\n' ∉ s.toList

instance (s : String) : Decidable (Text.IsOneLine s) :=
  inferInstanceAs (Decidable ('\n' ∉ s.toList))

open Text (IsOneLine)

namespace Text

theorem IsOneLine.append {a b : String} (ha : IsOneLine a) (hb : IsOneLine b) :
    IsOneLine (a ++ b) := by
  simpa [IsOneLine] using ⟨ha, hb⟩

theorem isOneLine_ofList {cs : List Char} : IsOneLine (String.ofList cs) ↔ '\n' ∉ cs := by
  rw [IsOneLine, String.toList_ofList]

/-- A line break is a blank. -/
theorem newline_notMem {cs : List Char} (h : ∀ c ∈ cs, isBlank c = false) : '\n' ∉ cs :=
  fun mem => absurd (h '\n' mem) (by decide)

theorem mem_of_mem_stripBoth {p : Char → Bool} {cs : List Char} {c : Char}
    (h : c ∈ stripBoth p cs) : c ∈ cs := by
  have inner := (List.dropWhile_sublist p).subset (List.mem_reverse.1 h)
  exact (List.dropWhile_sublist p).subset (List.mem_reverse.1 inner)

theorem mem_intercalate {sep : List Char} {parts : List (List Char)} {c : Char}
    (h : c ∈ sep.intercalate parts) : c ∈ sep ∨ ∃ part ∈ parts, c ∈ part := by
  induction parts with
  | nil => simp at h
  | cons part parts ih =>
    by_cases last : parts = []
    · subst last
      exact Or.inr ⟨part, List.mem_cons_self, by simpa using h⟩
    · rw [List.intercalate_cons_of_ne_nil last, List.append_assoc, List.mem_append,
        List.mem_append] at h
      rcases h with h | h | h
      · exact Or.inr ⟨part, List.mem_cons_self, h⟩
      · exact Or.inl h
      · exact (ih h).imp_right fun ⟨w, mem, there⟩ => ⟨w, List.mem_cons_of_mem part mem, there⟩

end Text

/-- Whether both the name and the namespace of a prefix have no line break. -/
def IsOneLineEntry (entry : String × String) : Prop :=
  IsOneLine entry.1 ∧ IsOneLine entry.2

instance (entry : String × String) : Decidable (IsOneLineEntry entry) :=
  inferInstanceAs (Decidable (_ ∧ _))

/-- Whether the tag and the datatype of a literal have no line break. -/
structure Literal.IsOneLine (l : Literal) : Prop where
  language : ∀ tag ∈ l.language, Text.IsOneLine tag
  datatype : ∀ iri ∈ l.datatype, Text.IsOneLine iri

/-- Whether nothing in a term that is printed as it stands has a line break. -/
inductive Term.IsOneLine : Term → Prop
  | iri {value : String} (h : Text.IsOneLine value) : Term.IsOneLine (.iri value)
  | blank {label : String} (h : Text.IsOneLine label) : Term.IsOneLine (.blank label)
  | literal {l : Literal} (h : l.IsOneLine) : Term.IsOneLine (.literal l)
  | list {items : List Term} (h : ∀ t ∈ items, Term.IsOneLine t) : Term.IsOneLine (.list items)

/-- Whether the three terms of a triple have no line break. -/
structure Triple.IsOneLine (t : Triple) : Prop where
  subject : t.subject.IsOneLine
  predicate : t.predicate.IsOneLine
  object : t.object.IsOneLine

namespace Turtle

variable {prefixes : Table String}

section Line

variable (table : ∀ entry ∈ prefixes.entries, IsOneLineEntry entry)
include table

/-- The namespaces of prefixes hold no line break that an IRI could lose. -/
theorem isOneLine_formatIri_iff {iri : String} :
    IsOneLine (formatIri prefixes iri) ↔ IsOneLine iri := by
  unfold IsOneLine
  obtain printed | ⟨entry, mem, rest, whole, printed⟩ := formatIri_cases prefixes iri
  · simp [printed]
  · have name : '\n' ∉ entry.1.toList := (table entry mem).1
    have space : '\n' ∉ entry.2.toList := (table entry mem).2
    simp [printed, ← whole, name, space]

theorem isOneLine_suffix {l : Literal} (h : l.IsOneLine) :
    IsOneLine (l.suffix (formatIri prefixes)) := by
  unfold Literal.suffix
  cases tagged : l.language.filter (· ≠ "") with
  | some tag =>
    have text := h.language tag (Option.filter_eq_some_iff.1 tagged).1
    exact IsOneLine.append (by decide) text
  | none =>
    cases typed : l.datatype.filter (· ≠ "") with
    | some iri =>
      have text := h.datatype iri (Option.filter_eq_some_iff.1 typed).1
      exact IsOneLine.append (by decide) ((isOneLine_formatIri_iff table).2 text)
    | none => exact (by decide : IsOneLine "")

omit table in
theorem newline_notMem_escapeChar (c : Char) : '\n' ∉ escapeChar c := by
  unfold escapeChar Text.escapeChar
  repeat' split
  all_goals simp_all [eq_comm]

theorem isOneLine_formatLiteral {l : Literal} (h : l.IsOneLine) :
    IsOneLine (formatLiteral prefixes l) := by
  refine IsOneLine.append (Text.isOneLine_ofList.2 ?_) (isOneLine_suffix table h)
  simp [newline_notMem_escapeChar]

theorem isOneLine_formatTerm {t : Term} (h : t.IsOneLine) : IsOneLine (formatTerm prefixes t) := by
  induction h with
  | iri text => exact (isOneLine_formatIri_iff table).2 text
  | blank text => exact IsOneLine.append (by decide) text
  | literal l => exact isOneLine_formatLiteral table l
  | @list items _ each =>
    cases items with
    | nil => exact (by decide : IsOneLine "()")
    | cons t items =>
      rw [IsOneLine, formatTerm_list]
      simp only [List.mem_cons, List.mem_append, List.mem_flatMap, not_or]
      refine ⟨by decide, by decide, ?_, by decide, by decide⟩
      rintro ⟨u, mem, there | blank | none⟩
      · exact each u (List.mem_cons.2 mem) there
      · cases blank
      · cases none

theorem isOneLine_tripleLine {t : Triple} (h : t.IsOneLine) :
    IsOneLine (tripleLine prefixes t) := by
  have subject := isOneLine_formatTerm table h.subject
  have predicate := isOneLine_formatTerm table h.predicate
  have object := isOneLine_formatTerm table h.object
  exact (((((subject.append (by decide)).append predicate).append (by decide)).append
    object).append (by decide))

end Line

theorem isOneLine_subject_of_tripleLine {t : Triple} (h : IsOneLine (tripleLine prefixes t)) :
    IsOneLine (formatTerm prefixes t.subject) := by
  simp only [IsOneLine, tripleLine, String.toList_append, List.mem_append, not_or] at h ⊢
  exact h.1.1.1.1.1

theorem isOneLine_prefixLine {entry : String × String} (h : IsOneLineEntry entry) :
    IsOneLine (prefixLine entry) := by
  have name := IsOneLine.append (a := "@prefix ") (by decide) h.1
  exact ((name.append (by decide)).append h.2).append (by decide)

/-- The line breaks of a text are those behind its lines exactly when no line holds one. -/
theorem count_newline_iff (lines : List String) :
    (lines.flatMap fun line => line.toList ++ ['\n']).count '\n' = lines.length ↔
      ∀ line ∈ lines, IsOneLine line := by
  have inside (line : String) : line.toList.count '\n' = 0 ↔ IsOneLine line := List.count_eq_zero
  have count : (lines.flatMap fun line => line.toList ++ ['\n']).count '\n' =
      (lines.map fun line => line.toList.count '\n').sum + lines.length := by
    induction lines with
    | nil => rfl
    | cons line lines ih =>
      rw [List.flatMap_cons, List.count_append, ih, List.count_append, List.map_cons,
        List.sum_cons, List.length_cons, List.count_singleton_self]
      omega
  rw [count, Nat.add_eq_right, List.sum_eq_zero_iff, List.forall_mem_map]
  exact forall₂_congr fun line _ => inside line

/-- A text has a line for each prefix, an empty one, and a line for each statement, exactly when no
statement holds a line break. -/
theorem count_newline_format_iff (table : ∀ entry ∈ prefixes.entries, IsOneLineEntry entry)
    (ts : List Triple) :
    (format prefixes ts).toList.count '\n' = prefixes.entries.length + 1 + ts.length ↔
      ∀ t ∈ ts, IsOneLine (tripleLine prefixes t) := by
  have lines : (prefixes.entries.map prefixLine ++ [""] ++ ts.map (tripleLine prefixes)).length =
      prefixes.entries.length + 1 + ts.length := by
    simp only [List.length_append, List.length_map, List.length_singleton]
  have opening : ∀ line ∈ prefixes.entries.map prefixLine ++ [""], IsOneLine line :=
    List.forall_mem_append.2 ⟨List.forall_mem_map.2 fun entry mem =>
      isOneLine_prefixLine (table entry mem), List.forall_mem_singleton.2 (by decide)⟩
  rw [format_eq_flatMap, ← lines, count_newline_iff, List.forall_mem_append, List.forall_mem_map]
  exact and_iff_right opening

end Turtle

namespace Resolver

/-- Whether a token has no line break if it is an IRI as it stands. -/
def KeepsLine (token : String) : Prop :=
  let cs := stripBoth isBlank token.toList
  isBracketed cs = true ∨ isAbsolute cs = true → '\n' ∉ cs

instance (token : String) : Decidable (KeepsLine token) :=
  inferInstanceAs (Decidable (_ → _))

theorem keepsLine_of_notMem {token : String} (h : '\n' ∉ stripBoth isBlank token.toList) :
    KeepsLine token :=
  fun _ => h

/-- Whether the base and the prefixes of a resolver have no line break. -/
structure IsOneLine (r : Resolver) : Prop where
  base : Text.IsOneLine r.base
  prefixes : ∀ entry ∈ r.prefixes.entries, IsOneLineEntry entry

theorem newline_notMem_localName (cs : List Char) : '\n' ∉ localName cs := by
  have words : '\n' ∉ ['_'].intercalate (Text.wordsOf cs) := by
    intro mem
    rcases Text.mem_intercalate mem with mem | ⟨w, word, mem⟩
    · simp at mem
    · exact absurd (Text.not_isBlank_of_mem_wordsOf word mem) (by decide)
  unfold localName
  simp only
  split
  · decide
  · exact words

theorem newline_notMem_owlWords : ∀ word ∈ Vocabulary.owlWords, Text.IsOneLine word := by
  decide +kernel

theorem newline_notMem_literalSuffix {cs : List Char}
    {language datatype : Option (List Char)}
    (h : literalSuffix? cs = some (language, datatype)) :
    (∀ tag ∈ language, '\n' ∉ tag) ∧ ∀ iri ∈ datatype, ∀ c ∈ iri, isBlank c = false := by
  unfold literalSuffix? at h
  split at h
  · cases h
    simp
  · rename_i tag _
    split at h
    · rename_i plain
      cases h
      refine ⟨?_, by simp⟩
      rintro _ ⟨⟩
      exact Text.notMem_of_all (all_of_isLanguageTag plain) (by decide)
    · cases h
  · rename_i datatype _
    split at h
    · cases h
    · rename_i filled
      cases h
      simp only [Bool.or_eq_true, List.any_eq_true, not_or, not_exists, not_and] at filled
      refine ⟨by simp, ?_⟩
      rintro _ ⟨⟩ c mem
      simpa using filled.2 c mem
  · cases h

section Line

variable {r : Resolver} (line : r.IsOneLine)
include line

theorem isOneLine_atBase (cs : List Char) : Text.IsOneLine (r.atBase cs) :=
  line.base.append (Text.isOneLine_ofList.2 (newline_notMem_localName cs))

/-- Only what stands in brackets or has a scheme can bring a line break into an IRI. -/
theorem isOneLine_iriOf {cs : List Char}
    (h : isBracketed cs = true ∨ isAbsolute cs = true → '\n' ∉ cs) :
    Text.IsOneLine (r.iriOf cs) := by
  unfold iriOf
  split
  · exact isOneLine_atBase line cs
  split
  · rename_i bracketed
    refine Text.isOneLine_ofList.2 fun mem => h (Or.inl bracketed) ?_
    exact List.mem_of_mem_tail (List.dropLast_subset _ mem)
  split
  · rename_i absolute
    exact Text.isOneLine_ofList.2 (h (Or.inr absolute))
  split
  · exact isOneLine_atBase line _
  split
  · rename_i colon
    have plain : ∀ c ∈ cs, isBlank c = false := by
      simpa using (Bool.and_eq_true_iff.1 colon).2
    simp only
    split
    · rename_i space found
      have name := (line.prefixes _ (Table.mem_of_valueIn found)).2
      refine name.append (Text.isOneLine_ofList.2 fun mem => ?_)
      exact Text.newline_notMem plain (List.mem_of_mem_drop mem)
    · exact Text.isOneLine_ofList.2 (Text.newline_notMem plain)
  split
  · rename_i word
    exact IsOneLine.append (by decide) (newline_notMem_owlWords _ word)
  · exact isOneLine_atBase line cs

theorem isOneLine_literalOf (cs : List Char) : (r.literalOf cs).IsOneLine := by
  unfold literalOf
  split
  · rename_i rest
    split
    · rename_i value language datatype found
      obtain ⟨suffix, -, known⟩ := Text.closeQuote_eq_some found
      obtain ⟨tag, plain⟩ := newline_notMem_literalSuffix known
      constructor
      · intro text written
        obtain ⟨cs, mem, rfl⟩ := Option.map_eq_some_iff.1 written
        exact Text.isOneLine_ofList.2 (tag cs mem)
      · intro text written
        obtain ⟨cs, mem, rfl⟩ := Option.map_eq_some_iff.1 written
        have single := Text.newline_notMem (plain cs mem)
        unfold datatypeOf
        split
        · exact Text.isOneLine_ofList.2 single
        · exact isOneLine_iriOf line fun _ => single
    · exact ⟨by simp, by simp⟩
  · exact ⟨by simp, by simp⟩

theorem isOneLine_termOf {cs : List Char}
    (h : isBracketed cs = true ∨ isAbsolute cs = true → '\n' ∉ cs) : (r.termOf cs).IsOneLine := by
  unfold termOf
  split
  · exact .literal (isOneLine_literalOf line cs)
  · exact .iri (isOneLine_iriOf line h)

theorem isOneLine_resolve {token : String} (h : KeepsLine token) : (r.resolve token).IsOneLine :=
  isOneLine_termOf line h

theorem isOneLine_resolveDatatype {token : String} (h : KeepsLine token) :
    (r.resolveDatatype token).IsOneLine := by
  unfold resolveDatatype
  split
  · rename_i name known
    have word : ∀ name ∈ Vocabulary.datatypeNames, Text.IsOneLine name := by decide +kernel
    exact .iri (IsOneLine.append (by decide) (word name (List.mem_of_find?_eq_some known)))
  · exact isOneLine_resolve line h

theorem isOneLine_resolveValue {token : String} (h : KeepsLine token) :
    (r.resolveValue token).IsOneLine := by
  have typed (value : String) {name : String} (word : Text.IsOneLine name) :
      (Term.literal ⟨value, none, some (Namespace.xsd ++ name)⟩).IsOneLine := by
    refine .literal ⟨by simp, ?_⟩
    rintro _ ⟨⟩
    exact IsOneLine.append (by decide) word
  unfold resolveValue
  simp only
  split
  · exact .literal (isOneLine_literalOf line _)
  split
  · exact typed _ (by decide)
  split
  · exact typed _ (by decide)
  split
  · exact typed _ (by decide)
  · exact .iri (isOneLine_iriOf line h)

end Line

end Resolver

end Ontogram
