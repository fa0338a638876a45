import Ontogram.Proofs.EncodedTerms
import Ontogram.Proofs.Lexeme
import Ontogram.Proofs.OneLine

set_option autoImplicit false

namespace Ontogram

open Text (isBlank stripBoth IsOneLine)
open Vocabulary (owl)
open Resolver (KeepsLine)

namespace Text

theorem head?_stripBoth {c : Char} (h : isBlank c = false) (cs : List Char) :
    (stripBoth isBlank (c :: cs)).head? = some c := by
  have left : stripLeft isBlank (c :: cs) = c :: cs := List.dropWhile_cons_of_neg (by simp [h])
  rw [stripBoth, left, stripRight, List.reverse_cons, List.dropWhile_append]
  split <;> simp [h]

/-- A text that starts a word and has no other is the word, with blanks behind it. -/
theorem eq_append_of_length_wordsOf {c : Char} {cs : List Char} (h : isBlank c = false)
    (single : (wordsOf (c :: cs)).length ≤ 1) :
    ∃ word gap, c :: cs = word ++ gap ∧ (∀ d ∈ word, isBlank d = false) ∧
      ∀ d ∈ gap, isBlank d = true := by
  induction cs generalizing c with
  | nil => exact ⟨[c], [], rfl, by simpa using h, by simp⟩
  | cons d cs ih =>
    rw [wordsOf, if_neg (by simp [h])] at single
    by_cases ends : isBlank d = true
    · rw [if_pos (by simp [ends]), List.length_cons] at single
      have none : wordsOf (d :: cs) = [] := List.eq_nil_of_length_eq_zero (by omega)
      refine ⟨[c], d :: cs, rfl, by simpa using h, ?_⟩
      exact List.dropWhile_eq_nil_iff.1 (dropWhile_isBlank_of_wordsOf_eq_nil none)
    · rw [if_neg (by simp [ends])] at single
      have rest : (wordsOf (d :: cs)).length ≤ 1 := by
        split at single
        · rename_i words
          simpa [words] using single
        · rename_i words
          simp [words]
      obtain ⟨word, gap, whole, plain, blank⟩ := ih (by simpa using ends) rest
      exact ⟨c :: word, gap, by rw [whole, List.cons_append],
        List.forall_mem_cons.2 ⟨h, plain⟩, blank⟩

theorem not_isBlank_of_length_wordsOf {cs : List Char} (single : (wordsOf cs).length ≤ 1) :
    ∀ c ∈ stripBoth isBlank cs, isBlank c = false := by
  induction cs with
  | nil => simp [stripBoth, stripLeft, stripRight]
  | cons c cs ih =>
    by_cases blank : isBlank c = true
    · rw [wordsOf, if_pos blank] at single
      have same : stripBoth isBlank (c :: cs) = stripBoth isBlank cs := by
        rw [stripBoth, stripLeft, List.dropWhile_cons_of_pos blank]
        rfl
      rw [same]
      exact ih single
    · have first : isBlank c = false := by simpa using blank
      obtain ⟨word, gap, whole, plain, gaps⟩ := eq_append_of_length_wordsOf first single
      have left : stripLeft isBlank (c :: cs) = c :: cs := List.dropWhile_cons_of_neg blank
      have none : gap.reverse.dropWhile isBlank = [] :=
        List.dropWhile_eq_nil_iff.2 fun d mem => gaps d (List.mem_reverse.1 mem)
      intro d mem
      rw [stripBoth, left, whole, stripRight, List.reverse_append, List.dropWhile_append, none,
        if_pos List.isEmpty_nil] at mem
      have inside := (List.dropWhile_sublist _).subset (List.mem_reverse.1 mem)
      exact plain d (List.mem_reverse.1 inside)

theorem head?_of_quotedText? {cs text rest : List Char} (h : quotedText? cs = some (text, rest)) :
    text.head? = some '"' := by
  unfold quotedText? at h
  split at h
  · obtain ⟨tail, -, whole⟩ := Option.map_eq_some_iff.1 h
    exact (Prod.mk.inj whole).1 ▸ rfl
  · cases h

theorem not_isBlank_of_bracketed? {cs text rest : List Char}
    (h : bracketed? cs = some (text, rest)) : ∀ c ∈ text, isBlank c = false := by
  obtain ⟨name, rfl, chars⟩ := exists_name_of_bracketed? h
  refine List.forall_mem_cons.2 ⟨by decide, List.forall_mem_append.2
    ⟨fun c hc => ?_, List.forall_mem_singleton.2 (by decide)⟩⟩
  have char := chars c hc
  simp only [isBracketChar, Bool.and_eq_true, Bool.not_eq_true'] at char
  exact char.1.1

end Text

namespace Resolver

theorem keepsLine_of_head? {token : String}
    (h : (stripBoth isBlank token.toList).head? = some '"') : KeepsLine token := by
  obtain ⟨rest, whole⟩ := List.head?_eq_some_iff.1 h
  unfold KeepsLine
  simp only [whole]
  rintro (bracketed | absolute)
  · simp [isBracketed] at bracketed
  · simp [isAbsolute, schemes] at absolute

theorem keepsLine_of_plain {token : String} (h : ∀ c ∈ token.toList, isBlank c = false) :
    KeepsLine token :=
  keepsLine_of_notMem (Text.newline_notMem fun c mem => h c (Text.mem_of_mem_stripBoth mem))

/-- One word has no line break, whatever stands around it. -/
theorem keepsLine_of_single {token : String} (h : (Text.words token).length = 1) :
    KeepsLine token := by
  refine keepsLine_of_notMem (Text.newline_notMem (Text.not_isBlank_of_length_wordsOf ?_))
  rw [Text.words, List.length_map] at h
  exact Nat.le_of_eq h

end Resolver

namespace Expression

/-- A token is a quoted text, or it has no blank. -/
theorem cut_cases {c : Char} (h : isBlank c = false) (cs : List Char) :
    (cut c cs).1.head? = some '"' ∨ ∀ d ∈ (cut c cs).1, isBlank d = false := by
  unfold cut
  split
  · exact Or.inr (by simpa using h)
  split
  · rename_i found taken
    rcases Option.or_eq_some_iff.1 taken with taken | ⟨-, taken⟩
    · left
      simp only [literal?, Text.marked?, Option.bind_eq_bind, Option.bind_eq_some_iff] at taken
      obtain ⟨⟨body, rest⟩, quoted, taken⟩ := taken
      have front : body.head? = some '"' := Text.head?_of_quotedText? quoted
      split at taken <;> cases Option.some.inj taken <;> simp [front, List.head?_append]
    · right
      exact Text.not_isBlank_of_bracketed? taken
  · split
    · exact Or.inr (by simpa using h)
    · right
      refine List.forall_mem_cons.2 ⟨h, fun d mem => ?_⟩
      have word := List.mem_takeWhile_imp mem
      simp only [isWordChar, Bool.and_eq_true, Bool.not_eq_true'] at word
      exact word.1.1.1

theorem keepsLine_cut {c : Char} (visible : isBlank c = false) (cs : List Char) :
    KeepsLine (String.ofList (cut c cs).1) := by
  rcases cut_cases visible cs with quoted | plain
  · obtain ⟨rest, whole⟩ := List.head?_eq_some_iff.1 quoted
    apply Resolver.keepsLine_of_head?
    rw [String.toList_ofList, whole]
    exact Text.head?_stripBoth (by decide) rest
  · exact Resolver.keepsLine_of_plain (by simpa using plain)

/-- No token can break a line. -/
theorem keepsLine_of_mem_tokens {s token : String} (h : token ∈ tokens s) : KeepsLine token := by
  have each : ∀ cs ∈ tokensOf (Text.expandTabs s.toList), KeepsLine (String.ofList cs) :=
    tokenizes.forall_mem (fun _ cs visible => keepsLine_cut visible cs) _
  obtain ⟨cs, mem, rfl⟩ := List.mem_map.1 h
  exact each cs mem

end Expression

/-- Whether no text of an annotation can break a line. -/
structure Annotation.KeepsLine (a : Annotation) : Prop where
  property : Resolver.KeepsLine a.property
  value : Resolver.KeepsLine a.value
  language : ∀ tag ∈ a.language, IsOneLine tag

/-- Whether no text of an attribute can break a line. -/
structure Attribute.KeepsLine (a : Attribute) : Prop where
  name : Resolver.KeepsLine a.name
  type : Resolver.KeepsLine a.type

/-- Whether no text of an entity can break a line. -/
structure Entity.KeepsLine (e : Entity) : Prop where
  subject : Resolver.KeepsLine e.subjectText
  annotations : ∀ a ∈ e.annotations, a.KeepsLine
  attributes : ∀ a ∈ e.attributes, a.KeepsLine
  axioms : ∀ a ∈ e.axioms, ∀ s ∈ a.leaves, Resolver.KeepsLine s

/-- Whether no setting of an ontology can break a line. -/
structure Metadata.KeepsLine (m : Metadata) : Prop where
  base : ∀ s ∈ m.baseIri, IsOneLine s
  baseName : ∀ s ∈ m.defaultPrefix, IsOneLine s
  ontology : ∀ s ∈ m.ontologyIri, IsOneLine s
  version : ∀ s ∈ m.versionIri, IsOneLine s
  language : ∀ s ∈ m.language, IsOneLine s
  namespaces : ∀ entry ∈ m.namespaces.entries, IsOneLineEntry entry
  annotations : ∀ a ∈ m.annotations, a.KeepsLine

theorem Annotation.KeepsLine.names {a : Annotation} (h : a.KeepsLine) :
    a.Names Resolver.KeepsLine IsOneLine :=
  ⟨h.property, fun _ => h.value, h.language⟩

theorem Entity.KeepsLine.names {e : Entity} (h : e.KeepsLine) :
    e.Names Resolver.KeepsLine IsOneLine where
  subject := h.subject
  annotations a mem := (h.annotations a mem).names
  attributes a mem := ⟨(h.attributes a mem).name, (h.attributes a mem).type⟩
  axioms a mem := ⟨h.axioms a mem, fun _ => Resolver.keepsLine_of_single⟩

theorem Triple.Over.isOneLine {t : Triple} (h : t.Over Term.IsOneLine) : t.IsOneLine :=
  ⟨h.subject, h.predicate, h.object⟩

/-- Whether the naming defaults hold no line break. -/
structure Naming.IsOneLine (d : Naming) : Prop where
  base : Text.IsOneLine d.base
  baseName : Text.IsOneLine d.baseName
  language : Text.IsOneLine d.language
  namespaces : ∀ entry ∈ d.namespaces, IsOneLineEntry entry

section Settings

theorem Naming.IsOneLine.withMetadata {d : Naming} {m : Metadata} (hd : d.IsOneLine)
    (hm : m.KeepsLine) : (d.withMetadata m).IsOneLine where
  base := Text.orElse_of hm.base hd.base
  baseName := Text.orElse_of hm.baseName hd.baseName
  language := Text.orElse_of hm.language hd.language
  namespaces entry mem := by
    rcases Table.mem_entries_insertAll mem with mem | mem
    · exact hd.namespaces entry ((Table.mem_entries_insertAll mem).resolve_left List.not_mem_nil)
    · exact hm.namespaces entry mem

theorem isOneLine_closed {base : String} (h : IsOneLine base) :
    IsOneLine (Namespace.closed base) := by
  unfold Namespace.closed
  split
  · decide
  split
  · exact h
  · exact h.append (by decide)

theorem Naming.IsOneLine.resolver {d : Naming} (h : d.IsOneLine) : d.resolver.IsOneLine where
  base := isOneLine_closed h.base
  prefixes entry mem := by
    have standard : ∀ entry ∈ Namespace.standard, IsOneLineEntry entry := by decide +kernel
    rcases Table.mem_entries_insertAll mem with mem | mem
    · rcases Table.mem_put mem with rfl | mem
      · refine ⟨?_, isOneLine_closed h.base⟩
        simp only
        split
        · decide
        · exact h.baseName
      · exact standard entry ((Table.mem_entries_insertAll mem).resolve_left List.not_mem_nil)
    · exact h.namespaces entry mem

end Settings

namespace Encoding

theorem isOneLine_textLiteral (value : String) {language : Option String}
    (h : ∀ tag ∈ language, IsOneLine tag) : (textLiteral value language).IsOneLine :=
  .literal ⟨fun _ known => h _ (Text.mem_of_nonEmpty known), by simp⟩

theorem isOneLine_toString (n : Int) : IsOneLine (toString n) := by
  have digits (m : Nat) : IsOneLine m.repr := by
    rw [IsOneLine, Nat.toList_repr]
    intro mem
    have digit := Nat.isDigit_of_mem_toDigits (by decide) (by decide) mem
    exact absurd digit (by decide)
  cases n with
  | ofNat m => exact digits m
  | negSucc m => exact IsOneLine.append (by decide) (digits (m + 1))

section Diagram

variable {r : Resolver} (line : r.IsOneLine)
include line

theorem isOneLine_listOf (s : String) : (Expression.listOf r s).IsOneLine := by
  refine .list fun t ht => ?_
  obtain ⟨token, mem, rfl⟩ := List.mem_map.1 ht
  exact Resolver.isOneLine_resolve line
    (Expression.keepsLine_of_mem_tokens (List.mem_filter.1 mem).1)

/-- What is read from texts that keep their line keeps it, and so does all else in an encoding. -/
theorem permits_keepsLine : Permits r KeepsLine IsOneLine Term.IsOneLine where
  name _ := Resolver.isOneLine_resolve line
  datatype _ := Resolver.isOneLine_resolveDatatype line
  value _ := Resolver.isOneLine_resolveValue line
  node n := .blank (IsOneLine.append (by decide) (isOneLine_toString n))
  word := by
    have words : ∀ w ∈ ["Restriction", "Thing"], IsOneLine (Namespace.owl ++ w) := by decide
    exact fun w mem => .iri (words w mem)
  truth := .literal ⟨by simp, by rintro _ ⟨⟩; decide⟩
  count n := .literal ⟨by simp, by rintro _ ⟨⟩; decide⟩
  list _ := .list
  vocabulary := by
    have spaces : ∀ space ∈ [Namespace.rdf, Namespace.rdfs, Namespace.owl, Namespace.skos],
        IsOneLine space := by decide
    exact fun space mem name plain => .iri ((spaces space mem).append (Text.newline_notMem plain))
  quoted cs := .literal (Resolver.isOneLine_literalOf line cs)
  text value _ := isOneLine_textLiteral value
  names := isOneLine_listOf line

variable {language : String} (tag : IsOneLine language)

include tag in
theorem isOneLine_emitEntity {e : Entity} (h : e.KeepsLine) (n : Int) :
    ∀ t ∈ (emitEntity r language e n).triples, t.IsOneLine :=
  fun t ht => ((permits_keepsLine line).emitEntity tag h.names n t ht).isOneLine

include tag in
theorem isOneLine_emitHeader {m : Metadata} (h : m.KeepsLine) (n : Int) :
    ∀ t ∈ (emitHeader r language m n).triples, t.IsOneLine := by
  have bare : IsOneLine (String.ofList (Text.stripRight (fun c => c == '#' || c == '/')
      r.base.toList)) := by
    refine Text.isOneLine_ofList.2 fun mem => line.base ?_
    exact List.mem_reverse.1 ((List.dropWhile_sublist _).subset (List.mem_reverse.1 mem))
  have own : (ontologyOf r m).IsOneLine := .iri (Text.orElse_of h.ontology bare)
  have version (iri : String) (known : m.versionIri.bind Text.nonEmpty = some iri) :
      (Term.iri iri).IsOneLine := .iri (h.version _ (Text.mem_of_nonEmpty known))
  exact fun t ht => ((permits_keepsLine line).emitHeader tag own version
    (fun a mem => (h.annotations a mem).names) n t ht).isOneLine

theorem isOneLine_emitRelations (inferred : Bool) {entities : List Entity}
    (subjects : ∀ e ∈ entities, KeepsLine e.subjectText) {relations : List Relation}
    (labels : ∀ e ∈ relations, KeepsLine e.label) (n : Int) :
    ∀ t ∈ (emitRelations r inferred entities relations n).triples, t.IsOneLine :=
  fun t ht =>
    ((permits_keepsLine line).emitRelations inferred subjects labels n t ht).isOneLine

end Diagram

/-- A printed encoding has a line for each prefix and each triple, and an empty one between them. -/
theorem count_newline_build {d : Naming} {entities : List Entity} {relations : List Relation}
    {metadata : Option Metadata} (naming : d.IsOneLine) (settings : ∀ m ∈ metadata, m.KeepsLine)
    (texts : ∀ e ∈ entities, e.KeepsLine) (labels : ∀ e ∈ relations, KeepsLine e.label) :
    let t := build d entities relations metadata
    (Turtle.format t.prefixes t.triples).toList.count '\n' =
      t.prefixes.entries.length + 1 + t.triples.length := by
  have own : ((metadata.map d.withMetadata).getD d).IsOneLine := by
    cases metadata with
    | none => exact naming
    | some m => exact naming.withMetadata (settings m rfl)
  have line := own.resolver
  refine (Turtle.count_newline_format_iff line.prefixes _).2 fun t ht =>
    Turtle.isOneLine_tripleLine line.prefixes ?_
  revert t
  simp only [build, withResolver, mem_firsts, emit, Emission.forall_andThen]
  refine ⟨⟨?_, ?_⟩, ?_⟩
  · cases metadata with
    | none => exact fun _ ht => absurd ht List.not_mem_nil
    | some m => exact isOneLine_emitHeader line own.language (settings m rfl) 0
  · exact Emission.forall_each_of_mem
      (fun e mem => isOneLine_emitEntity line own.language (texts e mem)) _
  · exact isOneLine_emitRelations line _ (fun e mem => (texts e mem).subject) labels _

/-- A class with a line break in every text that may have one. -/
def brokenLabel : Entity :=
  { id := "1", label := "Two\nlines", iri := none, description := some "First.\nSecond."
    annotations := [⟨"rdfs:comment", "One\nor two", some "en"⟩, ⟨"see\nalso", "\"a\nb\"@en", none⟩]
    body := .concept [⟨"line\ncount", "integer"⟩]
      [⟨"OneOf", "\"a\nb\" <http://e/c>\nd"⟩, ⟨"SubClassOf", "hasNote value \"a\nb\""⟩] }

/-- Settings of an ontology, with a line break in its description. -/
def brokenDescription : Metadata :=
  { name := "lines", baseIri := some "http://e/", defaultPrefix := some "e", ontologyIri := none
    versionIri := some "http://e/1", description := some "One.\nTwo.", language := none
    namespaces := ⟨[("f", "http://f/")]⟩, annotations := [] }

theorem count_newline_brokenLabel :
    Naming.IsOneLine {} ∧ brokenDescription.KeepsLine ∧ brokenLabel.KeepsLine ∧
      KeepsLine "next\nto" ∧
      (let t := build {} [brokenLabel] [⟨"1", "1", "next\nto", false⟩] (some brokenDescription)
      (Turtle.format t.prefixes t.triples).toList.count '\n' =
        t.prefixes.entries.length + 1 + t.triples.length) := by
  have naming : Naming.IsOneLine {} :=
    ⟨by decide +kernel, by decide +kernel, by decide +kernel, by decide +kernel⟩
  have settings : brokenDescription.KeepsLine :=
    ⟨by decide +kernel, by decide +kernel, by decide +kernel, by decide +kernel,
      by decide +kernel, by decide +kernel, fun _ none => absurd none List.not_mem_nil⟩
  have annotations : ∀ a ∈ brokenLabel.annotations, a.KeepsLine := by
    refine List.forall_mem_cons.2 ⟨⟨?_, ?_, ?_⟩, List.forall_mem_singleton.2 ⟨?_, ?_, ?_⟩⟩ <;>
      decide +kernel
  have attributes : ∀ a ∈ brokenLabel.attributes, a.KeepsLine :=
    List.forall_mem_singleton.2 ⟨by decide +kernel, by decide +kernel⟩
  have texts : brokenLabel.KeepsLine :=
    ⟨by decide +kernel, annotations, attributes, by decide +kernel⟩
  have label : KeepsLine "next\nto" := by decide +kernel
  refine ⟨naming, settings, texts, label, count_newline_build naming ?_ ?_ ?_⟩
  · rintro m ⟨⟩
    exact settings
  · exact List.forall_mem_singleton.2 texts
  · exact List.forall_mem_singleton.2 label

/-- A class whose IRI is in two lines. -/
def brokenIri : Entity :=
  { id := "1", label := "A", iri := some "<http://e/a\nb>", description := none, annotations := []
    body := .concept [] [] }

/-- Both triples about the class are broken. -/
theorem count_newline_brokenIri_ne :
    let t := build {} [brokenIri] [] none
    (Turtle.format t.prefixes t.triples).toList.count '\n' ≠
      t.prefixes.entries.length + 1 + t.triples.length := by
  have naming : Naming.IsOneLine {} :=
    ⟨by decide +kernel, by decide +kernel, by decide +kernel, by decide +kernel⟩
  have table := naming.resolver.prefixes
  have typed : (⟨.iri "http://e/a\nb", Vocabulary.type, owl "Class"⟩ : Triple) ∈
      (build {} [brokenIri] [] none).triples := by decide +kernel
  intro t same
  have line := (Turtle.count_newline_format_iff table t.triples).1 same _ typed
  have subject := Turtle.isOneLine_subject_of_tripleLine line
  exact absurd ((Turtle.isOneLine_formatIri_iff table).1 subject) (by decide)

end Encoding

end Ontogram
