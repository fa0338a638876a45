import Ontogram.Proofs.Ascii
import Ontogram.Proofs.Statement

set_option autoImplicit false

namespace Ontogram

open Text (isBlank stripBoth)
open Vocabulary (owl rdfs skos)

namespace Text

theorem mem_of_nonEmpty {text : Option String} {s : String} (h : text.bind nonEmpty = some s) :
    s ∈ text := by
  obtain ⟨written, known, filled⟩ := Option.bind_eq_some_iff.1 h
  unfold nonEmpty at filled
  split at filled
  · cases filled
  · exact Option.some.inj filled ▸ known

theorem orElse_of {P : String → Prop} {first : Option String} {second : String}
    (hf : ∀ s ∈ first, P s) (hs : P second) : P (orElse first second) := by
  unfold orElse
  cases known : first.bind nonEmpty with
  | none => exact hs
  | some s => exact hf s (mem_of_nonEmpty known)

end Text

/-- The texts in the class expression of an axiom that stand for terms. -/
def Axiom.leaves (a : Axiom) : List String :=
  let kind := AxiomKind.ofName a.name
  if kind.isListValued then []
  else if kind = .implicitRestriction then
    (Expression.parse (Encoding.restrictionText (Text.underscored a.name) a.expression)).leaves
  else (Expression.parse a.expression).leaves

/-- Whether the names in an axiom have a property. A range of one word is a name as it stands. -/
structure Axiom.Names (Q : String → Prop) (a : Axiom) : Prop where
  leaves : ∀ s ∈ a.leaves, Q s
  range : AxiomKind.ofName a.name = .range → (Text.words a.expression).length = 1 → Q a.expression

/-- Whether the names in an annotation have a property, and its language another. Its value is a
name only in brackets or with a scheme. -/
structure Annotation.Names (Q L : String → Prop) (a : Annotation) : Prop where
  property : Q a.property
  value : let cs := stripBoth isBlank a.value.toList
    Resolver.isBracketed cs = true ∨ Resolver.isAbsolute cs = true → Q a.value
  language : ∀ tag ∈ a.language, L tag

/-- Whether the names in an attribute have a property. -/
structure Attribute.Names (Q : String → Prop) (a : Attribute) : Prop where
  name : Q a.name
  type : Q a.type

/-- Whether the names in an entity have a property, and the languages in it another. -/
structure Entity.Names (Q L : String → Prop) (e : Entity) : Prop where
  subject : Q e.subjectText
  annotations : ∀ a ∈ e.annotations, a.Names Q L
  attributes : ∀ a ∈ e.attributes, a.Names Q
  axioms : ∀ a ∈ e.axioms, a.Names Q

/-- Whether the three terms of a triple have a property. -/
structure Triple.Over (P : Term → Prop) (t : Triple) : Prop where
  subject : P t.subject
  predicate : P t.predicate
  object : P t.object

theorem Triple.over_mk {P : Term → Prop} {subject predicate object : Term} (hs : P subject)
    (hp : P predicate) (ho : P object) : Triple.Over P ⟨subject, predicate, object⟩ :=
  ⟨hs, hp, ho⟩

namespace Encoding

/-- A property of terms that what is read from certain names has, and with it all that an encoding
is made of. -/
structure Permits (r : Resolver) (Q L : String → Prop) (P : Term → Prop) : Prop
    extends Expression.Covers r Q P where
  vocabulary : ∀ space ∈ [Namespace.rdf, Namespace.rdfs, Namespace.owl, Namespace.skos],
    ∀ name : String, (∀ c ∈ name.toList, isBlank c = false) → P (.iri (space ++ name))
  quoted : ∀ cs, P (.literal (r.literalOf cs))
  text : ∀ value language, (∀ tag ∈ language, L tag) → P (textLiteral value language)
  names : ∀ s, P (Expression.listOf r s)

theorem not_isBlank_of_letters {s : String} (letters : s.toList.all Char.isAlpha = true) :
    ∀ c ∈ s.toList, isBlank c = false := by
  intro c mem
  have range := Text.toNat_of_isAlpha (List.all_eq_true.1 letters c mem)
  exact Text.isBlank_eq_false (by omega) (by omega)

theorem not_isBlank_of_mem_join_words {s : String} :
    ∀ c ∈ (String.join (Text.words s)).toList, isBlank c = false := by
  intro c mem
  rw [String.toList_join] at mem
  obtain ⟨word, known, there⟩ := List.mem_flatMap.1 mem
  obtain ⟨cs, found, rfl⟩ := List.mem_map.1 known
  exact Text.not_isBlank_of_mem_wordsOf found (by simpa using there)

theorem all_isAlpha_characteristicClass? {joined name : String}
    (h : characteristicClass? joined = some name) : name.toList.all Char.isAlpha = true := by
  obtain ⟨front, back, entries, -⟩ := List.lookup_eq_some_iff.1 h
  have classes : ∀ entry ∈ characteristicClasses, entry.2.toList.all Char.isAlpha = true := by
    decide +kernel
  rw [entries] at classes
  exact (List.forall_mem_cons.1 (List.forall_mem_append.1 classes).2).1

namespace Permits

variable {r : Resolver} {Q L : String → Prop} {P : Term → Prop} (h : Permits r Q L P)
include h

/-! Words of the vocabulary. -/

theorem owl {name : String} (letters : name.toList.all Char.isAlpha = true) :
    P (Vocabulary.owl name) :=
  h.vocabulary _ (by simp) name (not_isBlank_of_letters letters)

theorem rdfs {name : String} (letters : name.toList.all Char.isAlpha = true) :
    P (Vocabulary.rdfs name) :=
  h.vocabulary _ (by simp) name (not_isBlank_of_letters letters)

theorem type : P Vocabulary.type :=
  h.vocabulary _ (by simp) "type" (not_isBlank_of_letters (by decide))

theorem label : P Vocabulary.label :=
  h.rdfs (by decide)

theorem subClassOf : P Vocabulary.subClassOf :=
  h.rdfs (by decide)

theorem disjointWith : P Vocabulary.disjointWith :=
  h.owl (by decide)

theorem declarationClass (kind : EntityKind) : P (declarationClass kind) := by
  cases kind
  case datatype => exact h.rdfs (by decide)
  all_goals exact h.owl (by decide)

theorem structural? {label : String} {predicate : Term}
    (structural : Vocabulary.structural? label = some predicate) : P predicate := by
  have all : ∀ p ∈ [Vocabulary.type, Vocabulary.subClassOf, Vocabulary.disjointWith], P p := by
    simp [h.type, h.subClassOf, h.disjointWith]
  exact all predicate (Vocabulary.mem_of_structural? structural)

theorem nodePredicates {t : Term} (known : t ∈ Expression.nodePredicates) : P t := by
  rcases List.mem_cons.1 known with rfl | known
  · exact h.type
  · obtain ⟨name, mem, rfl⟩ := List.mem_map.1 known
    refine h.owl ?_
    revert name
    decide +kernel

/-! Names. -/

theorem subjectOf {e : Entity} (name : Q e.subjectText) : P (subjectOf r e) := by
  rw [subjectOf_eq]
  exact h.name _ name

theorem annotationObject {a : Annotation} (names : a.Names Q L) : P (annotationObject r a) := by
  unfold Encoding.annotationObject
  simp only
  split
  · rename_i named
    exact h.name _ (names.value (Bool.or_eq_true_iff.1 named))
  split
  · exact h.quoted _
  · exact h.text a.value a.language names.language

theorem lowerText {s : String} (leaves : ∀ leaf ∈ (Expression.parse s).leaves, Q leaf) (n : Int) :
    P (Expression.lowerText r s n).ref ∧ ∀ t ∈ (Expression.lowerText r s n).triples, t.Over P := by
  have made := Expression.over_lower h.toCovers (Expression.parse s) n leaves
  refine ⟨made.ref, fun t ht => ?_⟩
  obtain ⟨⟨m, subject⟩, predicate, object⟩ := made.triples t ht
  exact ⟨subject ▸ h.node m, h.nodePredicates predicate, object⟩

/-! Parts of an entity. -/

section Parts

variable {subject : Term} (own : P subject)
include own

theorem annotate {a : Annotation} (names : a.Names Q L) (n : Int) :
    ∀ t ∈ (annotate r subject a n).triples, t.Over P := by
  have property := h.name _ names.property
  unfold Encoding.annotate
  split
  · rename_i value same
    exact List.forall_mem_singleton.2
      (Triple.over_mk own (same ▸ property) (h.annotationObject names))
  · exact fun _ ht => absurd ht List.not_mem_nil

theorem emitAttribute {a : Attribute} (names : a.Names Q) (n : Int) :
    ∀ t ∈ (emitAttribute r subject a n).triples, t.Over P := by
  have property := h.name _ names.name
  obtain ⟨xs, same, drawn⟩ := emitAttribute_eq r subject a
  rw [same]
  intro t ht
  cases drawn t ht with
  | type => exact Triple.over_mk property h.type (h.owl (by decide))
  | label => exact Triple.over_mk property h.label (h.text a.name none (by simp))
  | domain => exact Triple.over_mk property (h.rdfs (by decide)) own
  | range => exact Triple.over_mk property (h.rdfs (by decide)) (h.datatype _ names.type)

theorem emitCharacteristic (a : Attribute) (n : Int) :
    ∀ t ∈ (emitCharacteristic subject a n).triples, t.Over P := by
  have joined : ∀ c ∈ (String.join (Text.words a.name) ++ "Property").toList,
      isBlank c = false := by
    rw [String.toList_append]
    exact List.forall_mem_append.2
      ⟨not_isBlank_of_mem_join_words, not_isBlank_of_letters (by decide)⟩
  unfold Encoding.emitCharacteristic
  simp only
  split
  · rename_i name known
    exact List.forall_mem_singleton.2
      (Triple.over_mk own h.type (h.owl (all_isAlpha_characteristicClass? known)))
  · exact List.forall_mem_singleton.2
      (Triple.over_mk own h.type (h.vocabulary _ (by simp) _ joined))

theorem emitLink {predicate : Term} (hp : P predicate) {expression : String}
    (leaves : ∀ s ∈ (Expression.parse expression).leaves, Q s) (n : Int) :
    ∀ t ∈ (emitLink r subject predicate expression n).triples, t.Over P := by
  obtain ⟨ref, triples⟩ := h.lowerText leaves n
  exact List.forall_mem_cons.2 ⟨Triple.over_mk own hp ref, triples⟩

theorem emitBackLink {expression : String}
    (leaves : ∀ s ∈ (Expression.parse expression).leaves, Q s) (n : Int) :
    ∀ t ∈ (emitBackLink r subject Vocabulary.subClassOf expression n).triples, t.Over P := by
  obtain ⟨ref, triples⟩ := h.lowerText leaves n
  exact List.forall_mem_cons.2 ⟨Triple.over_mk ref h.subClassOf own, triples⟩

theorem emitList {name : String} (letters : name.toList.all Char.isAlpha = true)
    (expression : String) (n : Int) :
    ∀ t ∈ (emitList r subject name expression n).triples, t.Over P :=
  List.forall_mem_singleton.2 (Triple.over_mk own (h.owl letters) (h.names expression))

theorem emitRestriction (e : Entity) {a : Axiom}
    (leaves : ∀ s ∈ (Expression.parse
      (restrictionText (Text.underscored a.name) a.expression)).leaves, Q s) (n : Int) :
    ∀ t ∈ (emitRestriction r e subject a n).triples, t.Over P := by
  unfold Encoding.emitRestriction
  simp only
  split
  · exact fun _ ht => absurd ht List.not_mem_nil
  split
  · exact fun _ ht => absurd ht List.not_mem_nil
  · exact h.emitLink own h.subClassOf leaves n

theorem emitRange (e : Entity) {expression : String}
    (leaves : ∀ s ∈ (Expression.parse expression).leaves, Q s)
    (single : (Text.words expression).length = 1 → Q expression) (n : Int) :
    ∀ t ∈ (emitRange r e subject expression n).triples, t.Over P := by
  unfold Encoding.emitRange
  split
  · rename_i one
    simp only [Bool.and_eq_true, beq_iff_eq] at one
    exact List.forall_mem_singleton.2
      (Triple.over_mk own (h.rdfs (by decide)) (h.datatype _ (single one.2)))
  · exact h.emitLink own (h.rdfs (by decide)) leaves n

theorem emitKind (e : Entity) {a : Axiom} (names : a.Names Q) (n : Int) :
    ∀ t ∈ (emitKind r e subject a n).triples, t.Over P := by
  obtain ⟨leaves, range⟩ := names
  have list {name : String} (letters : name.toList.all Char.isAlpha = true) :=
    h.emitList own letters a.expression n
  have either {onProperty onClass : Term} (hp : P onProperty) (hc : P onClass) :
      P (if e.isProperty then onProperty else onClass) := by
    split
    · exact hp
    · exact hc
  have word {name : String} (letters : name.toList.all Char.isAlpha = true) := h.owl letters
  unfold Axiom.leaves at leaves
  unfold Encoding.emitKind
  cases kind : AxiomKind.ofName a.name <;> simp only [kind, AxiomKind.isListValued] at leaves
  case unionOf | intersectionOf | oneOf | disjointUnionOf | hasKey | propertyChain =>
    exact list (by decide)
  case implicitRestriction => exact h.emitRestriction own e leaves n
  case superClassOf => exact h.emitBackLink own leaves n
  case range => exact h.emitRange own e leaves (range kind) n
  all_goals refine h.emitLink own ?_ leaves n
  case subClassOf => exact either (h.rdfs (by decide)) h.subClassOf
  case disjointWith => exact either (word (by decide)) h.disjointWith
  case equivalentTo => exact either (word (by decide)) (word (by decide))
  case types => exact h.type
  case subPropertyOf | domain => exact h.rdfs (by decide)
  all_goals exact word (by decide)

theorem emitAxiom (e : Entity) {a : Axiom} (names : a.Names Q) (n : Int) :
    ∀ t ∈ (emitAxiom r e subject a n).triples, t.Over P := by
  unfold Encoding.emitAxiom
  simp only
  split
  · exact fun _ ht => absurd ht List.not_mem_nil
  split
  · exact fun _ ht => absurd ht List.not_mem_nil
  split
  · exact fun _ ht => absurd ht List.not_mem_nil
  · exact h.emitKind own e names n

theorem declaration {language : String} (tag : L language) (e : Entity) :
    ∀ t ∈ declaration subject language e, t.Over P := by
  intro t ht
  cases declares_of_mem ht with
  | type => exact Triple.over_mk own h.type (h.declarationClass e.kind)
  | label => exact Triple.over_mk own h.label (h.text e.label none (by simp))
  | definition text =>
    have word := h.vocabulary Namespace.skos (by simp) "definition"
      (not_isBlank_of_letters (by decide))
    exact Triple.over_mk own word (h.text text (some language) (by simpa using tag))

end Parts

/-! Parts of a diagram. -/

theorem emitEntity {language : String} (tag : L language) {e : Entity} (names : e.Names Q L)
    (n : Int) : ∀ t ∈ (emitEntity r language e n).triples, t.Over P := by
  have own := h.subjectOf names.subject
  unfold Encoding.emitEntity
  simp only [Emission.forall_andThen]
  refine ⟨⟨⟨⟨h.declaration own tag e, ?_⟩, ?_⟩, ?_⟩, ?_⟩
  · exact Emission.forall_each_of_mem (fun a mem => h.annotate own (names.annotations a mem)) _
  · exact Emission.forall_each_of_mem (fun a mem => h.emitAttribute own (names.attributes a mem)) _
  · exact Emission.forall_each_of_mem (fun a _ => h.emitCharacteristic own a) _
  · exact Emission.forall_each_of_mem (fun a mem => h.emitAxiom own e (names.axioms a mem)) _

theorem emitHeader {language : String} (tag : L language) {m : Metadata}
    (own : P (ontologyOf r m))
    (version : ∀ iri, m.versionIri.bind Text.nonEmpty = some iri → P (.iri iri))
    (annotations : ∀ a ∈ m.annotations, a.Names Q L) (n : Int) :
    ∀ t ∈ (emitHeader r language m n).triples, t.Over P := by
  obtain ⟨opening, same, drawn⟩ := emitHeader_eq r language m
  rw [same]
  refine Emission.forall_andThen.2 ⟨fun t ht => ?_, ?_⟩
  · cases drawn t ht with
    | type => exact Triple.over_mk own h.type (h.owl (by decide))
    | version known => exact Triple.over_mk own (h.owl (by decide)) (version _ known)
    | comment text =>
      have tagged := h.text text (some language) (by simpa using tag)
      exact Triple.over_mk own (h.rdfs (by decide)) tagged
  · exact Emission.forall_each_of_mem (fun a mem => h.annotate own (annotations a mem)) _

omit h in
theorem predicate? {c : Canvas} (h : Permits c.resolver Q L P) {label : String}
    (properties : ∀ e, c.properties.get? label = some e → Q e.subjectText) (own : Q label)
    {predicate : Term} (known : c.predicate? label = some predicate) : P predicate := by
  unfold Canvas.predicate? at known
  split at known
  · rename_i property found
    exact Option.some.inj known ▸ h.subjectOf (properties property found)
  · split at known
    · rename_i value same
      exact Option.some.inj known ▸ same ▸ h.name _ own
    · cases known

theorem emitRelations (inferred : Bool) {entities : List Entity}
    (subjects : ∀ e ∈ entities, Q e.subjectText) {relations : List Relation}
    (labels : ∀ e ∈ relations, Q e.label) (n : Int) :
    ∀ t ∈ (emitRelations r inferred entities relations n).triples, t.Over P := by
  refine Canvas.forall_relations (fun declared e mem t ht => ?_) _
  have subject {id : String} {e : Entity}
      (found : (Canvas.of r inferred entities).byId.get? id = some e) :=
    h.subjectOf (subjects e (Canvas.mem_of_byId found))
  have predicate {p : Term}
      (named : (Canvas.of r inferred entities).predicate? e.label = some p) : P p :=
    predicate? (c := Canvas.of r inferred entities) h
      (fun e found => subjects e (Canvas.mem_of_properties found)) (labels e mem) named
  cases Canvas.draws_of_mem_relation ht with
  | edge atSource atTarget named =>
    exact Triple.over_mk (subject atSource) (named.elim h.structural? predicate) (subject atTarget)
  | declaration named known =>
    have words : ∀ kind ∈ ["DatatypeProperty", "ObjectProperty"],
        kind.toList.all Char.isAlpha = true := by decide
    exact Triple.over_mk (predicate named) h.type (h.owl (words _ known))

/-- What all parts of an encoding have is a property of its terms. -/
theorem emit {language : String} (tag : L language) (inferred : Bool) {entities : List Entity}
    (names : ∀ e ∈ entities, e.Names Q L) {relations : List Relation}
    (labels : ∀ e ∈ relations, Q e.label) {metadata : Option Metadata}
    (header : ∀ m ∈ metadata, P (ontologyOf r m) ∧
      (∀ iri, m.versionIri.bind Text.nonEmpty = some iri → P (.iri iri)) ∧
      ∀ a ∈ m.annotations, a.Names Q L) :
    ∀ t ∈ (emit r language inferred entities relations metadata).triples, t.Over P := by
  simp only [Encoding.emit, Emission.forall_andThen]
  refine ⟨⟨?_, ?_⟩, ?_⟩
  · cases metadata with
    | none => exact fun _ ht => absurd ht List.not_mem_nil
    | some m =>
      obtain ⟨own, version, annotations⟩ := header m rfl
      exact h.emitHeader tag own version annotations 0
  · exact Emission.forall_each_of_mem (fun e mem => h.emitEntity tag (names e mem)) _
  · exact h.emitRelations inferred (fun e mem => (names e mem).subject) labels _

end Permits

end Encoding

end Ontogram
