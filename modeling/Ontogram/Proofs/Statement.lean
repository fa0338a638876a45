import Ontogram.Proofs.Contribution
import Ontogram.Proofs.NodeStatement
import Ontogram.Proofs.WellFormed

set_option autoImplicit false

namespace Ontogram

open Vocabulary (owl rdfs skos)

def Term.isSubject : Term → Bool
  | .iri _ => true
  | .blank _ => true
  | _ => false

/-- Whether a triple is a statement about a resource. -/
structure Triple.IsStatement (t : Triple) : Prop where
  subject : t.subject.isSubject = true
  predicate : Encoding.isIri t.predicate = true

instance (t : Triple) : Decidable t.IsStatement :=
  decidable_of_iff (t.subject.isSubject = true ∧ Encoding.isIri t.predicate = true)
    ⟨fun h => ⟨h.1, h.2⟩, fun h => ⟨h.subject, h.predicate⟩⟩

namespace Text

/-- A text of which nothing is left between its blanks is all blank. -/
theorem isBlank_of_strip_eq_empty {s : String} (h : strip s = "") :
    ∀ c ∈ s.toList, isBlank c = true := by
  have none : stripBoth isBlank s.toList = [] := String.ofList_eq_empty_iff.1 h
  have rest : ∀ c ∈ s.toList.dropWhile isBlank, isBlank c = true := by
    rw [stripBoth, stripRight, stripLeft, List.reverse_eq_nil_iff,
      List.dropWhile_eq_nil_iff] at none
    exact fun c hc => none c (List.mem_reverse.2 hc)
  intro c hc
  rw [← List.takeWhile_append_dropWhile (p := isBlank) (l := s.toList)] at hc
  exact (List.mem_append.1 hc).elim List.mem_takeWhile_imp (rest c)

theorem isBlank_of_mem_expandFrom {cs : List Char} (blank : ∀ c ∈ cs, isBlank c = true)
    (column : Nat) : ∀ c ∈ expandFrom column cs, isBlank c = true := by
  induction cs generalizing column with
  | nil => simp [expandFrom]
  | cons d cs ih =>
    obtain ⟨first, rest⟩ := List.forall_mem_cons.1 blank
    unfold expandFrom
    split
    · exact List.forall_mem_append.2
        ⟨fun c hc => List.eq_of_mem_replicate hc ▸ isBlank_space, ih rest _⟩
    · split <;> exact List.forall_mem_cons.2 ⟨first, ih rest _⟩

end Text

namespace Expression

theorem tokensOf_eq_nil {cs : List Char} (blank : ∀ c ∈ cs, Text.isBlank c = true) :
    tokensOf cs = [] := by
  induction cs with
  | nil => exact tokenizes.nil
  | cons c cs ih =>
    obtain ⟨first, rest⟩ := List.forall_mem_cons.1 blank
    rw [tokenizes.blank c cs first, ih rest]

/-- A blank text is read as the empty name. -/
theorem parse_of_strip_eq_empty {s : String} (h : Text.strip s = "") : parse s = .name "" := by
  have none : tokens s = [] := by
    rw [tokens, Text.expandTabs, tokensOf_eq_nil, List.map_nil]
    exact Text.isBlank_of_mem_expandFrom (Text.isBlank_of_strip_eq_empty h) 0
  have bare : stripOuter [] = [] := by simp [stripOuter, isEnclosed]
  have shape : shapeOf (stripOuter []) = .other := by rw [bare]; rfl
  rw [parse, none, balance, dropClosers, dropOpeners, parseTokens_other shape, bare]
  rfl

end Expression

namespace Resolver

/-- Whether a token starts with a quote, behind blanks. -/
def isQuoted (token : String) : Bool :=
  (Text.stripBoth Text.isBlank token.toList).head? == some '"'

def quotedValue (cs : List Char) : String :=
  match Text.closeQuote literalSuffix? cs.tail with
  | some (value, _, _) => String.ofList (Text.unescapeQuotes value)
  | none => String.ofList (Text.stripBoth (· == '"') cs)

variable (r : Resolver)

theorem value_literalOf {cs : List Char} (h : cs.head? = some '"') :
    (r.literalOf cs).value = quotedValue cs := by
  obtain ⟨rest, rfl⟩ : ∃ rest, cs = '"' :: rest := by
    cases cs with
    | nil => cases h
    | cons c rest => exact ⟨rest, by rw [Option.some.inj h]⟩
  cases found : Text.closeQuote literalSuffix? rest <;> simp [literalOf, quotedValue, found]

theorem resolve_of_isQuoted {token : String} (h : isQuoted token = true) :
    r.resolve token = .literal (r.literalOf (Text.stripBoth Text.isBlank token.toList)) :=
  if_pos (eq_of_beq h)

theorem resolve_of_not_isQuoted {token : String} (h : isQuoted token = false) :
    r.resolve token = .iri (r.iriOf (Text.stripBoth Text.isBlank token.toList)) :=
  if_neg fun same => by simp [isQuoted, same] at h

theorem isIri_resolve (token : String) : Encoding.isIri (r.resolve token) = !isQuoted token := by
  cases h : isQuoted token with
  | true => rw [r.resolve_of_isQuoted h]; rfl
  | false => rw [r.resolve_of_not_isQuoted h]; rfl

theorem isSubject_resolve (token : String) : (r.resolve token).isSubject = !isQuoted token := by
  cases h : isQuoted token with
  | true => rw [r.resolve_of_isQuoted h]; rfl
  | false => rw [r.resolve_of_not_isQuoted h]; rfl

theorem isQuoted_of_strip_eq_empty {token : String} (h : Text.strip token = "") :
    isQuoted token = false := by
  have none : Text.stripBoth Text.isBlank token.toList = [] := String.ofList_eq_empty_iff.1 h
  simp [isQuoted, none]

end Resolver

open Resolver (isQuoted)

namespace Entity

/-- The text whose term an entity is about: its IRI or else its label, and for a quoted text the
value between its quotes. -/
def subjectText (e : Entity) : String :=
  let name := Text.orElse e.iri e.label
  if isQuoted name then Resolver.quotedValue (Text.stripBoth Text.isBlank name.toList) else name

/-- Nothing that an entity puts in the place of a subject or a predicate is quoted. -/
structure IsPlain (e : Entity) : Prop where
  subject : isQuoted e.subjectText = false
  attributes : ∀ a ∈ e.attributes, isQuoted a.name = false
  subclasses : ∀ a ∈ e.axioms, AxiomKind.ofName a.name = .superClassOf → e.isProperty = false →
    ∀ token, Expression.parse a.expression = .name token → isQuoted token = false

end Entity

theorem Encoding.subjectOf_eq (r : Resolver) (e : Entity) :
    subjectOf r e = r.resolve e.subjectText := by
  unfold subjectOf Entity.subjectText
  cases h : isQuoted (Text.orElse e.iri e.label) with
  | true =>
    have value := r.value_literalOf (eq_of_beq h)
    simp [h, r.resolve_of_isQuoted h, value]
  | false => simp [h, r.resolve_of_not_isQuoted h]

namespace Emission

variable {α : Type} {P : Triple → Prop}

theorem forall_andThen {a : Emission} {f : Int → Emission} :
    (∀ t ∈ (a.andThen f).triples, P t) ↔
      (∀ t ∈ a.triples, P t) ∧ ∀ t ∈ (f a.next).triples, P t :=
  List.forall_mem_append

/-- What holds of the triples of a part under a condition on it, wherever its nodes start, holds of
the triples of all parts if all meet the condition. -/
theorem forall_each {f : α → Int → Emission} {Q : α → Prop}
    (part : ∀ x n, (∀ t ∈ (f x n).triples, P t) ↔ Q x) (xs : List α) (n : Int) :
    (∀ t ∈ (Emission.each f xs n).triples, P t) ↔ ∀ x ∈ xs, Q x := by
  induction xs generalizing n with
  | nil => simp [Emission.each, Emission.ofTriples]
  | cons x xs ih => rw [Emission.each, forall_andThen, part, ih, List.forall_mem_cons]

theorem forall_each_of_mem {f : α → Int → Emission} {xs : List α}
    (part : ∀ x ∈ xs, ∀ n, ∀ t ∈ (f x n).triples, P t) (n : Int) :
    ∀ t ∈ (Emission.each f xs n).triples, P t := by
  induction xs generalizing n with
  | nil => exact fun _ ht => absurd ht List.not_mem_nil
  | cons x xs ih =>
    obtain ⟨first, rest⟩ := List.forall_mem_cons.1 part
    exact forall_andThen.2 ⟨first n, ih rest _⟩

end Emission

namespace Encoding

theorem isSubject_subjectOf (r : Resolver) (e : Entity) :
    (subjectOf r e).isSubject = !isQuoted e.subjectText := by
  rw [subjectOf_eq, r.isSubject_resolve]

theorem isIri_subjectOf (r : Resolver) (e : Entity) :
    isIri (subjectOf r e) = !isQuoted e.subjectText := by
  rw [subjectOf_eq, r.isIri_resolve]

theorem isSubject_of_isIri {t : Term} (h : isIri t = true) : t.isSubject = true := by
  cases t with
  | iri _ => rfl
  | blank _ | literal _ | list _ => cases h

theorem isIri_structural? {label : String} {predicate : Term}
    (h : Vocabulary.structural? label = some predicate) : isIri predicate = true := by
  have all : ∀ p ∈ [Vocabulary.type, Vocabulary.subClassOf, Vocabulary.disjointWith],
      isIri p = true := by
    simp [isIri, Vocabulary.type, Vocabulary.rdf, Vocabulary.subClassOf, rdfs,
      Vocabulary.disjointWith, owl]
  exact all predicate (Vocabulary.mem_of_structural? h)

section Expression

variable (r : Resolver)

/-- All terms may be the objects of statements. -/
theorem covers_all : Expression.Covers r (fun _ => True) fun _ => True := by
  constructor <;> simp

theorem isIri_of_mem_nodePredicates {t : Term} (h : t ∈ Expression.nodePredicates) :
    isIri t = true := by
  rcases List.mem_cons.1 h with rfl | h
  · rfl
  · obtain ⟨name, -, rfl⟩ := List.mem_map.1 h
    rfl

/-- An expression is described by statements. -/
theorem isStatement_lowerText (s : String) (n : Int) :
    ∀ t ∈ (Expression.lowerText r s n).triples, t.IsStatement := by
  intro t ht
  have made := Expression.over_lower (covers_all r) (Expression.parse s) n fun _ _ => trivial
  obtain ⟨⟨m, subject⟩, predicate, -⟩ := made.triples t ht
  exact ⟨by rw [subject]; rfl, isIri_of_mem_nodePredicates predicate⟩

/-- The term of an expression is a node unless the expression is a name. -/
theorem isSubject_lowerText_iff (s : String) (n : Int) :
    (Expression.lowerText r s n).ref.isSubject = true ↔
      ∀ token, Expression.parse s = .name token → isQuoted token = false := by
  have fault := Expression.fault?_parse s
  unfold Expression.lowerText
  cases parsed : Expression.parse s with
  | name token => simp [Expression.lower, r.isSubject_resolve]
  | raw text => rw [parsed] at fault; cases fault
  | inter operands => simp [Expression.lower_inter, blankNode, Term.isSubject]
  | union operands => simp [Expression.lower_union, blankNode, Term.isSubject]
  | compl operand => simp [Expression.lower_compl, blankNode, Term.isSubject]
  | restrict property quantifier filler number reflexive =>
    rw [Expression.ref_lower_restrict]
    simp [blankNode, Term.isSubject]

end Expression

section Entity

variable (r : Resolver) {subject : Term}

theorem isStatement_emitAttribute_iff (a : Attribute) (n : Int) :
    (∀ t ∈ (emitAttribute r subject a n).triples, t.IsStatement) ↔ isQuoted a.name = false := by
  have property := r.isSubject_resolve a.name
  constructor
  · intro all
    by_cases blank : Text.strip a.name = ""
    · exact Resolver.isQuoted_of_strip_eq_empty blank
    · rw [emitAttribute, if_neg blank] at all
      have first := (all _ (List.mem_append_left _ List.mem_cons_self)).subject
      simpa [property] using first
  · intro plain
    have subject : (r.resolve a.name).isSubject = true := by simp [property, plain]
    obtain ⟨xs, same, drawn⟩ := emitAttribute_eq r _ a
    rw [same]
    intro t ht
    cases drawn t ht <;> exact ⟨subject, rfl⟩

theorem isStatement_emitBackLink_iff (expression : String) (n : Int) :
    (∀ t ∈ (emitBackLink r subject Vocabulary.subClassOf expression n).triples, t.IsStatement) ↔
      ∀ token, Expression.parse expression = .name token → isQuoted token = false := by
  refine Iff.trans ?_ (isSubject_lowerText_iff r expression n)
  constructor
  · exact fun all => (all _ List.mem_cons_self).subject
  · exact fun ref => List.forall_mem_cons.2 ⟨⟨ref, rfl⟩, isStatement_lowerText r expression n⟩

variable (named : subject.isSubject = true)
include named

theorem isStatement_annotate (a : Annotation) (n : Int) :
    ∀ t ∈ (annotate r subject a n).triples, t.IsStatement := by
  unfold annotate
  split
  · exact List.forall_mem_singleton.2 ⟨named, rfl⟩
  · exact fun _ ht => absurd ht List.not_mem_nil

theorem isStatement_emitCharacteristic (a : Attribute) (n : Int) :
    ∀ t ∈ (emitCharacteristic subject a n).triples, t.IsStatement := by
  unfold emitCharacteristic
  simp only
  split
  · exact List.forall_mem_singleton.2 ⟨named, rfl⟩
  · exact List.forall_mem_singleton.2 ⟨named, rfl⟩

theorem isStatement_emitLink {predicate : Term} (hp : isIri predicate = true)
    (expression : String) (n : Int) :
    ∀ t ∈ (emitLink r subject predicate expression n).triples, t.IsStatement :=
  List.forall_mem_cons.2 ⟨⟨named, hp⟩, isStatement_lowerText r expression n⟩

theorem isStatement_emitList (name expression : String) (n : Int) :
    ∀ t ∈ (emitList r subject name expression n).triples, t.IsStatement :=
  List.forall_mem_singleton.2 ⟨named, rfl⟩

theorem isStatement_emitRestriction (e : Entity) (a : Axiom) (n : Int) :
    ∀ t ∈ (emitRestriction r e subject a n).triples, t.IsStatement := by
  unfold emitRestriction
  simp only
  split
  · exact fun _ ht => absurd ht List.not_mem_nil
  · split
    · exact fun _ ht => absurd ht List.not_mem_nil
    · exact isStatement_emitLink r named rfl _ n

theorem isStatement_emitRange (e : Entity) (expression : String) (n : Int) :
    ∀ t ∈ (emitRange r e subject expression n).triples, t.IsStatement := by
  unfold emitRange
  split
  · exact List.forall_mem_singleton.2 ⟨named, rfl⟩
  · exact isStatement_emitLink r named rfl expression n

/-- Of all kinds of axioms only one puts its value in the place of the subject. -/
theorem isStatement_emitKind_iff (e : Entity) (a : Axiom) (n : Int) :
    (∀ t ∈ (emitKind r e subject a n).triples, t.IsStatement) ↔
      (AxiomKind.ofName a.name = .superClassOf →
        ∀ token, Expression.parse a.expression = .name token → isQuoted token = false) := by
  have link {predicate : Term} (hp : isIri predicate = true) :=
    isStatement_emitLink r named hp a.expression n
  have list (name : String) := isStatement_emitList r named name a.expression n
  have either {onProperty onClass : Term} (hp : isIri onProperty = true)
      (hc : isIri onClass = true) :
      isIri (if e.isProperty then onProperty else onClass) = true := by
    split
    · exact hp
    · exact hc
  unfold emitKind
  cases kind : AxiomKind.ofName a.name
  case superClassOf =>
    refine (isStatement_emitBackLink_iff r a.expression n).trans ?_
    simp
  all_goals refine iff_of_true ?_ (by simp)
  case subClassOf | disjointWith | equivalentTo => exact link (either rfl rfl)
  case unionOf | intersectionOf | oneOf | disjointUnionOf | hasKey | propertyChain => exact list _
  case range => exact isStatement_emitRange r named e a.expression n
  case implicitRestriction => exact isStatement_emitRestriction r named e a n
  all_goals exact link rfl

theorem isStatement_emitAxiom_iff (e : Entity) (a : Axiom) (n : Int) :
    (∀ t ∈ (emitAxiom r e subject a n).triples, t.IsStatement) ↔
      (AxiomKind.ofName a.name = .superClassOf → e.isProperty = false →
        ∀ token, Expression.parse a.expression = .name token → isQuoted token = false) := by
  unfold emitAxiom
  by_cases empty : Text.strip a.expression = ""
  · simp only [empty, if_true]
    refine iff_of_true (fun _ ht => absurd ht List.not_mem_nil) ?_
    intro _ _ token parsed
    rw [Expression.parse_of_strip_eq_empty empty] at parsed
    rw [← Expression.name.inj parsed]
    rfl
  by_cases elsewhere : ((AxiomKind.ofName a.name).isPropertyOnly && !e.isProperty) = true
  · simp only [empty, elsewhere, if_false, if_true]
    refine iff_of_true (fun _ ht => absurd ht List.not_mem_nil) ?_
    intro kind
    simp [kind, AxiomKind.isPropertyOnly] at elsewhere
  by_cases onProperty : ((AxiomKind.ofName a.name).isClassOnly && e.isProperty) = true
  · simp only [empty, elsewhere, onProperty, if_false, if_true]
    refine iff_of_true (fun _ ht => absurd ht List.not_mem_nil) ?_
    intro _ other
    simp [other] at onProperty
  simp only [empty, elsewhere, onProperty, if_false]
  refine (isStatement_emitKind_iff r named e a n).trans (forall_congr' fun kind => ?_)
  have other : e.isProperty = false := by
    simpa [kind, AxiomKind.isClassOnly] using onProperty
  simp [other]

theorem isStatement_declaration (language : String) (e : Entity) :
    ∀ t ∈ declaration subject language e, t.IsStatement := by
  intro t ht
  cases declares_of_mem ht <;> exact ⟨named, rfl⟩

end Entity

theorem isStatement_emitEntity_iff (r : Resolver) (language : String) (e : Entity) (n : Int) :
    (∀ t ∈ (emitEntity r language e n).triples, t.IsStatement) ↔ e.IsPlain := by
  have subject := isSubject_subjectOf r e
  unfold emitEntity
  simp only [Emission.forall_andThen]
  constructor
  · rintro ⟨⟨⟨⟨opening, -⟩, attributes⟩, -⟩, axioms⟩
    have named := (opening _ List.mem_cons_self).subject
    refine ⟨by simpa [subject] using named, ?_, ?_⟩
    · exact (Emission.forall_each (isStatement_emitAttribute_iff r) _ _).1 attributes
    · exact (Emission.forall_each (isStatement_emitAxiom_iff r named e) _ _).1 axioms
  · intro plain
    have named : (subjectOf r e).isSubject = true := by simp [subject, plain.subject]
    refine ⟨⟨⟨⟨isStatement_declaration named language e, ?_⟩, ?_⟩, ?_⟩, ?_⟩
    · exact Emission.forall_each_of_mem (fun a _ => isStatement_annotate r named a) _
    · exact (Emission.forall_each (isStatement_emitAttribute_iff r) _ _).2 plain.attributes
    · exact Emission.forall_each_of_mem (fun a _ => isStatement_emitCharacteristic named a) _
    · exact (Emission.forall_each (isStatement_emitAxiom_iff r named e) _ _).2 plain.subclasses

theorem isStatement_emitHeader (r : Resolver) (language : String) (m : Metadata) (n : Int) :
    ∀ t ∈ (emitHeader r language m n).triples, t.IsStatement := by
  have own : (ontologyOf r m).isSubject = true := rfl
  obtain ⟨opening, same, drawn⟩ := emitHeader_eq r language m
  rw [same]
  refine Emission.forall_andThen.2 ⟨fun t ht => ?_, ?_⟩
  · cases drawn t ht <;> exact ⟨own, rfl⟩
  · exact Emission.forall_each_of_mem (fun a _ => isStatement_annotate r own a) _

namespace Canvas

variable {c : Canvas}

theorem isIri_predicate? {label : String} {predicate : Term}
    (properties : ∀ e, c.properties.get? label = some e → isQuoted e.subjectText = false)
    (h : c.predicate? label = some predicate) : isIri predicate = true := by
  unfold predicate? at h
  split at h
  · rename_i property found
    rw [← Option.some.inj h, isIri_subjectOf, properties property found]
    rfl
  · split at h
    · exact Option.some.inj h ▸ rfl
    · cases h

/-- Relations between entities whose names are not quoted are statements. -/
theorem isStatement_relation
    (sources : ∀ id e, c.byId.get? id = some e → isQuoted e.subjectText = false)
    (properties : ∀ label e, c.properties.get? label = some e → isQuoted e.subjectText = false)
    (declared : List String) (e : Relation) :
    ∀ t ∈ (c.relation declared e).1, t.IsStatement := by
  intro t ht
  cases draws_of_mem_relation ht with
  | edge atSource atTarget named =>
    refine ⟨?_, named.elim isIri_structural? (isIri_predicate? (properties e.label))⟩
    rw [isSubject_subjectOf, sources e.source _ atSource]
    rfl
  | declaration named known =>
    exact ⟨isSubject_of_isIri (isIri_predicate? (properties e.label) named), rfl⟩

end Canvas

theorem isStatement_emitRelations (r : Resolver) (inferred : Bool) {entities : List Entity}
    (plain : ∀ e ∈ entities, isQuoted e.subjectText = false) (relations : List Relation)
    (n : Int) : ∀ t ∈ (emitRelations r inferred entities relations n).triples, t.IsStatement := by
  refine Canvas.forall_relations
    (fun declared e _ => Canvas.isStatement_relation ?_ ?_ declared e) _
  · exact fun id e found => plain e (Canvas.mem_of_byId found)
  · exact fun label e found => plain e (Canvas.mem_of_properties found)

/-- All triples of an encoding are statements exactly when every entity is plain. -/
theorem isStatement_build_iff (d : Naming) (entities : List Entity) (relations : List Relation)
    (metadata : Option Metadata) :
    (∀ t ∈ (build d entities relations metadata).triples, t.IsStatement) ↔
      ∀ e ∈ entities, e.IsPlain := by
  simp only [build, withResolver, mem_firsts, emit, Emission.forall_andThen]
  generalize (metadata.map d.withMetadata).getD d = d
  rw [Emission.forall_each (isStatement_emitEntity_iff d.resolver d.language)]
  constructor
  · exact fun all => all.1.2
  · refine fun plain => ⟨⟨?_, plain⟩, ?_⟩
    · cases metadata with
      | none => exact fun _ ht => absurd ht List.not_mem_nil
      | some m => exact isStatement_emitHeader _ _ m 0
    · exact isStatement_emitRelations _ _ (fun e he => (plain e he).subject) relations _

/-- A class with two pairs of quotes around its label. -/
def carInQuotes : Entity :=
  { id := "1", label := "\"\"Car\"\"", iri := none, description := none, annotations := []
    body := .concept [] [] }

/-- The class is about a literal. -/
theorem not_isStatement_carInQuotes :
    ¬ ∀ t ∈ (build {} [carInQuotes] [] none).triples, t.IsStatement := by
  decide +kernel

end Encoding

end Ontogram
