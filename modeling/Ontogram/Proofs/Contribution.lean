import Ontogram.Proofs.Occurrence

set_option autoImplicit false

namespace Ontogram.Encoding

open Vocabulary (owl rdfs skos)

/-- The ways in which a part of a diagram contributes to its encoding. -/
inductive Contribution (r : Resolver) : (Int → Emission) → Prop where
  /-- Triples without anonymous nodes, and warnings. -/
  | plain {xs : List Triple} (ws : List Warning) (named : ∀ t ∈ xs, t.nodes = []) :
    Contribution r fun n => ⟨xs, ws, n⟩
  | link {subject predicate : Term} (expression : String) (subjectNamed : subject.nodes = [])
    (predicateNamed : predicate.nodes = []) :
    Contribution r (emitLink r subject predicate expression)
  | backLink {subject : Term} (expression : String) (subjectNamed : subject.nodes = []) :
    Contribution r (emitBackLink r subject Vocabulary.subClassOf expression)
  | andThen {f g : Int → Emission} : Contribution r f → Contribution r g →
    Contribution r fun n => (f n).andThen g

namespace Contribution

variable {r : Resolver}

theorem triples {xs : List Triple} (named : ∀ t ∈ xs, t.nodes = []) :
    Contribution r (Emission.ofTriples xs) :=
  plain [] named

theorem nothing : Contribution r (Emission.ofTriples []) :=
  triples (by simp)

theorem warning (w : Warning) : Contribution r (Emission.ofWarning w) :=
  plain [w] (by simp)

theorem each {α : Type} {f : α → Int → Emission} {xs : List α}
    (h : ∀ x ∈ xs, Contribution r (f x)) : Contribution r (Emission.each f xs) := by
  induction xs with
  | nil => exact nothing
  | cons x xs ih =>
    exact andThen (h x List.mem_cons_self) (ih fun y hy => h y (List.mem_cons_of_mem x hy))

end Contribution

/-- The triples that a declaration can give: the type, the label and the description of an
entity. -/
inductive Declares (subject : Term) (language : String) (e : Entity) : Triple → Prop where
  | type : Declares subject language e ⟨subject, Vocabulary.type, declarationClass e.kind⟩
  | label : Declares subject language e ⟨subject, Vocabulary.label, textLiteral e.label none⟩
  | definition (text : String) :
    Declares subject language e ⟨subject, skos "definition", textLiteral text (some language)⟩

theorem declares_of_mem {subject : Term} {language : String} {e : Entity} {t : Triple}
    (h : t ∈ declaration subject language e) : Declares subject language e t := by
  simp only [declaration, List.mem_append, List.mem_singleton] at h
  rcases h with (rfl | h) | h
  · exact .type
  · split at h
    · cases h
    · obtain rfl := List.mem_singleton.1 h
      exact .label
  · split at h
    · obtain rfl := List.mem_singleton.1 h
      exact .definition _
    · cases h

variable (r : Resolver)

/-- The triples that an attribute of a class can give. -/
inductive Ascribes (owner : Term) (a : Attribute) : Triple → Prop where
  | type : Ascribes owner a ⟨r.resolve a.name, Vocabulary.type, owl "DatatypeProperty"⟩
  | label : Ascribes owner a ⟨r.resolve a.name, Vocabulary.label, textLiteral a.name none⟩
  | domain : Ascribes owner a ⟨r.resolve a.name, rdfs "domain", owner⟩
  | range : Ascribes owner a ⟨r.resolve a.name, rdfs "range", r.resolveDatatype a.type⟩

theorem emitAttribute_eq (owner : Term) (a : Attribute) : ∃ xs,
    emitAttribute r owner a = Emission.ofTriples xs ∧ ∀ t ∈ xs, Ascribes r owner a t := by
  by_cases blank : Text.strip a.name = ""
  · refine ⟨[], ?_, by simp⟩
    funext n
    rw [emitAttribute, if_pos blank]
  · refine ⟨_, funext fun n => if_neg blank, fun t ht => ?_⟩
    simp only [List.cons_append, List.nil_append, List.mem_cons] at ht
    rcases ht with rfl | rfl | rfl | ht
    · exact .type
    · exact .label
    · exact .domain
    · split at ht
      · cases ht
      · obtain rfl := List.mem_singleton.1 ht
        exact .range

/-- The term of an ontology: its own IRI, or else the base without the mark at its end. -/
def ontologyOf (m : Metadata) : Term :=
  let bare := Text.stripRight (fun c => c == '#' || c == '/') r.base.toList
  .iri (Text.orElse m.ontologyIri (String.ofList bare))

/-- The triples that the settings of an ontology can give, apart from annotations. -/
inductive Opens (language : String) (m : Metadata) : Triple → Prop where
  | type : Opens language m ⟨ontologyOf r m, Vocabulary.type, owl "Ontology"⟩
  | version {iri : String} (known : m.versionIri.bind Text.nonEmpty = some iri) :
    Opens language m ⟨ontologyOf r m, owl "versionIRI", .iri iri⟩
  | comment (text : String) :
    Opens language m ⟨ontologyOf r m, rdfs "comment", textLiteral text (some language)⟩

theorem emitHeader_eq (language : String) (m : Metadata) : ∃ opening,
    emitHeader r language m = (fun n => (Emission.ofTriples opening n).andThen
      (Emission.each (annotate r (ontologyOf r m)) m.annotations)) ∧
      ∀ t ∈ opening, Opens r language m t := by
  refine ⟨_, rfl, fun t ht => ?_⟩
  simp only [List.cons_append, List.mem_cons, List.mem_append] at ht
  rcases ht with rfl | ht | ht
  · exact .type
  · split at ht
    · rename_i known
      obtain rfl := List.mem_singleton.1 ht
      exact .version known
    · cases ht
  · split at ht
    · obtain rfl := List.mem_singleton.1 ht
      exact .comment _
    · cases ht

@[simp] theorem nodes_textLiteral (value : String) (language : Option String) :
    (textLiteral value language).nodes = [] :=
  Term.nodes_literal _

theorem nodes_subjectOf (e : Entity) : (subjectOf r e).nodes = [] := by
  unfold subjectOf
  split
  · exact r.nodes_resolve _
  · exact r.nodes_resolve _

theorem nodes_annotationObject (a : Annotation) : (annotationObject r a).nodes = [] := by
  unfold annotationObject
  simp only
  split
  · exact r.nodes_termOf _
  · split
    · exact Term.nodes_literal _
    · exact nodes_textLiteral _ _

theorem nodes_listOf (expression : String) : (Expression.listOf r expression).nodes = [] := by
  rw [Expression.listOf, Term.nodes_list]
  refine Term.nodesIn_eq_nil fun t ht => ?_
  obtain ⟨token, _, rfl⟩ := List.mem_map.1 ht
  exact r.nodes_resolve token

theorem nodes_declarationClass (kind : EntityKind) : (declarationClass kind).nodes = [] := by
  cases kind <;> exact Term.nodes_iri _

/-- A triple of named terms. -/
theorem nodes_triple {subject predicate object : Term} (hs : subject.nodes = [])
    (hp : predicate.nodes = []) (ho : object.nodes = []) :
    Triple.nodes ⟨subject, predicate, object⟩ = [] := by
  simp [Triple.nodes, hs, hp, ho]

section Entity

variable {r} {subject : Term} (named : subject.nodes = [])
include named

theorem contribution_annotate (a : Annotation) : Contribution r (annotate r subject a) := by
  unfold annotate
  cases r.resolve a.property with
  | iri property =>
    refine .triples fun t ht => ?_
    obtain rfl := List.mem_singleton.1 ht
    exact nodes_triple named (Term.nodes_iri property) (nodes_annotationObject r a)
  | blank _ => exact .warning _
  | literal _ => exact .warning _
  | list _ => exact .warning _

theorem contribution_emitAttribute (a : Attribute) :
    Contribution r (emitAttribute r subject a) := by
  obtain ⟨xs, same, drawn⟩ := emitAttribute_eq r subject a
  rw [same]
  refine .triples fun t ht => ?_
  cases drawn t ht with
  | type => exact nodes_triple (r.nodes_resolve _) Vocabulary.nodes_type (Vocabulary.nodes_owl _)
  | label => exact nodes_triple (r.nodes_resolve _) Vocabulary.nodes_label (nodes_textLiteral _ _)
  | domain => exact nodes_triple (r.nodes_resolve _) (Vocabulary.nodes_rdfs _) named
  | range =>
    exact nodes_triple (r.nodes_resolve _) (Vocabulary.nodes_rdfs _) (r.nodes_resolveDatatype _)

theorem contribution_emitCharacteristic (a : Attribute) :
    Contribution r (emitCharacteristic subject a) := by
  have single (name : String) : ∀ t ∈ [(⟨subject, Vocabulary.type, owl name⟩ : Triple)],
      t.nodes = [] := by
    intro t ht
    obtain rfl := List.mem_singleton.1 ht
    exact nodes_triple named Vocabulary.nodes_type (Vocabulary.nodes_owl name)
  unfold emitCharacteristic
  cases h : characteristicClass? (String.join (Text.words a.name)) with
  | some name =>
    simp only [h]
    exact .triples (single name)
  | none =>
    simp only [h]
    exact .plain _ (single _)

theorem contribution_emitList (name expression : String) :
    Contribution r (emitList r subject name expression) := by
  refine .triples fun t ht => ?_
  obtain rfl := List.mem_singleton.1 ht
  exact nodes_triple named (Vocabulary.nodes_owl name) (nodes_listOf r expression)

theorem contribution_emitRestriction (e : Entity) (a : Axiom) :
    Contribution r (emitRestriction r e subject a) := by
  unfold emitRestriction
  cases e.isProperty with
  | true =>
    simp only [if_true]
    exact .warning _
  | false =>
    by_cases nameless : Text.underscored a.name = ""
    · simp only [nameless, if_true, Bool.false_eq_true, if_false]
      exact .warning _
    · simp only [nameless, Bool.false_eq_true, if_false]
      exact .link _ named Vocabulary.nodes_subClassOf

theorem contribution_emitRange (e : Entity) (expression : String) :
    Contribution r (emitRange r e subject expression) := by
  unfold emitRange
  cases (decide (e.kind = .dataProperty) && (Text.words expression).length == 1) with
  | true =>
    simp only [if_true]
    refine .triples fun t ht => ?_
    obtain rfl := List.mem_singleton.1 ht
    exact nodes_triple named (Vocabulary.nodes_rdfs _) (r.nodes_resolveDatatype expression)
  | false =>
    simp only [Bool.false_eq_true, if_false]
    exact .link _ named (Vocabulary.nodes_rdfs _)

theorem contribution_emitKind (e : Entity) (a : Axiom) :
    Contribution r (emitKind r e subject a) := by
  have link {predicate : Term} (hp : predicate.nodes = []) :
      Contribution r (emitLink r subject predicate a.expression) :=
    .link a.expression named hp
  have either {onProperty onClass : Term} (hp : onProperty.nodes = []) (hc : onClass.nodes = []) :
      (if e.isProperty then onProperty else onClass).nodes = [] := by
    split
    · exact hp
    · exact hc
  unfold emitKind
  cases AxiomKind.ofName a.name with
  | subClassOf => exact link (either (Vocabulary.nodes_rdfs _) Vocabulary.nodes_subClassOf)
  | superClassOf => exact .backLink a.expression named
  | disjointWith => exact link (either (Vocabulary.nodes_owl _) Vocabulary.nodes_disjointWith)
  | equivalentTo => exact link (either (Vocabulary.nodes_owl _) (Vocabulary.nodes_owl _))
  | unionOf => exact contribution_emitList named _ _
  | intersectionOf => exact contribution_emitList named _ _
  | oneOf => exact contribution_emitList named _ _
  | disjointUnionOf => exact contribution_emitList named _ _
  | hasKey => exact contribution_emitList named _ _
  | propertyChain => exact contribution_emitList named _ _
  | complementOf => exact link (Vocabulary.nodes_owl _)
  | sameAs => exact link (Vocabulary.nodes_owl _)
  | differentFrom => exact link (Vocabulary.nodes_owl _)
  | types => exact link Vocabulary.nodes_type
  | subPropertyOf => exact link (Vocabulary.nodes_rdfs _)
  | inverseOf => exact link (Vocabulary.nodes_owl _)
  | domain => exact link (Vocabulary.nodes_rdfs _)
  | range => exact contribution_emitRange named e a.expression
  | implicitRestriction => exact contribution_emitRestriction named e a

theorem contribution_emitAxiom (e : Entity) (a : Axiom) :
    Contribution r (emitAxiom r e subject a) := by
  unfold emitAxiom
  simp only
  by_cases empty : Text.strip a.expression = ""
  · simp only [empty, if_true]
    exact .triples (by simp)
  simp only [empty, if_false]
  cases (AxiomKind.ofName a.name).isPropertyOnly && !e.isProperty with
  | true =>
    simp only [if_true]
    exact .warning _
  | false =>
    simp only [Bool.false_eq_true, if_false]
    cases (AxiomKind.ofName a.name).isClassOnly && e.isProperty with
    | true =>
      simp only [if_true]
      exact .warning _
    | false =>
      simp only [Bool.false_eq_true, if_false]
      exact contribution_emitKind named e a

end Entity

theorem nodes_declaration {subject : Term} (named : subject.nodes = []) (language : String)
    (e : Entity) : ∀ t ∈ declaration subject language e, t.nodes = [] := by
  intro t ht
  cases declares_of_mem ht with
  | type => exact nodes_triple named Vocabulary.nodes_type (nodes_declarationClass _)
  | label => exact nodes_triple named Vocabulary.nodes_label (nodes_textLiteral _ _)
  | definition text => exact nodes_triple named (Vocabulary.nodes_skos _) (nodes_textLiteral _ _)

theorem contribution_emitEntity (language : String) (e : Entity) :
    Contribution r (emitEntity r language e) := by
  have named := nodes_subjectOf r e
  exact ((((Contribution.triples (nodes_declaration named language e)).andThen
    (.each fun a _ => contribution_annotate named a)).andThen
    (.each fun a _ => contribution_emitAttribute named a)).andThen
    (.each fun a _ => contribution_emitCharacteristic named a)).andThen
    (.each fun a _ => contribution_emitAxiom named e a)

theorem contribution_emitHeader (language : String) (m : Metadata) :
    Contribution r (emitHeader r language m) := by
  have own : (ontologyOf r m).nodes = [] := Term.nodes_iri _
  obtain ⟨opening, same, drawn⟩ := emitHeader_eq r language m
  rw [same]
  refine .andThen (.triples fun t ht => ?_) (.each fun a _ => contribution_annotate own a)
  cases drawn t ht with
  | type => exact nodes_triple own Vocabulary.nodes_type (Vocabulary.nodes_owl _)
  | version known => exact nodes_triple own (Vocabulary.nodes_owl _) (Term.nodes_iri _)
  | comment text => exact nodes_triple own (Vocabulary.nodes_rdfs _) (nodes_textLiteral _ _)

theorem nodes_structural? {label : String} {predicate : Term}
    (h : Vocabulary.structural? label = some predicate) : predicate.nodes = [] := by
  have all : ∀ p ∈ [Vocabulary.type, Vocabulary.subClassOf, Vocabulary.disjointWith],
      p.nodes = [] := by simp
  exact all predicate (Vocabulary.mem_of_structural? h)

namespace Canvas

variable {c : Canvas}

section Entities

variable {r : Resolver} {inferred : Bool} {entities : List Entity} {e : Entity}

theorem mem_of_byId {id : String} (h : (of r inferred entities).byId.get? id = some e) :
    e ∈ entities := by
  obtain ⟨known, there, same⟩ := List.mem_map.1 (Table.mem_of_get?_ofList h)
  cases same
  exact there

theorem mem_of_properties {label : String}
    (h : (of r inferred entities).properties.get? label = some e) : e ∈ entities := by
  obtain ⟨known, there, same⟩ := List.mem_map.1 (Table.mem_of_get?_ofList h)
  cases same
  exact (List.mem_filter.1 there).1

end Entities

/-- What holds of every triple of each relation, whatever was declared before it, holds of every
triple of all of them. -/
theorem forall_relations {P : Triple → Prop} {es : List Relation}
    (one : ∀ declared, ∀ e ∈ es, ∀ t ∈ (c.relation declared e).1, P t) (declared : List String) :
    ∀ t ∈ (c.relations declared es).1, P t := by
  induction es generalizing declared with
  | nil => exact fun _ ht => absurd ht List.not_mem_nil
  | cons e es ih =>
    refine List.forall_mem_append.2 ⟨one declared e List.mem_cons_self, ih ?_ _⟩
    exact fun declared f hf => one declared f (List.mem_cons_of_mem e hf)

/-- The triples that a relation can give: the edge itself, and the declaration of its predicate. -/
inductive Draws (c : Canvas) (e : Relation) : Triple → Prop where
  | edge {source target : Entity} {predicate : Term}
    (atSource : c.byId.get? e.source = some source) (atTarget : c.byId.get? e.target = some target)
    (named : Vocabulary.structural? e.label = some predicate ∨
      c.predicate? e.label = some predicate) :
    Draws c e ⟨subjectOf c.resolver source, predicate, subjectOf c.resolver target⟩
  | declaration {predicate : Term} (named : c.predicate? e.label = some predicate) {kind : String}
    (known : kind ∈ ["DatatypeProperty", "ObjectProperty"]) :
    Draws c e ⟨predicate, Vocabulary.type, owl kind⟩

theorem draws_of_mem_relation {declared : List String} {e : Relation} {t : Triple}
    (h : t ∈ (c.relation declared e).1) : Draws c e t := by
  unfold relation at h
  split at h
  · cases h
  split at h
  · rename_i source target atSource atTarget
    simp only at h
    split at h
    · rename_i structural
      obtain rfl := List.mem_singleton.1 h
      exact .edge atSource atTarget (Or.inl structural)
    split at h
    · cases h
    rename_i named
    split at h
    · obtain rfl := List.mem_singleton.1 h
      exact .edge atSource atTarget (Or.inr named)
    · simp only [List.mem_cons, List.not_mem_nil, or_false] at h
      rcases h with rfl | rfl
      · exact .declaration named (by split <;> simp)
      · exact .edge atSource atTarget (Or.inr named)
  · cases h

variable (c)

theorem nodes_predicate? {label : String} {predicate : Term}
    (h : c.predicate? label = some predicate) : predicate.nodes = [] := by
  unfold predicate? at h
  split at h
  · exact Option.some.inj h ▸ nodes_subjectOf _ _
  · split at h
    · exact Option.some.inj h ▸ Term.nodes_iri _
    · cases h

/-- Relations speak of no anonymous nodes. -/
theorem nodes_relation (declared : List String) (e : Relation) :
    ∀ t ∈ (c.relation declared e).1, t.nodes = [] := by
  intro t ht
  cases draws_of_mem_relation ht with
  | edge atSource atTarget named =>
    exact nodes_triple (nodes_subjectOf _ _) (named.elim nodes_structural? c.nodes_predicate?)
      (nodes_subjectOf _ _)
  | declaration named known =>
    exact nodes_triple (c.nodes_predicate? named) Vocabulary.nodes_type (Vocabulary.nodes_owl _)

theorem nodes_relations (declared : List String) (es : List Relation) :
    ∀ t ∈ (c.relations declared es).1, t.nodes = [] :=
  forall_relations (fun declared e _ => c.nodes_relation declared e) declared

end Canvas

theorem contribution_emitRelations (inferred : Bool) (entities : List Entity)
    (relations : List Relation) :
    Contribution r (emitRelations r inferred entities relations) :=
  .plain _ (Canvas.nodes_relations _ _ relations)

end Ontogram.Encoding
