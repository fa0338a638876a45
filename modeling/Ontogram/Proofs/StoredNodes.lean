import Ontogram.Outline
import Ontogram.Proofs.EncodedTerms
import Ontogram.Proofs.Forest
import Ontogram.Proofs.NodeText
import Ontogram.Query.Store

set_option autoImplicit false

namespace Ontogram

namespace Triple

def terms (t : Triple) : List Term :=
  [t.subject, t.predicate, t.object]

theorem Over.of_mem {P : Term → Prop} {t : Triple} (h : t.Over P) : ∀ term ∈ t.terms, P term :=
  List.forall_mem_cons.2 ⟨h.subject, List.forall_mem_cons.2 ⟨h.predicate,
    List.forall_mem_singleton.2 h.object⟩⟩

theorem mem_nodes_of_mem {t : Triple} {label : String} (h : .blank label ∈ t.terms) :
    label ∈ t.nodes := by
  have own : label ∈ (Term.blank label).nodes := by simp [Term.nodes]
  simp only [terms, List.mem_cons, List.not_mem_nil, or_false] at h
  rw [nodes, List.mem_append, List.mem_append]
  rcases h with h | h | h
  · exact Or.inl (Or.inl (h ▸ own))
  · exact Or.inl (Or.inr (h ▸ own))
  · exact Or.inr (h ▸ own)

end Triple

theorem Fact.exists_of_mem_texts {t : Triple} {text : String} (h : text ∈ (ofTriple t).texts) :
    ∃ term ∈ t.terms, text = term.display := by
  obtain ⟨term, mem, same⟩ := List.mem_map.1 (show text ∈ t.terms.map Term.display from h)
  exact ⟨term, mem, same.symm⟩

/-- Whether the texts of a store that look like nodes are those of nodes with numbers below `n`. -/
def Store.HasNodesBelow (store : Store) (n : Int) : Prop :=
  ∀ f ∈ store, ∀ text ∈ f.texts,
    isNodeText text = true ↔ ∃ m, 0 ≤ m ∧ m < n ∧ text = (blankNode m).display

/-! Names. -/

namespace Resolver

variable {r : Resolver} (apart : r.StaysApart) {s : String} (other : ¬ r.WritesNodeAs s)
include apart other

theorem isNodeName_resolve : (r.resolve s).isNodeName = false :=
  Bool.eq_false_iff.2 fun h =>
    other ((isNodeText_resolve_iff apart s).1 (Term.isNodeText_of_isNodeName h))

theorem isNodeName_resolveDatatype : (r.resolveDatatype s).isNodeName = false := by
  unfold resolveDatatype
  split
  · rename_i name _
    exact staysApart_vocabulary Namespace.xsd (by simp) name
  · exact isNodeName_resolve apart other

theorem isNodeName_resolveValue : (r.resolveValue s).isNodeName = false := by
  unfold resolveValue
  simp only
  split
  · rfl
  rename_i unquoted
  split
  · rfl
  split
  · rfl
  split
  · rfl
  · exact Bool.eq_false_iff.2 fun h => other (writesNode_of_iriOf apart unquoted h)

end Resolver

/-- Whether no setting of an ontology and no name in its annotations looks like a node. -/
structure Metadata.NamesNoNode (r : Resolver) (m : Metadata) : Prop where
  ontology : ∀ iri ∈ m.ontologyIri, isNodeText iri = false
  version : ∀ iri ∈ m.versionIri, isNodeText iri = false
  annotations : ∀ a ∈ m.annotations, a.Names (fun s => ¬ r.WritesNodeAs s) fun _ => True

namespace Encoding

/-- Whether no name in a diagram is read as a term that looks like a node. -/
structure NamesNoNode (r : Resolver) (entities : List Entity) (relations : List Relation)
    (metadata : Option Metadata) : Prop where
  entities : ∀ e ∈ entities, e.Names (fun s => ¬ r.WritesNodeAs s) fun _ => True
  relations : ∀ e ∈ relations, ¬ r.WritesNodeAs e.label
  metadata : ∀ m ∈ metadata, m.NamesNoNode r

section Named

variable {r : Resolver} (apart : r.StaysApart)
include apart

/-- What the other names are read as looks like no node, and neither do literals, lists and words of
the vocabulary. -/
theorem permits_namesNoNode : Permits r (fun s => ¬ r.WritesNodeAs s) (fun _ => True)
    fun t => t.isNodeName = false where
  name _ := Resolver.isNodeName_resolve apart
  datatype _ := Resolver.isNodeName_resolveDatatype apart
  value _ := Resolver.isNodeName_resolveValue apart
  node _ := rfl
  word w _ := staysApart_vocabulary Namespace.owl (by simp) w
  truth := rfl
  count _ := rfl
  list _ _ := rfl
  vocabulary space mem name _ :=
    staysApart_vocabulary space (List.mem_append_left [Namespace.xsd] mem) name
  quoted _ := rfl
  text _ _ _ := rfl
  names _ := rfl

theorem isNodeName_ontologyOf {m : Metadata} (h : m.NamesNoNode r) :
    (ontologyOf r m).isNodeName = false := by
  have bare : isNodeText (String.ofList (Text.stripRight (fun c => c == '#' || c == '/')
      r.base.toList)) = false := by
    refine Bool.eq_false_iff.2 fun node => ?_
    have whole := isNodeText_of_prefix (List.rdropWhile_prefix _ r.base.toList) node
    rw [String.ofList_toList, apart.base.isNodeText_eq_false] at whole
    cases whole
  exact Text.orElse_of (P := fun iri => isNodeText iri = false) h.ontology bare

theorem isNodeName_emit {entities : List Entity} {relations : List Relation}
    {metadata : Option Metadata} (names : NamesNoNode r entities relations metadata)
    (language : String) (inferred : Bool) :
    ∀ t ∈ (emit r language inferred entities relations metadata).triples,
      t.Over fun s => s.isNodeName = false := by
  refine (permits_namesNoNode apart).emit trivial inferred names.entities names.relations
    fun m mem => ?_
  have settings := names.metadata m mem
  refine ⟨isNodeName_ontologyOf apart settings, fun iri known => ?_, settings.annotations⟩
  exact settings.version iri (Text.mem_of_nonEmpty known)

end Named

/-- The texts that look like nodes are those of the nodes that were made. -/
theorem hasNodesBelow_withResolver {base baseName : String} {more : List (String × String)}
    (plain : (Resolver.create base baseName more).IsPlain) {entities : List Entity}
    {relations : List Relation} {metadata : Option Metadata}
    (names : NamesNoNode (Resolver.create base baseName more) entities relations metadata)
    (language : String) (inferred : Bool) :
    let t := withResolver (Resolver.create base baseName more) language inferred entities relations
      metadata
    Store.HasNodesBelow (t.triples.map Fact.ofTriple) t.nodes := by
  intro t f mem text there
  obtain ⟨s, stated, rfl⟩ := List.mem_map.1 mem
  obtain ⟨term, place, rfl⟩ := Fact.exists_of_mem_texts there
  constructor
  · intro node
    have named := isNodeName_emit plain.staysApart names language inferred s (mem_firsts.1 stated)
    rcases Term.isNodeText_display node with name | ⟨label, rfl⟩
    · rw [named.of_mem _ place] at name
      cases name
    · have forest := (woven_emit (Resolver.create base baseName more) language inferred entities
        relations metadata).isForest
      obtain ⟨m, lower, upper, rfl⟩ :=
        (forest.occurs label).1 ⟨s, stated, Triple.mem_nodes_of_mem place⟩
      exact ⟨m, lower, upper, rfl⟩
  · rintro ⟨m, -, -, same⟩
    rw [same, blankNode_eq, Term.isNodeText_blank]

end Encoding

/-! Outlines. -/

namespace Outline

section Apart

variable {base : String} (apart : StaysApart base)
include apart

theorem isNodeText_iriOf {e : Entity} (own : ∀ iri ∈ e.iri, isNodeText iri = false) :
    isNodeText (iriOf base e) = false :=
  Text.orElse_of (P := fun iri => isNodeText iri = false) own (apart _)

variable {entities : List Entity}
  (own : ∀ e ∈ entities, ∀ iri ∈ e.iri, isNodeText iri = false)
include own

theorem isNodeText_eq_false_of_iris {id iri : String}
    (found : (iris base entities).get? id = some iri) : isNodeText iri = false := by
  obtain ⟨e, mem, same⟩ := List.mem_map.1 (Table.mem_of_get?_ofList found)
  exact (Prod.mk.inj same).2 ▸ isNodeText_iriOf apart (own e mem)

theorem isNodeText_getD (id : String) {iri : String} (otherwise : isNodeText iri = false) :
    isNodeText (((iris base entities).get? id).getD iri) = false := by
  cases found : (iris base entities).get? id with
  | none => exact otherwise
  | some iri => exact isNodeText_eq_false_of_iris apart own found

theorem isNodeText_predicateOf (properties : Table String) (label : String) :
    isNodeText (predicateOf base (iris base entities) properties label).display = false := by
  unfold predicateOf
  split
  · rename_i predicate structural
    have words : ∀ p ∈ [Vocabulary.type, Vocabulary.subClassOf, Vocabulary.disjointWith],
        isNodeText p.display = false := by decide
    exact words predicate (Vocabulary.mem_of_structural? structural)
  split
  · exact isNodeText_getD apart own _ apart.isNodeText_eq_false
  split
  · rename_i absolute
    refine Bool.eq_false_iff.2 fun node => ?_
    obtain ⟨rest, text⟩ := isNodeText_iff.1 node
    rw [Term.display] at text
    simp [text] at absolute
  · exact apart _

/-- Nothing in an outline looks like a node. -/
theorem isNodeText_ofEntity {e : Entity} (mem : e ∈ entities) :
    ∀ t ∈ ofEntity base (iris base entities) e, t.Over fun s => isNodeText s.display = false := by
  have subject := isNodeText_getD apart own e.id (isNodeText_iriOf apart (own e mem))
  have kind : isNodeText (Encoding.declarationClass e.kind).display = false := by
    cases e.kind <;> decide
  have text (s : String) : isNodeText (Encoding.textLiteral s none).display = false :=
    isNodeText_quoted _ _
  have type : isNodeText Vocabulary.type.display = false := by decide
  have label : isNodeText Vocabulary.label.display = false := by decide
  unfold ofEntity
  simp only
  refine List.forall_mem_append.2 ⟨?_, List.forall_mem_map.2 fun a _ => ?_⟩
  · exact List.forall_mem_cons.2 ⟨Triple.over_mk subject type kind,
      List.forall_mem_singleton.2 (Triple.over_mk subject label (text e.label))⟩
  · exact Triple.over_mk subject (apart _) (text a.name)

theorem isNodeText_ofRelation? {properties : Table String} {e : Relation} {t : Triple}
    (drawn : ofRelation? base (iris base entities) properties e = some t) :
    t.Over fun s => isNodeText s.display = false := by
  have predicate := isNodeText_predicateOf apart own properties
  unfold ofRelation? at drawn
  split at drawn
  · rename_i source target
    have start := isNodeText_eq_false_of_iris apart own source
    have finish := isNodeText_eq_false_of_iris apart own target
    exact Option.some.inj drawn ▸ Triple.over_mk start (predicate _) finish
  · cases drawn

end Apart

theorem hasNodesBelow_of {base : String} (plain : isNodeText (Namespace.closed base) = false)
    {entities : List Entity} (own : ∀ e ∈ entities, ∀ iri ∈ e.iri, isNodeText iri = false)
    (relations : List Relation) :
    Store.HasNodesBelow ((Outline.of base entities relations).triples.map Fact.ofTriple) 0 := by
  intro f mem text there
  obtain ⟨t, stated, rfl⟩ := List.mem_map.1 mem
  obtain ⟨term, place, rfl⟩ := Fact.exists_of_mem_texts there
  have apart := staysApart_closed plain
  suffices all : t.Over fun s => isNodeText s.display = false by
    refine iff_of_false (by rw [all.of_mem term place]; exact Bool.false_ne_true) ?_
    rintro ⟨m, lower, upper, -⟩
    omega
  rcases List.mem_append.1 stated with entity | relation
  · obtain ⟨e, mem, stated⟩ := List.mem_flatMap.1 entity
    exact isNodeText_ofEntity apart own mem t stated
  · obtain ⟨e, -, drawn⟩ := List.mem_filterMap.1 relation
    exact isNodeText_ofRelation? apart own drawn

end Outline

/-- Which names a resolver reads as terms that look like nodes; and without such names an encoding
has the texts of its nodes alone, and an outline none. -/
theorem isNodeText_iff_isNode {base baseName : String} {more : List (String × String)}
    (plain : (Resolver.create base baseName more).IsPlain) :
    let r := Resolver.create base baseName more
    (∀ token, isNodeText (r.resolve token).display = true ↔ r.WritesNodeAs token) ∧
    (∀ (d : Naming) (entities : List Entity) (relations : List Relation)
      (metadata : Option Metadata),
      ((metadata.map d.withMetadata).getD d).resolver = r →
        Encoding.NamesNoNode r entities relations metadata →
          let t := Encoding.build d entities relations metadata
          Store.HasNodesBelow (t.triples.map Fact.ofTriple) t.nodes) ∧
    (∀ (entities : List Entity) (relations : List Relation),
      (∀ e ∈ entities, ∀ iri ∈ e.iri, isNodeText iri = false) →
        let t := Outline.of base entities relations
        Store.HasNodesBelow (t.triples.map Fact.ofTriple) 0) := by
  refine ⟨Resolver.isNodeText_resolve_iff plain.staysApart, ?_, ?_⟩
  · intro d entities relations metadata settled names
    have named := Encoding.hasNodesBelow_withResolver plain names
    simp only [Encoding.build, settled]
    exact named _ _
  · intro entities relations own
    exact Outline.hasNodesBelow_of plain.base own relations

/-- A class that is labelled like the node in its axiom. -/
def catLikeNode : Entity :=
  { id := "1", label := "_:b0", iri := none, description := none
    annotations := [⟨"_:b1", "_:b2", none⟩]
    body := .concept [⟨"_:b3", "_:b4"⟩] [⟨"SubClassOf", "_:eats some Mouse"⟩] }

theorem hasNodesBelow_catLikeNode :
    let r := Naming.resolver {}
    let relations := [⟨"1", "1", "_:likes", false⟩]
    let t := Encoding.build {} [catLikeNode] relations none
    let u := Outline.of Namespace.defaultBase [catLikeNode] relations
    r.IsPlain ∧ Encoding.NamesNoNode r [catLikeNode] relations none ∧ ¬ r.WritesNodeAs " _:b0 " ∧
      Store.HasNodesBelow (t.triples.map Fact.ofTriple) t.nodes ∧
      Store.HasNodesBelow (u.triples.map Fact.ofTriple) 0 := by
  intro r relations t u
  have plain : r.IsPlain := ⟨by decide, by decide⟩
  have resolved (s : String) (h : isNodeText (r.resolve s).display = false) :
      ¬ r.WritesNodeAs s := Resolver.not_writesNodeAs_of h
  have annotations : ∀ a ∈ catLikeNode.annotations,
      a.Names (fun s => ¬ r.WritesNodeAs s) fun _ => True :=
    List.forall_mem_singleton.2 ⟨resolved _ (by decide), fun _ => resolved _ (by decide),
      fun _ _ => trivial⟩
  have attributes : ∀ a ∈ catLikeNode.attributes, a.Names fun s => ¬ r.WritesNodeAs s :=
    List.forall_mem_singleton.2 ⟨resolved _ (by decide), resolved _ (by decide)⟩
  have axioms : ∀ a ∈ catLikeNode.axioms, a.Names fun s => ¬ r.WritesNodeAs s := by
    refine List.forall_mem_singleton.2 ⟨fun s mem => resolved s ?_, nofun⟩
    revert s
    decide +kernel
  have named : Encoding.NamesNoNode r [catLikeNode] relations none :=
    ⟨List.forall_mem_singleton.2 ⟨resolved _ (by decide), annotations, attributes, axioms⟩,
      List.forall_mem_singleton.2 (resolved _ (by decide)), nofun⟩
  obtain ⟨names, encoded, outlined⟩ := isNodeText_iff_isNode plain
  refine ⟨plain, named, ?_, encoded {} _ _ none rfl named, outlined _ _ ?_⟩
  · exact fun node => absurd ((names " _:b0 ").2 node) (by decide)
  · exact List.forall_mem_singleton.2 nofun

/-- A class that has the text of a node for its IRI. -/
def bracketedNode : Entity :=
  { id := "1", label := "A", iri := some "<_:b0>", description := none, annotations := []
    body := .concept [] [] }

/-- Brackets keep a name from the base, and a store holds the text of a node that was never made. -/
theorem isNodeText_bracketedNode :
    let t := Encoding.build {} [bracketedNode] [] none
    Resolver.default.IsPlain ∧ isNodeText (Resolver.default.resolve "<_:b0>").display = true ∧
      t.nodes = 0 ∧ ∃ f ∈ t.triples.map Fact.ofTriple, f.subject = "_:b0" := by
  refine ⟨⟨by decide, by decide⟩, by decide, by decide +kernel, ?_⟩
  exact ⟨_, List.mem_map_of_mem (List.mem_of_getElem? (i := 0) rfl), by decide +kernel⟩

end Ontogram
