import Ontogram.Proofs.Growth
import Ontogram.Proofs.OutlineAgreement
import Ontogram.Proofs.Statement

set_option autoImplicit false

namespace Ontogram

/-- The keys that a list of pairs writes are those that its table has. -/
theorem Table.isSome_get?_ofList {α : Type} {pairs : List (String × α)} {key : String} :
    ((ofList pairs).get? key).isSome = true ↔ key ∈ pairs.map Prod.fst := by
  constructor
  · intro there
    obtain ⟨value, found⟩ := Option.isSome_iff_exists.1 there
    exact List.mem_map_of_mem (mem_of_get?_ofList found)
  · exact fun written => isSome_get?_insertAll ⟨[]⟩ (Or.inl written)

/-- What new elements append to a list comes from them, each once. -/
theorem exists_appendNew_eq {α : Type} [DecidableEq α] {seen : List α} (once : seen.Nodup)
    (xs : List α) : ∃ added, appendNew seen xs = seen ++ added ∧ added.Nodup ∧
      ∀ a ∈ added, a ∈ xs := by
  obtain ⟨added, whole⟩ := prefix_appendNew seen xs
  have nodup := nodup_appendNew once xs
  rw [← whole] at nodup
  refine ⟨added, whole.symm, nodup.of_append_right, fun a mem => ?_⟩
  have there : a ∈ appendNew seen xs := whole ▸ List.mem_append_right _ mem
  exact (mem_appendNew.1 there).resolve_left fun old =>
    List.disjoint_of_nodup_append nodup old mem

theorem appendNew_singleton {α : Type} [DecidableEq α] (seen : List α) (a : α) :
    appendNew seen [a] = if a ∈ seen then seen else seen ++ [a] :=
  rfl

open Vocabulary (owl)

/-- Whether a relation is kept among given entities: entities at both ends, inferred only where
inferred relations are wanted, and a label that is structural, that of a property, or an IRI. -/
structure Relation.IsKept (r : Resolver) (inferred : Bool) (entities : List Entity)
    (e : Relation) : Prop where
  wanted : e.inferred = true → inferred = true
  source : ∃ s ∈ entities, s.id = e.source
  target : ∃ t ∈ entities, t.id = e.target
  label : (Vocabulary.structural? e.label).isSome = true ∨
    (∃ p ∈ entities, p.isProperty = true ∧ p.label = e.label) ∨
      Encoding.isIri (r.resolve e.label) = true

namespace Encoding

theorem exists_of_isIri {t : Term} (h : isIri t = true) : ∃ value, t = .iri value := by
  cases t with
  | iri value => exact ⟨value, rfl⟩
  | blank _ | literal _ | list _ => cases h

/-- The kinds of properties. -/
inductive PropertyKind where
  | object
  | data
deriving DecidableEq

namespace PropertyKind

def className : PropertyKind → String
  | object => "ObjectProperty"
  | data => "DatatypeProperty"

def other : PropertyKind → PropertyKind
  | object => data
  | data => object

end PropertyKind

/-- The triple that types a resource as a property of a kind. -/
def typing (predicate : Term) (kind : PropertyKind) : Triple :=
  ⟨predicate, Vocabulary.type, owl kind.className⟩

theorem typing_injective {p q : Term} {kind kind' : PropertyKind}
    (same : typing p kind = typing q kind') : p = q ∧ kind = kind' := by
  cases kind <;> cases kind' <;> simp_all [typing, PropertyKind.className, owl]

/-- The edge of a relation: the entities at its ends and its predicate, which is structural or the
relation's own. -/
structure Edge where
  source : Entity
  target : Entity
  predicate : Term
  structural : Bool

namespace Edge

def triple (r : Resolver) (x : Edge) : Triple :=
  ⟨subjectOf r x.source, x.predicate, subjectOf r x.target⟩

/-- The kind of property that an edge needs: a relation to a datatype is one to values. -/
def kind (x : Edge) : PropertyKind :=
  if x.target.kind = .datatype then .data else .object

/-- The declaration of the predicate of an edge. -/
def typing (x : Edge) : Triple :=
  Encoding.typing x.predicate x.kind

theorem className_kind (x : Edge) : x.kind.className =
    if x.target.kind = .datatype then "DatatypeProperty" else "ObjectProperty" := by
  unfold kind
  split <;> rfl

/-- Whether the predicate of an edge is to be declared where some names are declared. -/
def isNew (declared : List String) (x : Edge) : Bool :=
  !x.structural && nameOf x.predicate ∉ declared

/-- The triples that an edge gives where some names are declared. -/
def added (r : Resolver) (declared : List String) (x : Edge) : List Triple :=
  if x.isNew declared then [x.typing, x.triple r] else [x.triple r]

def declaredAfter (declared : List String) (x : Edge) : List String :=
  if x.isNew declared then nameOf x.predicate :: declared else declared

end Edge

namespace Canvas

def edge? (c : Canvas) (e : Relation) : Option Edge :=
  if e.inferred && !c.inferred then none
  else
    match c.byId.get? e.source, c.byId.get? e.target with
    | some source, some target =>
      match Vocabulary.structural? e.label with
      | some predicate => some ⟨source, target, predicate, true⟩
      | none => (c.predicate? e.label).map fun predicate => ⟨source, target, predicate, false⟩
    | _, _ => none

/-- The edges that declare their predicate: of the edges with one predicate of their own the first,
where its name is not declared before. -/
def introduced (c : Canvas) (declared : List String) : List Relation → List Edge
  | [] => []
  | e :: es =>
    match c.edge? e with
    | none => c.introduced declared es
    | some x =>
      if x.isNew declared then x :: c.introduced (nameOf x.predicate :: declared) es
      else c.introduced declared es

variable (c : Canvas)

/-- A relation that is left out gives nothing and declares nothing. -/
theorem relation_of_left_out {e : Relation} (h : c.edge? e = none) (declared : List String) :
    (c.relation declared e).1 = [] ∧ (c.relation declared e).2.2 = declared := by
  unfold edge? at h
  unfold relation
  by_cases out : (e.inferred && !c.inferred) = true
  · rw [if_pos out]
    exact ⟨rfl, rfl⟩
  rw [if_neg out] at h ⊢
  cases atSource : c.byId.get? e.source with
  | none => exact ⟨rfl, rfl⟩
  | some source =>
    cases atTarget : c.byId.get? e.target with
    | none => exact ⟨rfl, rfl⟩
    | some target =>
      simp only [atSource, atTarget] at h
      cases structural : Vocabulary.structural? e.label with
      | some predicate => simp [structural] at h
      | none =>
        have literal : c.predicate? e.label = none := by simpa [structural] using h
        simp [literal]

/-- A relation that is kept gives what its edge gives. -/
theorem relation_of_edge {e : Relation} {x : Edge} (h : c.edge? e = some x)
    (declared : List String) :
    (c.relation declared e).1 = x.added c.resolver declared ∧
      (c.relation declared e).2.2 = x.declaredAfter declared := by
  unfold edge? at h
  unfold relation
  by_cases out : (e.inferred && !c.inferred) = true
  · rw [if_pos out] at h
    cases h
  rw [if_neg out] at h ⊢
  cases atSource : c.byId.get? e.source with
  | none => simp [atSource] at h
  | some source =>
    cases atTarget : c.byId.get? e.target with
    | none => simp [atSource, atTarget] at h
    | some target =>
      simp only [atSource, atTarget] at h
      cases structural : Vocabulary.structural? e.label with
      | some predicate =>
        simp only [structural, Option.some.injEq] at h
        subst h
        exact ⟨rfl, rfl⟩
      | none =>
        simp only [structural, Option.map_eq_some_iff] at h
        obtain ⟨predicate, own, rfl⟩ := h
        simp only [own]
        by_cases known : nameOf predicate ∈ declared
        · simp [Edge.added, Edge.declaredAfter, Edge.isNew, known, Edge.triple]
        · simp [Edge.added, Edge.declaredAfter, Edge.isNew, known, Edge.triple, Edge.typing,
            Encoding.typing, Edge.className_kind]

theorem relations_cons (declared : List String) (e : Relation) (es : List Relation) :
    (c.relations declared (e :: es)).1 =
      (c.relation declared e).1 ++ (c.relations (c.relation declared e).2.2 es).1 :=
  rfl

/-- The predicate of an edge is the one that the label of its relation stands for. -/
theorem named_of_edge {e : Relation} {x : Edge} (h : c.edge? e = some x) :
    Vocabulary.structural? e.label = some x.predicate ∨
      c.predicate? e.label = some x.predicate := by
  unfold edge? at h
  split at h
  · cases h
  split at h
  · split at h
    · rename_i structural
      obtain rfl := Option.some.inj h
      exact Or.inl structural
    · obtain ⟨predicate, own, rfl⟩ := Option.map_eq_some_iff.1 h
      exact Or.inr own
  · cases h

def edges (relations : List Relation) : List Triple :=
  relations.filterMap fun e => (c.edge? e).map (Edge.triple c.resolver)

section Introduced

variable {c} {declared : List String} {e : Relation} {es : List Relation} {x y : Edge}

theorem introduced_of_left_out (h : c.edge? e = none) :
    c.introduced declared (e :: es) = c.introduced declared es := by
  rw [introduced, h]

theorem introduced_of_new (h : c.edge? e = some x) (isNew : x.isNew declared = true) :
    c.introduced declared (e :: es) = x :: c.introduced (nameOf x.predicate :: declared) es := by
  simp [introduced, h, isNew]

theorem introduced_of_old (h : c.edge? e = some x) (old : x.isNew declared = false) :
    c.introduced declared (e :: es) = c.introduced declared es := by
  simp [introduced, h, old]

/-- Relations give their edges and the declarations of the predicates that they introduce. -/
theorem mem_relations_iff {t : Triple} : t ∈ (c.relations declared es).1 ↔
    t ∈ c.edges es ∨ ∃ x ∈ c.introduced declared es, t = x.typing := by
  induction es generalizing declared with
  | nil => simp [relations, edges, introduced]
  | cons e es ih =>
    rw [relations_cons, List.mem_append, ih]
    cases kept : c.edge? e with
    | none =>
      obtain ⟨nothing, same⟩ := c.relation_of_left_out kept declared
      have rest : c.edges (e :: es) = c.edges es := by simp [edges, kept]
      rw [nothing, same, rest, introduced_of_left_out kept]
      simp
    | some x =>
      obtain ⟨given, after⟩ := c.relation_of_edge kept declared
      have rest : c.edges (e :: es) = x.triple c.resolver :: c.edges es := by simp [edges, kept]
      rw [given, after, rest, Edge.added, Edge.declaredAfter]
      cases isNew : x.isNew declared with
      | true =>
        rw [introduced_of_new kept isNew]
        simp only [if_true, List.mem_cons, List.not_mem_nil, or_false, exists_eq_or_imp]
        tauto
      | false =>
        rw [introduced_of_old kept isNew]
        simp only [Bool.false_eq_true, if_false, List.mem_cons, List.not_mem_nil, or_false]
        tauto

/-- An edge that introduces its predicate is that of a relation, its predicate is not structural,
and the name of it was not declared. -/
theorem exists_of_mem_introduced (h : x ∈ c.introduced declared es) :
    (∃ e ∈ es, c.edge? e = some x) ∧ x.structural = false ∧ nameOf x.predicate ∉ declared := by
  induction es generalizing declared with
  | nil => cases h
  | cons e es ih =>
    have later {known : List String} (sub : declared ⊆ known) (h : x ∈ c.introduced known es) :
        (∃ f ∈ e :: es, c.edge? f = some x) ∧ x.structural = false ∧
          nameOf x.predicate ∉ declared := by
      obtain ⟨⟨f, hf, kept⟩, own, unknown⟩ := ih h
      exact ⟨⟨f, List.mem_cons_of_mem e hf, kept⟩, own, fun old => unknown (sub old)⟩
    cases kept : c.edge? e with
    | none =>
      rw [introduced_of_left_out kept] at h
      exact later (List.Subset.refl _) h
    | some y =>
      cases isNew : y.isNew declared with
      | true =>
        rw [introduced_of_new kept isNew] at h
        rcases List.mem_cons.1 h with rfl | h
        · simp only [Edge.isNew, Bool.and_eq_true, Bool.not_eq_true', decide_eq_true_eq] at isNew
          exact ⟨⟨e, List.mem_cons_self, kept⟩, isNew⟩
        · exact later (List.subset_cons_self _ _) h
      | false =>
        rw [introduced_of_old kept isNew] at h
        exact later (List.Subset.refl _) h

/-- No two edges introduce predicates of one name. -/
theorem eq_of_mem_introduced (hx : x ∈ c.introduced declared es)
    (hy : y ∈ c.introduced declared es) (same : nameOf x.predicate = nameOf y.predicate) :
    x = y := by
  induction es generalizing declared with
  | nil => cases hx
  | cons e es ih =>
    cases kept : c.edge? e with
    | none =>
      rw [introduced_of_left_out kept] at hx hy
      exact ih hx hy
    | some z =>
      cases isNew : z.isNew declared with
      | true =>
        have fresh {w : Edge} (h : w ∈ c.introduced (nameOf z.predicate :: declared) es) :
            nameOf w.predicate ≠ nameOf z.predicate := fun old =>
          (exists_of_mem_introduced h).2.2 (old ▸ List.mem_cons_self)
        rw [introduced_of_new kept isNew] at hx hy
        rcases List.mem_cons.1 hx with rfl | hx
        · rcases List.mem_cons.1 hy with rfl | hy
          · rfl
          · exact absurd same.symm (fresh hy)
        · rcases List.mem_cons.1 hy with rfl | hy
          · exact absurd same (fresh hx)
          · exact ih hx hy
      | false =>
        rw [introduced_of_old kept isNew] at hx hy
        exact ih hx hy

end Introduced

section Kept

variable {r : Resolver} {inferred : Bool} {entities : List Entity}

theorem isSome_byId_iff {id : String} :
    ((of r inferred entities).byId.get? id).isSome = true ↔ ∃ e ∈ entities, e.id = id := by
  rw [of, Entity.byId, Table.isSome_get?_ofList, List.map_map]
  exact List.mem_map

theorem isSome_properties_iff {label : String} :
    ((of r inferred entities).properties.get? label).isSome = true ↔
      label ≠ "" ∧ ∃ p ∈ entities, p.isProperty = true ∧ p.label = label := by
  rw [of, Table.isSome_get?_ofList, List.map_map, List.mem_map]
  simp only [List.mem_filter, Bool.and_eq_true, decide_eq_true_eq, Function.comp_apply]
  constructor
  · rintro ⟨p, ⟨mem, property, named⟩, rfl⟩
    exact ⟨named, p, mem, property, rfl⟩
  · rintro ⟨named, p, mem, property, rfl⟩
    exact ⟨p, ⟨mem, property, named⟩, rfl⟩

/-- A label that is not structural stands for a predicate if a property bears it or it resolves to
an IRI. -/
theorem isSome_predicate?_iff {label : String} :
    ((of r inferred entities).predicate? label).isSome = true ↔
      (∃ p ∈ entities, p.isProperty = true ∧ p.label = label) ∨
        isIri (r.resolve label) = true := by
  have properties : ((of r inferred entities).properties.get? label).isSome = true ↔ _ :=
    isSome_properties_iff
  unfold predicate?
  cases found : (of r inferred entities).properties.get? label with
  | some p =>
    rw [found] at properties
    exact iff_of_true rfl (Or.inl (properties.1 rfl).2)
  | none =>
    have unnamed : (∃ p ∈ entities, p.isProperty = true ∧ p.label = label) → label = "" := by
      rw [found] at properties
      intro there
      by_contra named
      exact Bool.false_ne_true (properties.2 ⟨named, there⟩)
    have iri : isIri (r.resolve "") = true := by
      rw [r.isIri_resolve, Resolver.isQuoted_of_strip_eq_empty (by decide)]
      rfl
    rw [or_iff_right_of_imp fun there => unnamed there ▸ iri]
    have resolver : (of r inferred entities).resolver = r := rfl
    simp only [resolver]
    cases r.resolve label <;> simp [isIri]

/-- What a relation needs to have an edge. -/
theorem isSome_edge?_iff {c : Canvas} {e : Relation} : (c.edge? e).isSome = true ↔
    (e.inferred = true → c.inferred = true) ∧ (c.byId.get? e.source).isSome = true ∧
      (c.byId.get? e.target).isSome = true ∧
      ((Vocabulary.structural? e.label).isSome = true ∨
        (c.predicate? e.label).isSome = true) := by
  unfold edge?
  have wanted : (e.inferred && !c.inferred) = true ↔ ¬(e.inferred = true → c.inferred = true) := by
    simp
  split
  · rename_i out
    simp [wanted.1 out]
  · rename_i stated
    rw [wanted, not_not] at stated
    cases c.byId.get? e.source with
    | none => simp
    | some source =>
      cases c.byId.get? e.target with
      | none => simp
      | some target =>
        cases Vocabulary.structural? e.label with
        | some predicate => simpa using stated
        | none => simpa using fun _ => stated

/-- A relation is kept exactly if it has an edge. -/
theorem isKept_iff {e : Relation} :
    e.IsKept r inferred entities ↔ ∃ x, (of r inferred entities).edge? e = some x := by
  rw [← Option.isSome_iff_exists, isSome_edge?_iff, isSome_byId_iff, isSome_byId_iff,
    isSome_predicate?_iff]
  constructor
  · exact fun h => ⟨h.wanted, h.source, h.target, h.label⟩
  · exact fun ⟨wanted, source, target, label⟩ => ⟨wanted, source, target, label⟩

end Kept

end Canvas

/-- Every name that is declared is that of a resource which a triple types as a property. -/
def IsTyped (triples : List Triple) (declared : List String) : Prop :=
  ∀ name ∈ declared, ∃ kind, typing (.iri name) kind ∈ triples

namespace IsTyped

variable {triples : List Triple} {declared : List String}

theorem mono (h : IsTyped triples declared) {more : List Triple} (sub : triples ⊆ more) :
    IsTyped more declared := fun name old =>
  (h name old).imp fun _ there => sub there

/-- An edge with a named predicate of its own declares nothing without typing it. -/
theorem added (h : IsTyped triples declared) (r : Resolver) {x : Edge}
    (named : x.structural = false → isIri x.predicate = true) :
    IsTyped (triples ++ x.added r declared) (x.declaredAfter declared) := by
  have before := h.mono (List.subset_append_left triples (x.added r declared))
  unfold Edge.declaredAfter
  split
  · rename_i isNew
    intro name mem
    rcases List.mem_cons.1 mem with rfl | old
    · have own : x.structural = false := by simp_all [Edge.isNew]
      obtain ⟨value, iri⟩ := exists_of_isIri (named own)
      refine ⟨x.kind, List.mem_append_right _ ?_⟩
      rw [Edge.added, if_pos isNew]
      simp [Edge.typing, iri, nameOf]
    · exact before name old
  · exact before

/-- Relations with named predicates of their own declare nothing without typing it. -/
theorem relations (h : IsTyped triples declared) (c : Canvas) {es : List Relation}
    (named : ∀ e ∈ es, ∀ x, c.edge? e = some x → x.structural = false →
      isIri x.predicate = true) :
    IsTyped (triples ++ (c.relations declared es).1) (c.declaredAfter declared es) := by
  induction es generalizing triples declared with
  | nil => simpa [Canvas.relations, Canvas.declaredAfter] using h
  | cons e es ih =>
    obtain ⟨first, rest⟩ := List.forall_mem_cons.1 named
    rw [Canvas.relations_cons, ← List.append_assoc]
    refine ih ?_ rest
    cases kept : c.edge? e with
    | none =>
      obtain ⟨nothing, same⟩ := c.relation_of_left_out kept declared
      rwa [nothing, same, List.append_nil]
    | some x =>
      obtain ⟨given, after⟩ := c.relation_of_edge kept declared
      rw [given, after]
      exact h.added c.resolver (first x kept)

end IsTyped

/-- What relations add to an encoding. `encoded` gives the triples of the encoding with the first
relations up to any of them. -/
structure Adds (c : Canvas) (encoded : List Relation → List Triple) (relations : List Relation)
    (added : List Triple) : Prop where
  whole : encoded relations = encoded [] ++ added
  /-- Edges and declarations of predicates that are not structural are all that is added. -/
  only : ∀ t ∈ added, t ∈ c.edges relations ∨
    ∃ e ∈ relations, ∃ x, c.edge? e = some x ∧ x.structural = false ∧ t = x.typing
  edges : ∀ t ∈ c.edges relations, t ∈ encoded relations
  nodup : added.Nodup
  /-- Declarations of one predicate are equal, edges apart that read like one. -/
  once : ∀ predicate kind kind', typing predicate kind ∈ added → typing predicate kind' ∈ added →
    typing predicate kind ∉ c.edges relations → typing predicate kind' ∉ c.edges relations →
    kind = kind'
  /-- When the turn of an edge comes whose predicate is not structural, the predicate is typed: in
  what the relations before it gave, or by the declaration that is added just then. Then the edge
  comes, unless it is there. -/
  typed : ∀ front e back x, relations = front ++ e :: back → c.edge? e = some x →
    x.structural = false → ∃ seen kind,
      (seen = encoded front ∨ seen = encoded front ++ [x.typing]) ∧
      typing x.predicate kind ∈ seen ∧
      (if x.triple c.resolver ∈ seen then seen else seen ++ [x.triple c.resolver]) <+:
        encoded relations

section Ground

variable (r : Resolver) (language : String) (inferred : Bool) {entities : List Entity}
  (metadata : Option Metadata)

/-- The triples of an encoding are those of its entities, the edges of its relations and the
declarations of the predicates that these introduce. -/
theorem mem_withResolver_iff (relations : List Relation) {t : Triple} :
    let c := Canvas.of r inferred entities
    t ∈ (withResolver r language inferred entities relations metadata).triples ↔
      t ∈ (withResolver r language inferred entities [] metadata).triples ∨
        t ∈ c.edges relations ∨
          ∃ x ∈ c.introduced (declaredNames r entities) relations, t = x.typing := by
  intro c
  rw [triples_withResolver_nil, triples_withResolver, mem_firsts, mem_firsts, List.mem_append,
    Canvas.mem_relations_iff]

/-- The class of the declaration of a property is that of its kind. -/
theorem exists_declarationClass_of_isProperty {e : Entity} (property : e.isProperty = true) :
    ∃ kind : PropertyKind, declarationClass e.kind = owl kind.className := by
  unfold Entity.isProperty at property
  cases kind : e.kind with
  | objectProperty => exact ⟨.object, rfl⟩
  | dataProperty => exact ⟨.data, rfl⟩
  | concept | individual | datatype => simp [kind, EntityKind.isProperty] at property

/-- The properties on the canvas are typed by their own declarations. -/
theorem isTyped_declaredNames
    (named : ∀ p ∈ entities, p.isProperty = true → isIri (subjectOf r p) = true) :
    IsTyped (withResolver r language inferred entities [] metadata).triples
      (declaredNames r entities) := by
  intro name known
  obtain ⟨p, mem, rfl⟩ := List.mem_map.1 known
  obtain ⟨mem, property⟩ := List.mem_filter.1 mem
  obtain ⟨kind, declared⟩ := exists_declarationClass_of_isProperty property
  obtain ⟨value, iri⟩ := exists_of_isIri (named p mem property)
  refine ⟨kind, mem_withResolver_of_mem_declaration mem (List.mem_append_left _
    (List.mem_append_left _ (List.mem_singleton.2 ?_)))⟩
  rw [typing, declared, iri, nameOf]

/-- Where the properties on the canvas are named by IRIs, every edge has an IRI as its predicate. -/
theorem Canvas.isIri_predicate_of_edge
    (named : ∀ p ∈ entities, p.isProperty = true → isIri (subjectOf r p) = true) {e : Relation}
    {x : Edge} (h : (Canvas.of r inferred entities).edge? e = some x) :
    isIri x.predicate = true := by
  refine (Canvas.named_of_edge _ h).elim isIri_structural? (Canvas.isIri_predicate? ?_)
  intro p found
  obtain ⟨q, mem, same⟩ := List.mem_map.1 (Table.mem_of_get?_ofList found)
  obtain ⟨mem, property⟩ := List.mem_filter.1 mem
  obtain rfl : q = p := congrArg Prod.snd same
  have iri := named q mem (by simp_all)
  simpa [isIri_subjectOf] using iri

/-- Whatever relations declare is typed in the encoding that they are part of. -/
theorem isTyped_declaredAfter
    (named : ∀ p ∈ entities, p.isProperty = true → isIri (subjectOf r p) = true)
    (relations : List Relation) :
    IsTyped (withResolver r language inferred entities relations metadata).triples
      ((Canvas.of r inferred entities).declaredAfter (declaredNames r entities) relations) := by
  have before := isTyped_declaredNames r language inferred metadata named
  refine (before.relations _ fun e _ x kept _ =>
    Canvas.isIri_predicate_of_edge r inferred named kept).mono ?_
  rw [triples_withResolver_nil, triples_withResolver]
  intro t ht
  rcases List.mem_append.1 ht with ht | ht
  · exact mem_firsts.2 (List.mem_append_left _ (mem_firsts.1 ht))
  · exact mem_firsts.2 (List.mem_append_right _ ht)

/-- The encoding up to a relation that is kept goes on with the declaration of its predicate, if
that is new, and then with its edge. -/
theorem prefix_withResolver_of_edge (front back : List Relation) {e : Relation} {x : Edge}
    (kept : (Canvas.of r inferred entities).edge? e = some x) :
    let before := (withResolver r language inferred entities front metadata).triples
    let declared :=
      (Canvas.of r inferred entities).declaredAfter (declaredNames r entities) front
    let seen := if x.isNew declared then appendNew before [x.typing] else before
    appendNew seen [x.triple r] <+:
      (withResolver r language inferred entities (front ++ e :: back) metadata).triples := by
  intro before declared seen
  obtain ⟨given, -⟩ := Canvas.relation_of_edge _ kept declared
  rw [triples_withResolver_append, Canvas.relations_cons, given, appendNew_append]
  have turn : appendNew before (x.added r declared) = appendNew seen [x.triple r] := by
    unfold Edge.added
    by_cases isNew : x.isNew declared = true
    · simp only [isNew, if_true, seen]
      exact appendNew_append before [x.typing] [x.triple r]
    · simp only [isNew, seen]
      rfl
  rw [← turn]
  exact prefix_appendNew _ _

/-- Where the properties on the canvas are named by IRIs, the predicate of an edge is typed when
its turn has come. -/
theorem exists_typing_of_edge
    (named : ∀ p ∈ entities, p.isProperty = true → isIri (subjectOf r p) = true)
    (front : List Relation) {e : Relation} {x : Edge}
    (kept : (Canvas.of r inferred entities).edge? e = some x) (own : x.structural = false) :
    let before := (withResolver r language inferred entities front metadata).triples
    let declared :=
      (Canvas.of r inferred entities).declaredAfter (declaredNames r entities) front
    let seen := if x.isNew declared then appendNew before [x.typing] else before
    ∃ kind, Encoding.typing x.predicate kind ∈ seen := by
  intro before declared seen
  by_cases isNew : x.isNew declared = true
  · refine ⟨x.kind, ?_⟩
    simp only [seen, isNew, if_true]
    exact mem_appendNew.2 (Or.inr (List.mem_singleton.2 rfl))
  · have known : nameOf x.predicate ∈ declared := by simpa [Edge.isNew, own] using isNew
    simp only [seen, isNew]
    obtain ⟨kind, there⟩ :=
      isTyped_declaredAfter r language inferred metadata named front _ known
    obtain ⟨value, iri⟩ :=
      exists_of_isIri (Canvas.isIri_predicate_of_edge r inferred named kept)
    rw [iri, nameOf] at there
    exact ⟨kind, iri ▸ there⟩

/-- Relations add to the encoding of the entities, whatever it is. -/
theorem adds_withResolver
    (named : ∀ p ∈ entities, p.isProperty = true → isIri (subjectOf r p) = true)
    (relations : List Relation) :
    ∃ added, Adds (Canvas.of r inferred entities)
      (fun es => (withResolver r language inferred entities es metadata).triples) relations
      added := by
  have whole := triples_withResolver_append r language inferred entities [] metadata relations
  obtain ⟨added, grown, nodup, given⟩ := exists_appendNew_eq
    (nodup_firsts (ground r language entities metadata).triples)
    ((Canvas.of r inferred entities).relations (declaredNames r entities) relations).1
  have contributed {t : Triple} (ht : t ∈ added) := Canvas.mem_relations_iff.1 (given t ht)
  refine ⟨added, ⟨?whole, ?only, ?edges, nodup, ?once, ?typed⟩⟩
  case whole =>
    refine whole.trans ?_
    rw [triples_withResolver_nil]
    exact grown
  case only =>
    intro t ht
    refine (contributed ht).imp_right ?_
    rintro ⟨x, introduced, rfl⟩
    obtain ⟨⟨e, mem, kept⟩, own, -⟩ := Canvas.exists_of_mem_introduced introduced
    exact ⟨e, mem, x, kept, own, rfl⟩
  case edges =>
    intro t ht
    exact (mem_withResolver_iff r language inferred metadata relations).2 (Or.inr (Or.inl ht))
  case once =>
    intro predicate kind kind' mem mem' noEdge noEdge'
    obtain ⟨x, introduced, declares⟩ := (contributed mem).resolve_left noEdge
    obtain ⟨y, introduced', declares'⟩ := (contributed mem').resolve_left noEdge'
    obtain ⟨rfl, rfl⟩ := typing_injective declares
    obtain ⟨same, rfl⟩ := typing_injective declares'
    rw [Canvas.eq_of_mem_introduced introduced introduced' (congrArg nameOf same)]
  case typed =>
    rintro front e back x rfl kept own
    obtain ⟨kind, typed⟩ :=
      exists_typing_of_edge r language inferred metadata named front kept own
    refine ⟨_, kind, ?_, typed,
      prefix_withResolver_of_edge r language inferred metadata front back kept⟩
    split
    · rw [appendNew_singleton]
      split
      · exact Or.inl rfl
      · exact Or.inr rfl
    · exact Or.inl rfl

end Ground

/-- Where the properties on the canvas are named by IRIs, the relations that are kept add their
edges to an encoding, and one declaration for each new predicate in front of the edges that have
it. -/
theorem adds_relations (d : Naming) (entities : List Entity) (relations : List Relation)
    (metadata : Option Metadata) :
    let own := (metadata.map d.withMetadata).getD d
    let c := Canvas.of own.resolver own.inferred entities
    (∀ p ∈ entities, p.isProperty = true → isIri (subjectOf own.resolver p) = true) →
      (∀ e : Relation, e.IsKept own.resolver own.inferred entities ↔
        ∃ x, c.edge? e = some x) ∧
      ∃ added, Adds c (fun es => (build d entities es metadata).triples) relations added := by
  intro own c named
  refine ⟨fun e => Canvas.isKept_iff, ?_⟩
  exact adds_withResolver own.resolver own.language own.inferred metadata named relations

/-- A property, two classes and a type of values. -/
def zoo : List Entity :=
  [⟨"1", "eats", none, none, [], .objectProperty [] []⟩,
    ⟨"2", "Dog", none, none, [], .concept [] []⟩, ⟨"3", "Cat", none, none, [], .concept [] []⟩,
    ⟨"4", "xsd:decimal", none, none, [], .datatype⟩]

/-- Edges with the property, with two predicates that are not on the canvas, and with one that is
structural. -/
def zooEdges : List Relation :=
  [⟨"2", "3", "eats", false⟩, ⟨"2", "3", "chases", false⟩, ⟨"3", "4", "weighs", false⟩,
    ⟨"3", "2", "chases", false⟩, ⟨"2", "3", "disjointWith", false⟩]

theorem adds_zooEdges :
    let r := Naming.resolver {}
    (∀ p ∈ zoo, p.isProperty = true → isIri (subjectOf r p) = true) ∧
      (∀ e : Relation, e.IsKept r false zoo ↔ ∃ x, (Canvas.of r false zoo).edge? e = some x) ∧
      ∃ added, Adds (Canvas.of r false zoo) (fun es => (build {} zoo es none).triples) zooEdges
        added := by
  have named : ∀ p ∈ zoo, p.isProperty = true →
      isIri (subjectOf (Naming.resolver {}) p) = true := by
    decide +kernel
  exact ⟨named, adds_relations {} zoo zooEdges none named⟩

end Encoding

end Ontogram
