import Ontogram.Proofs.RelationPass

set_option autoImplicit false

namespace Ontogram.Encoding

/-- Whether no resource is typed as a property of both kinds. -/
def HasOneKind (triples : List Triple) : Prop :=
  ∀ p, ¬(typing p .object ∈ triples ∧ typing p .data ∈ triples)

namespace HasOneKind

variable {triples more : List Triple}

theorem iff_forall : HasOneKind triples ↔
    ∀ p kind, typing p kind ∈ triples → typing p kind.other ∉ triples := by
  constructor
  · rintro h p (_ | _) there other
    · exact h p ⟨there, other⟩
    · exact h p ⟨other, there⟩
  · exact fun h p both => h p .object both.1 both.2

theorem iff_subject : HasOneKind triples ↔ ∀ t ∈ triples, t = typing t.subject .object →
    typing t.subject .data ∉ triples := by
  constructor
  · exact fun h t mem same other => h t.subject ⟨same ▸ mem, other⟩
  · exact fun h p both => h _ both.1 rfl both.2

instance : Decidable (HasOneKind triples) :=
  decidable_of_iff' _ iff_subject

theorem of_subset (h : HasOneKind more) (sub : triples ⊆ more) : HasOneKind triples :=
  fun p both => h p ⟨sub both.1, sub both.2⟩

end HasOneKind

section Canvas

variable (r : Resolver) (language : String) (inferred : Bool) (entities : List Entity)
  (relations : List Relation) (metadata : Option Metadata)

/-- Two declarations of predicates that relations introduce do not differ in the kind alone. -/
theorem Canvas.kind_unique {c : Canvas} {declared : List String} {es : List Relation} {x y : Edge}
    (hx : x ∈ c.introduced declared es) (hy : y ∈ c.introduced declared es)
    (same : x.predicate = y.predicate) : x.kind = y.kind := by
  rw [eq_of_mem_introduced hx hy (congrArg nameOf same)]

/-- Relations leave every property with one kind if entities do and what relations introduce and
draw agrees with it. -/
theorem hasOneKind_withResolver_iff :
    let c := Canvas.of r inferred entities
    let ground := (withResolver r language inferred entities [] metadata).triples
    let whole := (withResolver r language inferred entities relations metadata).triples
    HasOneKind whole ↔ HasOneKind ground ∧
      (∀ x ∈ c.introduced (declaredNames r entities) relations,
        typing x.predicate x.kind.other ∉ ground) ∧
      ∀ p kind, typing p kind ∈ c.edges relations → typing p kind.other ∉ whole := by
  intro c ground whole
  have parts {t : Triple} : t ∈ whole ↔ t ∈ ground ∨ t ∈ c.edges relations ∨
      ∃ x ∈ c.introduced (declaredNames r entities) relations, t = x.typing :=
    mem_withResolver_iff r language inferred metadata relations
  constructor
  · intro one
    refine ⟨one.of_subset fun t ht => parts.2 (Or.inl ht), fun x hx there => ?_,
      fun p kind drawn => ?_⟩
    · exact HasOneKind.iff_forall.1 one x.predicate x.kind (parts.2 (Or.inr (Or.inr ⟨x, hx, rfl⟩)))
        (parts.2 (Or.inl there))
    · exact HasOneKind.iff_forall.1 one p kind (parts.2 (Or.inr (Or.inl drawn)))
  · rintro ⟨before, introduced, drawn⟩ p ⟨object, data⟩
    -- no edge is one of the two, so each is there before or is introduced
    have noEdge (kind : PropertyKind) : typing p kind ∉ c.edges relations := by
      intro edge
      cases kind with
      | object => exact drawn p .object edge data
      | data => exact drawn p .data edge object
    rcases (parts.1 object).imp_right fun h => h.resolve_left (noEdge _) with old | ⟨x, hx, new⟩
    · rcases (parts.1 data).imp_right fun h => h.resolve_left (noEdge _) with old' | ⟨y, hy, new'⟩
      · exact before p ⟨old, old'⟩
      · obtain ⟨rfl, kind⟩ := typing_injective new'
        exact introduced y hy (kind ▸ old)
    · obtain ⟨rfl, kind⟩ := typing_injective new
      rcases (parts.1 data).imp_right fun h => h.resolve_left (noEdge _) with old' | ⟨y, hy, new'⟩
      · exact introduced x hx (kind ▸ old')
      · obtain ⟨same, kind'⟩ := typing_injective new'
        have unique := Canvas.kind_unique hx hy same
        rw [← kind, ← kind'] at unique
        cases unique

/-- Attributes are declared as properties to values. -/
theorem typing_mem_of_attribute {e : Entity} {a : Attribute} (he : e ∈ entities)
    (ha : a ∈ e.attributes) (named : Text.strip a.name ≠ "") :
    typing (r.resolve a.name) .data ∈
      (withResolver r language inferred entities relations metadata).triples := by
  have part (n : Int) :
      typing (r.resolve a.name) .data ∈ (emitAttribute r (subjectOf r e) a n).triples := by
    rw [emitAttribute, if_neg named]
    exact List.mem_append_left _ List.mem_cons_self
  exact mem_withResolver_of_mem_emitEntity he fun _ => List.mem_append_left _
    (List.mem_append_left _ (List.mem_append_right _ (Emission.mem_each ha part _)))

/-- A relation between things that introduces the name of an attribute gives it both kinds. -/
theorem not_hasOneKind_of_attribute {e : Entity} {a : Attribute} (he : e ∈ entities)
    (ha : a ∈ e.attributes) (named : Text.strip a.name ≠ "") {x : Edge}
    (hx : x ∈ (Canvas.of r inferred entities).introduced (declaredNames r entities) relations)
    (same : x.predicate = r.resolve a.name) (object : x.kind = .object) :
    ¬HasOneKind (withResolver r language inferred entities relations metadata).triples := by
  intro one
  obtain ⟨-, introduced, -⟩ :=
    (hasOneKind_withResolver_iff r language inferred entities relations metadata).1 one
  refine introduced x hx ?_
  rw [same, object]
  exact typing_mem_of_attribute r language inferred entities [] metadata he ha named

end Canvas

/-- An encoding types no resource as a property of both kinds exactly if its entities by themselves
do not, what they say of a predicate that relations introduce is not that it has the other kind, and
no edge is drawn that says so. -/
theorem hasOneKind_build_iff (d : Naming) (entities : List Entity) (relations : List Relation)
    (metadata : Option Metadata) :
    let own := (metadata.map d.withMetadata).getD d
    let c := Canvas.of own.resolver own.inferred entities
    HasOneKind (build d entities relations metadata).triples ↔
      HasOneKind (build d entities [] metadata).triples ∧
      (∀ x ∈ c.introduced (declaredNames own.resolver entities) relations,
        typing x.predicate x.kind.other ∉ (build d entities [] metadata).triples) ∧
      ∀ p kind, typing p kind ∈ c.edges relations →
        typing p kind.other ∉ (build d entities relations metadata).triples :=
  hasOneKind_withResolver_iff _ _ _ entities relations metadata

/-- People, who have an age in years, and the ages of life. -/
def people : List Entity :=
  [⟨"1", "Person", none, none, [], .concept [⟨"age", "xsd:integer"⟩] []⟩,
    ⟨"2", "Childhood", none, none, [], .concept [] []⟩]

def peopleEdges : List Relation :=
  [⟨"1", "2", "age", false⟩]

/-- The relation declares once more what the attribute declared, as a property between things. -/
theorem not_hasOneKind_people : HasOneKind (build {} people [] none).triples ∧
    ¬HasOneKind (build {} people peopleEdges none).triples := by
  decide +kernel

end Ontogram.Encoding
