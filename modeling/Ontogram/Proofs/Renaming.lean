import Ontogram.Proofs.Forest

set_option autoImplicit false

namespace Ontogram

open Vocabulary (owl)

namespace Term

mutual

/-- The term with other labels for its anonymous nodes. -/
def rename (f : String → String) : Term → Term
  | iri value => iri value
  | blank label => blank (f label)
  | literal l => literal l
  | list items => list (renameIn f items)

/-- The items of a list with other labels for their anonymous nodes. -/
def renameIn (f : String → String) : List Term → List Term
  | [] => []
  | t :: ts => t.rename f :: renameIn f ts

end

mutual

/-- Only what a renaming does to the labels of a term matters. -/
theorem rename_congr {f g : String → String} : (t : Term) →
    (∀ label ∈ t.nodes, f label = g label) → t.rename f = t.rename g
  | iri _, _ => by rw [rename, rename]
  | blank label, h => by
    rw [rename, rename, h label (by simp [nodes])]
  | literal _, _ => by rw [rename, rename]
  | list items, h => by
    rw [nodes_list] at h
    rw [rename, rename, renameIn_congr items h]

theorem renameIn_congr {f g : String → String} : (ts : List Term) →
    (∀ label ∈ nodesIn ts, f label = g label) → renameIn f ts = renameIn g ts
  | [], _ => by rw [renameIn, renameIn]
  | t :: ts, h => by
    rw [nodesIn_cons] at h
    rw [renameIn, renameIn,
      rename_congr t fun label there => h label (List.mem_append_left _ there),
      renameIn_congr ts fun label there => h label (List.mem_append_right _ there)]

end

mutual

theorem rename_id : (t : Term) → t.rename id = t
  | iri _ => by rw [rename]
  | blank _ => by rw [rename, id_eq]
  | literal _ => by rw [rename]
  | list items => by rw [rename, renameIn_id items]

theorem renameIn_id : (ts : List Term) → renameIn id ts = ts
  | [] => by rw [renameIn]
  | t :: ts => by rw [renameIn, rename_id t, renameIn_id ts]

end

mutual

theorem rename_comp (f g : String → String) : (t : Term) →
    (t.rename f).rename g = t.rename (g ∘ f)
  | iri _ => by simp only [rename]
  | blank _ => by simp only [rename, Function.comp_apply]
  | literal _ => by simp only [rename]
  | list items => by simp only [rename, renameIn_comp f g items]

theorem renameIn_comp (f g : String → String) : (ts : List Term) →
    renameIn g (renameIn f ts) = renameIn (g ∘ f) ts
  | [] => by simp only [renameIn]
  | t :: ts => by simp only [renameIn, rename_comp f g t, renameIn_comp f g ts]

end

theorem rename_eq_self {f : String → String} {t : Term} (h : ∀ label ∈ t.nodes, f label = label) :
    t.rename f = t := by
  rw [rename_congr t h]
  exact rename_id t

end Term

namespace Triple

/-- The triple with other labels for its anonymous nodes. -/
def rename (f : String → String) (t : Triple) : Triple :=
  ⟨t.subject.rename f, t.predicate.rename f, t.object.rename f⟩

theorem rename_congr {f g : String → String} {t : Triple}
    (h : ∀ label ∈ t.nodes, f label = g label) : t.rename f = t.rename g := by
  simp only [nodes, List.mem_append] at h
  rw [rename, rename,
    Term.rename_congr t.subject fun label there => h label (Or.inl (Or.inl there)),
    Term.rename_congr t.predicate fun label there => h label (Or.inl (Or.inr there)),
    Term.rename_congr t.object fun label there => h label (Or.inr there)]

theorem rename_id (t : Triple) : t.rename id = t := by
  simp only [rename, Term.rename_id]

theorem rename_comp (f g : String → String) (t : Triple) :
    (t.rename f).rename g = t.rename (g ∘ f) := by
  simp only [rename, Term.rename_comp]

theorem rename_eq_self {f : String → String} {t : Triple} (h : ∀ label ∈ t.nodes, f label = label) :
    t.rename f = t := by
  rw [rename_congr h]
  exact rename_id t

theorem map_rename_eq_self {f : String → String} {xs : List Triple}
    (named : ∀ t ∈ xs, t.nodes = []) : xs.map (rename f) = xs := by
  conv_rhs => rw [← List.map_id xs]
  refine List.map_congr_left fun t ht => ?_
  exact rename_eq_self (by simp [named t ht])

end Triple

section Relabel

open scoped Classical

/-- The renaming of nodes that a permutation of their numbers gives. -/
noncomputable def relabel (σ : Equiv.Perm Int) : Equiv.Perm String :=
  σ.extendDomain (Equiv.ofInjective nodeLabel nodeLabel_injective)

@[simp] theorem relabel_nodeLabel (σ : Equiv.Perm Int) (m : Int) :
    relabel σ (nodeLabel m) = nodeLabel (σ m) := by
  unfold relabel
  exact σ.extendDomain_apply_image (Equiv.ofInjective nodeLabel nodeLabel_injective) m

theorem relabel_of_ne {label : String} (h : ∀ m, label ≠ nodeLabel m) (σ : Equiv.Perm Int) :
    relabel σ label = label := by
  unfold relabel
  refine σ.extendDomain_apply_not_subtype _ ?_
  rintro ⟨m, rfl⟩
  exact h m rfl

theorem relabel_mul (σ τ : Equiv.Perm Int) : relabel (σ * τ) = relabel σ * relabel τ := by
  unfold relabel
  exact (Equiv.Perm.extendDomain_mul _ σ τ).symm

end Relabel

/-- A renaming moves the numbers of all nodes on by `k`. -/
def Moves (f : String → String) (k : Int) : Prop :=
  ∀ m, f (nodeLabel m) = nodeLabel (m + k)

theorem moves_relabel (k : Int) : Moves (relabel (Equiv.addRight k)) k := by
  intro m
  rw [relabel_nodeLabel, Equiv.coe_addRight]

section Moves

variable {f : String → String} {k : Int}

theorem rename_statements (node : Term) (pairs : List (Term × Term)) :
    (statements node pairs).map (Triple.rename f) =
      statements (node.rename f) (pairs.map fun p => (p.1.rename f, p.2.rename f)) := by
  simp only [statements, List.map_map]
  rfl

/-- What is said of a node without a reference to others is said of the renamed node. -/
theorem RefersTo.rename_statements {pairs : List (Term × Term)} (h : RefersTo pairs [])
    (node : Term) :
    (statements node pairs).map (Triple.rename f) = statements (node.rename f) pairs := by
  rw [Ontogram.rename_statements]
  congr 1
  conv_rhs => rw [← List.map_id pairs]
  refine List.map_congr_left fun p hp => ?_
  have own : p.1.rename f = p.1 := Term.rename_eq_self (by simp [(h.descriptive p hp).nodes])
  have object : p.2.rename f = p.2 := Term.rename_eq_self fun label there =>
    absurd (h.mem_iff.2 ⟨p, hp, there⟩) List.not_mem_nil
  rw [own, object]
  rfl

theorem rename_owl (node : Term) (name : String) (object : Term) :
    (statements node [(owl name, object)]).map (Triple.rename f) =
      statements (node.rename f) [(owl name, object.rename f)] := by
  have named : (owl name).rename f = owl name := Term.rename_eq_self (by simp)
  rw [rename_statements, List.map_singleton, named]

namespace Lowered

def moved (f : String → String) (k : Int) (l : Lowered) : Lowered :=
  ⟨l.ref.rename f, l.triples.map (Triple.rename f), l.next + k⟩

end Lowered

namespace Expression

theorem rename_blankNode (moves : Moves f k) (n : Int) :
    (blankNode n).rename f = blankNode (n + k) := by
  rw [blankNode_eq, Term.rename, moves, blankNode_eq]

/-- A node that is described without a reference to others. -/
theorem moved_alone (moves : Moves f k) {pairs : List (Term × Term)} (h : RefersTo pairs [])
    (n : Int) :
    Lowered.moved f k ⟨blankNode n, statements (blankNode n) pairs, n + 1⟩ =
      ⟨blankNode (n + k), statements (blankNode (n + k)) pairs, n + k + 1⟩ := by
  rw [Lowered.moved, h.rename_statements, rename_blankNode moves, Int.add_right_comm]

/-- A node whose description refers to one object alone. -/
theorem moved_around (moves : Moves f k) {front : List (Term × Term)} (h : RefersTo front [])
    (n next : Int) (xs : List Triple) (name : String) (object : Term) :
    Lowered.moved f k ⟨blankNode n, statements (blankNode n) front ++ xs ++
        statements (blankNode n) [(owl name, object)], next⟩ =
      ⟨blankNode (n + k), statements (blankNode (n + k)) front ++ xs.map (Triple.rename f) ++
        statements (blankNode (n + k)) [(owl name, object.rename f)], next + k⟩ := by
  rw [Lowered.moved, List.map_append, List.map_append, h.rename_statements, rename_owl,
    rename_blankNode moves]

variable (r : Resolver)

mutual

/-- Counted from a later number, the nodes of an expression are moved on. -/
theorem lower_add (moves : Moves f k) : (e : Expression) → (n : Int) →
    lower r e (n + k) = (lower r e n).moved f k
  | name token, n => by
    rw [lower, lower, Lowered.moved, Term.rename_eq_self (by simp)]
    rfl
  | raw text, n => by
    rw [lower, lower, Lowered.moved, Term.rename_eq_self (by simp)]
    rfl
  | inter operands, n => by
    have inner := lowerAll_add moves operands (n + 1)
    rw [Int.add_right_comm] at inner
    rw [lower_inter, lower_inter, inner, moved_around moves .nil, Term.rename]
  | union operands, n => by
    have inner := lowerAll_add moves operands (n + 1)
    rw [Int.add_right_comm] at inner
    rw [lower_union, lower_union, inner, moved_around moves .nil, Term.rename]
  | compl operand, n => by
    have inner := lower_add moves operand (n + 1)
    rw [Int.add_right_comm] at inner
    rw [lower_compl, lower_compl, inner, moved_around moves .nil]
    rfl
  | restrict property quantifier filler number true, n => by
    have named := (RefersTo.restriction r property).append (.owl "hasSelf" trueLiteral)
    rw [lower_reflexive, lower_reflexive, moved_alone moves named]
  | restrict property quantifier none number false, n => by
    rcases quantifier_kind quantifier with hq | rfl | hq
    · have named := (RefersTo.restriction r property).append
        (.owl (fillerWord quantifier) (owl "Thing"))
      rw [lower_filler_none r property number _ hq, lower_filler_none r property number _ hq,
        moved_alone moves named]
    · rw [lower_value, lower_value, moved_alone moves (refersTo_value r property none)]
    · have named := refersTo_count r property quantifier false number
      rw [lower_count_none r property number _ hq, lower_count_none r property number _ hq,
        moved_alone moves named]
  | restrict property quantifier (some filler) number false, n => by
    have inner := lower_add moves filler (n + 1)
    rw [Int.add_right_comm] at inner
    rcases quantifier_kind quantifier with hq | rfl | hq
    · rw [lower_filler r property number _ hq, lower_filler r property number _ hq, inner,
        moved_around moves (.restriction r property)]
      rfl
    · rw [lower_value, lower_value, moved_alone moves (refersTo_value r property (some filler))]
    · cases hd : datatypeName? filler with
      | some token =>
        rw [lower_count_data r property number _ hq hd, lower_count_data r property number _ hq hd,
          moved_alone moves (refersTo_data r property quantifier number token)]
      | none =>
        rw [lower_count_class r property number _ hq hd,
          lower_count_class r property number _ hq hd, inner,
          moved_around moves (refersTo_count r property quantifier true number)]
        rfl

theorem lowerAll_add (moves : Moves f k) : (es : List Expression) → (n : Int) →
    lowerAll r es (n + k) = (Term.renameIn f (lowerAll r es n).1,
      (lowerAll r es n).2.1.map (Triple.rename f), (lowerAll r es n).2.2 + k)
  | [], n => by
    rw [lowerAll, lowerAll, Term.renameIn]
    rfl
  | e :: es, n => by
    have first := lower_add moves e n
    have rest := lowerAll_add moves es (lower r e n).next
    rw [lowerAll, lowerAll, first, Lowered.moved, rest, Term.renameIn, List.map_append]

end

end Expression

end Moves

end Ontogram
