import Ontogram.Proofs.Contribution

set_option autoImplicit false

namespace Ontogram

open Vocabulary (owl)

namespace RefersTo

variable (r : Resolver)

theorem owl (name : String) (object : Term) :
    RefersTo [(Vocabulary.owl name, object)] object.nodes :=
  single (.owl name) object

theorem restriction (property : String) :
    RefersTo (Expression.restrictionPairs (r.resolve property)) [] := by
  have kind := single .type (Vocabulary.owl "Restriction")
  have property := owl "onProperty" (r.resolve property)
  rw [Vocabulary.nodes_owl] at kind
  rw [r.nodes_resolve] at property
  exact kind.append property

theorem count (quantifier : Quantifier) (qualified : Bool) (number : Option Int) :
    RefersTo (Expression.countPairs quantifier qualified number) [] := by
  cases number with
  | none => exact nil
  | some n => exact owl _ (Expression.countLiteral n)

end RefersTo

namespace Expression

variable (r : Resolver)

/-- What a restriction says of its property and its value names terms alone. -/
theorem refersTo_value (property : String) (filler : Option Expression) :
    RefersTo (restrictionPairs (r.resolve property) ++
      [(owl "hasValue", r.resolveValue ((filler.map Expression.text).getD ""))]) [] := by
  have value := RefersTo.owl "hasValue" (r.resolveValue ((filler.map Expression.text).getD ""))
  rw [r.nodes_resolveValue] at value
  exact (RefersTo.restriction r property).append value

/-- What a restriction says of its property and its number names terms alone. -/
theorem refersTo_count (property : String) (quantifier : Quantifier) (qualified : Bool)
    (number : Option Int) : RefersTo (restrictionPairs (r.resolve property) ++
      countPairs quantifier qualified number) [] :=
  (RefersTo.restriction r property).append (RefersTo.count quantifier qualified number)

/-- What a restriction says of its property, its number and a datatype names terms alone. -/
theorem refersTo_data (property : String) (quantifier : Quantifier) (number : Option Int)
    (token : String) : RefersTo (restrictionPairs (r.resolve property) ++
      countPairs quantifier true number ++ [(owl "onDataRange", r.resolveDatatype token)]) [] := by
  have range := RefersTo.owl "onDataRange" (r.resolveDatatype token)
  rw [r.nodes_resolveDatatype] at range
  exact (refersTo_count r property quantifier true number).append range

mutual

/-- The triples of an expression leave only the node that stands for it loose. -/
theorem woven_lower : (e : Expression) → (n : Int) →
    Woven n (lower r e n).next (lower r e n).ref.nodes (lower r e n).triples
  | name token, n => by
    rw [lower, r.nodes_resolve]
    exact Woven.plain n (by simp)
  | raw text, n => by
    rw [lower, r.nodes_resolveValue]
    exact Woven.plain n (by simp)
  | inter operands, n => by
    rw [lower_inter, Term.nodes_blankNode]
    refine Woven.statements_around .nil (.owl "intersectionOf" _) ?_ (by simp)
    rw [Term.nodes_list]
    exact woven_lowerAll operands (n + 1)
  | union operands, n => by
    rw [lower_union, Term.nodes_blankNode]
    refine Woven.statements_around .nil (.owl "unionOf" _) ?_ (by simp)
    rw [Term.nodes_list]
    exact woven_lowerAll operands (n + 1)
  | compl operand, n => by
    rw [lower_compl, Term.nodes_blankNode]
    exact Woven.statements_around .nil (.owl "complementOf" _) (woven_lower operand (n + 1))
      (by simp)
  | restrict property quantifier filler number true, n => by
    rw [lower_reflexive, Term.nodes_blankNode]
    exact Woven.alone n ((RefersTo.restriction r property).append (.owl "hasSelf" trueLiteral))
      (by simp)
  | restrict property quantifier none number false, n => by
    rcases quantifier_kind quantifier with hq | rfl | hq
    · rw [lower_filler_none r property number n hq, Term.nodes_blankNode]
      exact Woven.alone n ((RefersTo.restriction r property).append (.owl _ (owl "Thing")))
        (by simp)
    · rw [lower_value, Term.nodes_blankNode]
      exact Woven.alone n (refersTo_value r property none) (by simp)
    · rw [lower_count_none r property number n hq, Term.nodes_blankNode]
      exact Woven.alone n (refersTo_count r property quantifier false number)
        (by simp [restrictionPairs])
  | restrict property quantifier (some filler) number false, n => by
    have inner := woven_lower filler (n + 1)
    rcases quantifier_kind quantifier with hq | rfl | hq
    · rw [lower_filler r property number n hq, Term.nodes_blankNode]
      exact Woven.statements_around (.restriction r property) (.owl _ _) inner (by simp)
    · rw [lower_value, Term.nodes_blankNode]
      exact Woven.alone n (refersTo_value r property (some filler)) (by simp)
    · cases hd : datatypeName? filler with
      | some token =>
        rw [lower_count_data r property number n hq hd, Term.nodes_blankNode]
        exact Woven.alone n (refersTo_data r property quantifier number token) (by simp)
      | none =>
        rw [lower_count_class r property number n hq hd, Term.nodes_blankNode]
        exact Woven.statements_around (refersTo_count r property quantifier true number) (.owl _ _)
          inner (by simp)

theorem woven_lowerAll : (es : List Expression) → (n : Int) →
    Woven n (lowerAll r es n).2.2 (Term.nodesIn (lowerAll r es n).1) (lowerAll r es n).2.1
  | [], n => by
    rw [lowerAll, Term.nodesIn_nil]
    exact Woven.plain n (by simp)
  | e :: es, n => by
    rw [lowerAll, Term.nodesIn_cons]
    exact (woven_lower e n).append (woven_lowerAll es (lower r e n).next)

end

end Expression

namespace Encoding

/-- Whichever way a part contributes, its triples leave no node loose. -/
theorem Contribution.woven {r : Resolver} {f : Int → Emission} (h : Contribution r f) (n : Int) :
    Woven n (f n).next [] (f n).triples := by
  induction h generalizing n with
  | plain ws named => exact Woven.plain n named
  | link expression subjectNamed predicateNamed =>
    refine Woven.tied (Expression.woven_lower r (Expression.parse expression) n) ?_ ?_
      (Or.inl subjectNamed)
    · simp [Triple.references, subjectNamed, Expression.lowerText]
    · simp [Triple.nodes, subjectNamed, predicateNamed, Expression.lowerText]
  | backLink expression subjectNamed =>
    refine Woven.tied (Expression.woven_lower r (Expression.parse expression) n) ?_ ?_
      (Or.inr subjectNamed)
    · simp [Triple.references, subjectNamed, Expression.lowerText]
    · simp [Triple.nodes, subjectNamed, Expression.lowerText]
  | andThen _ _ hf hg => exact (hf n).append (hg _)

/-- The contributions of a whole diagram leave no node loose. -/
theorem woven_emit (r : Resolver) (language : String) (inferred : Bool) (entities : List Entity)
    (relations : List Relation) (metadata : Option Metadata) :
    let emission := emit r language inferred entities relations metadata
    Woven 0 emission.next [] emission.triples := by
  have whole {header : Int → Emission} (h : Contribution r header) :
      Contribution r fun n => ((header n).andThen (Emission.each (emitEntity r language) entities)
        ).andThen (emitRelations r inferred entities relations) :=
    (h.andThen (.each fun e _ => contribution_emitEntity r language e)).andThen
      (contribution_emitRelations r inferred entities relations)
  cases metadata with
  | none => exact (whole .nothing).woven 0
  | some m => exact (whole (contribution_emitHeader r language m)).woven 0

end Encoding

namespace Triple

/-- Leaving out repeated triples loses no reference, and one that is made once stays so. -/
theorem count_referencesIn_firsts {xs : List Triple} {label : String}
    (h : (referencesIn xs).count label = 1) : (referencesIn (firsts xs)).count label = 1 := by
  have fewer : (referencesIn (firsts xs)).count label ≤ 1 := by
    rw [← h]
    exact ((firsts_sublist xs).flatMap references).count_le label
  have some : 0 < (referencesIn (firsts xs)).count label := by
    have there : label ∈ referencesIn xs := List.count_pos_iff.1 (by omega)
    obtain ⟨t, ht, there⟩ := mem_referencesIn.1 there
    exact List.count_pos_iff.2 (mem_referencesIn.2 ⟨t, mem_firsts.2 ht, there⟩)
  omega

end Triple

/-- Whether what is said of a node refers to another. -/
def RefersIn (xs : List Triple) (node other : String) : Prop :=
  ∃ t ∈ xs, t.subject = .blank node ∧ other ∈ t.object.nodes

/-- Triples are listed once, and their anonymous nodes are those with numbers below `n` and form a
forest. -/
structure IsForest (xs : List Triple) (n : Int) : Prop where
  nodup : xs.Nodup
  occurs : ∀ label, (∃ t ∈ xs, label ∈ t.nodes) ↔ ∃ m, 0 ≤ m ∧ m < n ∧ label = nodeLabel m
  described : ∀ m, 0 ≤ m → m < n →
    ∃ t ∈ xs, t.subject = blankNode m ∧ t.predicate ≠ Vocabulary.subClassOf
  /-- Every node is referred to once. -/
  referred : ∀ m, 0 ≤ m → m < n → (Triple.referencesIn xs).count (nodeLabel m) = 1
  /-- A node refers to later ones alone. -/
  ascending : ∀ j m, RefersIn xs (nodeLabel j) (nodeLabel m) → j < m
  /-- No node refers to itself by way of others. -/
  acyclic : ∀ label, ¬ Relation.TransGen (RefersIn xs) label label

namespace Woven

variable {n : Int} {xs : List Triple}

theorem ascends (h : Woven 0 n [] xs) {node other : String}
    (refers : Relation.TransGen (RefersIn xs) node other) :
    ∃ j m, node = nodeLabel j ∧ other = nodeLabel m ∧ j < m := by
  have step {node other : String} (refers : RefersIn xs node other) :
      ∃ j m, node = nodeLabel j ∧ other = nodeLabel m ∧ j < m := by
    obtain ⟨t, ht, subject, there⟩ := refers
    have first : node ∈ t.nodes := by simp [Triple.nodes, subject, Term.nodes]
    obtain ⟨j, _, _, rfl⟩ := h.within node (Or.inr ⟨t, ht, first⟩)
    obtain ⟨m, _, _, rfl⟩ := h.within other (Or.inr ⟨t, ht, List.mem_append_right _ there⟩)
    exact ⟨j, m, rfl, rfl, h.later t ht j m subject there⟩
  induction refers with
  | single refers => exact step refers
  | tail _ refers ih =>
    obtain ⟨j, k, rfl, same, less⟩ := ih
    obtain ⟨k', m, same', rfl, less'⟩ := step refers
    have := nodeLabel_injective (same.symm.trans same')
    exact ⟨j, m, rfl, rfl, by omega⟩

/-- The first occurrences of triples that leave nothing loose. -/
theorem isForest (h : Woven 0 n [] xs) : IsForest (firsts xs) n := by
  have same (node other : String) : RefersIn (firsts xs) node other ↔ RefersIn xs node other := by
    simp only [RefersIn, mem_firsts]
  refine ⟨nodup_firsts xs, ?_, ?_, ?_, ?_, ?_⟩
  · intro label
    simp only [mem_firsts]
    constructor
    · intro there
      exact h.within label (Or.inr there)
    · rintro ⟨m, lower, upper, rfl⟩
      obtain ⟨t, ht, subject, _⟩ := h.described m lower upper
      exact ⟨t, ht, by simp [Triple.nodes, subject]⟩
  · intro m lower upper
    obtain ⟨t, ht, own⟩ := h.described m lower upper
    exact ⟨t, mem_firsts.2 ht, own⟩
  · intro m lower upper
    exact Triple.count_referencesIn_firsts (h.once m lower upper)
  · intro j m refers
    obtain ⟨t, ht, subject, there⟩ := (same _ _).1 refers
    exact h.later t ht j m subject there
  · intro label cycle
    obtain ⟨j, m, first, second, less⟩ := h.ascends
      (Relation.TransGen.mono (fun a b => (same a b).1) _ _ cycle)
    have := nodeLabel_injective (first.symm.trans second)
    omega

end Woven

namespace Encoding

/-- Whatever is drawn, its encoding lists no triple twice, and its anonymous nodes are described
each, numbered from zero and form a forest. -/
theorem isForest_build (d : Naming) (entities : List Entity) (relations : List Relation)
    (metadata : Option Metadata) :
    let t := build d entities relations metadata
    IsForest t.triples t.nodes := by
  exact (woven_emit _ _ _ entities relations metadata).isForest

end Encoding

end Ontogram
