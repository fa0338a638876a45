import Ontogram.Encoding
import Ontogram.Proofs.Numbering

set_option autoImplicit false

namespace Ontogram

open Vocabulary (owl)

def nodeLabel (n : Int) : String :=
  "b" ++ toString n

theorem blankNode_eq (n : Int) : blankNode n = .blank (nodeLabel n) :=
  rfl

theorem nodeLabel_injective : Function.Injective nodeLabel :=
  fun _ _ same => blankNode_inj (congrArg Term.blank same)

namespace Term

mutual

/-- The labels of the anonymous nodes in a term, in order. -/
def nodes : Term → List String
  | iri _ => []
  | blank label => [label]
  | literal _ => []
  | list items => nodesIn items

/-- The labels of the anonymous nodes in the items of a list. -/
def nodesIn : List Term → List String
  | [] => []
  | t :: ts => t.nodes ++ nodesIn ts

end

@[simp] theorem nodes_iri (value : String) : nodes (iri value) = [] := by
  rw [nodes]

@[simp] theorem nodes_blankNode (n : Int) : (blankNode n).nodes = [nodeLabel n] := by
  rw [blankNode_eq, nodes]

@[simp] theorem nodes_literal (l : Literal) : nodes (literal l) = [] := by
  rw [nodes]

@[simp] theorem nodes_list (items : List Term) : nodes (list items) = nodesIn items := by
  rw [nodes]

@[simp] theorem nodesIn_nil : nodesIn [] = [] := by
  rw [nodesIn]

@[simp] theorem nodesIn_cons (t : Term) (ts : List Term) :
    nodesIn (t :: ts) = t.nodes ++ nodesIn ts := by
  rw [nodesIn]

theorem nodesIn_eq_nil {ts : List Term} (h : ∀ t ∈ ts, t.nodes = []) : nodesIn ts = [] := by
  induction ts with
  | nil => exact nodesIn_nil
  | cons t ts ih =>
    rw [nodesIn_cons, h t List.mem_cons_self, ih fun u hu => h u (List.mem_cons_of_mem t hu)]
    rfl

end Term

namespace Triple

def nodes (t : Triple) : List String :=
  t.subject.nodes ++ t.predicate.nodes ++ t.object.nodes

/-- The labels of the anonymous nodes to which a triple refers. -/
def references (t : Triple) : List String :=
  t.object.nodes ++ if t.predicate = Vocabulary.subClassOf then t.subject.nodes else []

theorem mem_nodes_of_mem_references {t : Triple} {label : String} (h : label ∈ t.references) :
    label ∈ t.nodes := by
  rcases List.mem_append.1 h with h | h
  · exact List.mem_append_right _ h
  · split at h
    · exact List.mem_append_left _ (List.mem_append_left _ h)
    · cases h

/-- The anonymous nodes to which triples refer, as often as they do. -/
def referencesIn (xs : List Triple) : List String :=
  xs.flatMap references

@[simp] theorem referencesIn_cons (t : Triple) (xs : List Triple) :
    referencesIn (t :: xs) = t.references ++ referencesIn xs :=
  List.flatMap_cons

@[simp] theorem referencesIn_append (xs ys : List Triple) :
    referencesIn (xs ++ ys) = referencesIn xs ++ referencesIn ys :=
  List.flatMap_append

theorem mem_referencesIn {xs : List Triple} {label : String} :
    label ∈ referencesIn xs ↔ ∃ t ∈ xs, label ∈ t.references :=
  List.mem_flatMap

end Triple

namespace Resolver

variable (r : Resolver)

@[simp] theorem nodes_termOf (cs : List Char) : (r.termOf cs).nodes = [] := by
  unfold termOf
  split <;> simp

@[simp] theorem nodes_resolve (token : String) : (r.resolve token).nodes = [] :=
  nodes_termOf r _

@[simp] theorem nodes_resolveDatatype (token : String) : (r.resolveDatatype token).nodes = [] := by
  unfold resolveDatatype
  split <;> simp

@[simp] theorem nodes_resolveValue (token : String) : (r.resolveValue token).nodes = [] := by
  unfold resolveValue
  simp only
  repeat' split
  all_goals simp

end Resolver

namespace Vocabulary

@[simp] theorem nodes_owl (name : String) : (owl name).nodes = [] :=
  Term.nodes_iri _

@[simp] theorem nodes_rdfs (name : String) : (rdfs name).nodes = [] :=
  Term.nodes_iri _

@[simp] theorem nodes_skos (name : String) : (skos name).nodes = [] :=
  Term.nodes_iri _

@[simp] theorem nodes_type : type.nodes = [] :=
  Term.nodes_iri _

@[simp] theorem nodes_label : label.nodes = [] :=
  Term.nodes_iri _

@[simp] theorem nodes_subClassOf : subClassOf.nodes = [] :=
  Term.nodes_iri _

@[simp] theorem nodes_disjointWith : disjointWith.nodes = [] :=
  Term.nodes_iri _

theorem owl_ne_subClassOf (name : String) : owl name ≠ subClassOf := by
  intro same
  have texts := congrArg (fun s => s.toList.take 25) (Term.iri.inj same)
  simp [Namespace.owl, Namespace.rdfs] at texts

theorem type_ne_subClassOf : type ≠ subClassOf := by
  decide +kernel

end Vocabulary

/-- A predicate with which an anonymous node is described. -/
inductive IsDescriptive : Term → Prop where
  | type : IsDescriptive Vocabulary.type
  | owl (name : String) : IsDescriptive (owl name)

namespace IsDescriptive

variable {p : Term}

theorem nodes (h : IsDescriptive p) : p.nodes = [] := by
  cases h <;> simp

theorem ne_subClassOf (h : IsDescriptive p) : p ≠ Vocabulary.subClassOf := by
  cases h with
  | type => exact Vocabulary.type_ne_subClassOf
  | owl name => exact Vocabulary.owl_ne_subClassOf name

end IsDescriptive

/-- What is said of an anonymous node refers to the nodes with given labels, in their order. -/
structure RefersTo (pairs : List (Term × Term)) (labels : List String) : Prop where
  descriptive : ∀ p ∈ pairs, IsDescriptive p.1
  objects : (pairs.flatMap fun p => p.2.nodes) = labels

namespace RefersTo

variable {front back pairs : List (Term × Term)} {labels more : List String}

theorem nil : RefersTo [] [] :=
  ⟨by simp, rfl⟩

theorem single {p : Term} (h : IsDescriptive p) (object : Term) :
    RefersTo [(p, object)] object.nodes where
  descriptive := by
    intro q hq
    obtain rfl := List.mem_singleton.1 hq
    exact h
  objects := List.append_nil _

theorem append (hf : RefersTo front labels) (hb : RefersTo back more) :
    RefersTo (front ++ back) (labels ++ more) where
  descriptive p hp := (List.mem_append.1 hp).elim (hf.descriptive p) (hb.descriptive p)
  objects := by rw [List.flatMap_append, hf.objects, hb.objects]

theorem mem_iff (h : RefersTo pairs labels) {label : String} :
    label ∈ labels ↔ ∃ p ∈ pairs, label ∈ p.2.nodes := by
  rw [← h.objects, List.mem_flatMap]

theorem referencesIn_statements (h : RefersTo pairs labels) (node : Term) :
    Triple.referencesIn (statements node pairs) = labels := by
  rw [Triple.referencesIn, statements, List.flatMap_map, ← h.objects]
  refine List.flatMap_congr fun p hp => ?_
  rw [Triple.references, if_neg (h.descriptive p hp).ne_subClassOf, List.append_nil]

end RefersTo

/-- Triples speak of the nodes with numbers from `a` on and below `b`, and describe each of them.
They refer once to each that is not `loose`; the loose ones wait for a reference from outside. -/
structure Woven (a b : Int) (loose : List String) (xs : List Triple) : Prop where
  le : a ≤ b
  within : ∀ label, label ∈ loose ∨ (∃ t ∈ xs, label ∈ t.nodes) →
    ∃ m, a ≤ m ∧ m < b ∧ label = nodeLabel m
  described : ∀ m, a ≤ m → m < b →
    ∃ t ∈ xs, t.subject = blankNode m ∧ t.predicate ≠ Vocabulary.subClassOf
  once : ∀ m, a ≤ m → m < b → (loose ++ Triple.referencesIn xs).count (nodeLabel m) = 1
  later : ∀ t ∈ xs, ∀ j m, t.subject = blankNode j → nodeLabel m ∈ t.object.nodes → j < m

namespace Woven

variable {a b c : Int} {loose more : List String} {xs ys : List Triple}

/-- Triples without anonymous nodes. -/
theorem plain (a : Int) (h : ∀ t ∈ xs, t.nodes = []) : Woven a a [] xs where
  le := Int.le_refl a
  within := by
    rintro label (there | ⟨t, ht, there⟩)
    · cases there
    · rw [h t ht] at there
      cases there
  described := by omega
  once := by omega
  later := by
    intro t ht j m _ there
    have none := h t ht
    rw [Triple.nodes, List.append_eq_nil_iff] at none
    rw [none.2] at there
    cases there

/-- What lies outside the interval is not referred to. -/
theorem count_eq_zero (h : Woven a b loose xs) {m : Int} (out : m < a ∨ b ≤ m) :
    (loose ++ Triple.referencesIn xs).count (nodeLabel m) = 0 := by
  rw [List.count_eq_zero]
  intro there
  have occurs : nodeLabel m ∈ loose ∨ ∃ t ∈ xs, nodeLabel m ∈ t.nodes := by
    refine (List.mem_append.1 there).imp_right fun there => ?_
    obtain ⟨t, ht, there⟩ := Triple.mem_referencesIn.1 there
    exact ⟨t, ht, Triple.mem_nodes_of_mem_references there⟩
  obtain ⟨k, lower, upper, same⟩ := h.within _ occurs
  have := nodeLabel_injective same
  omega

theorem append (hx : Woven a b loose xs) (hy : Woven b c more ys) :
    Woven a c (loose ++ more) (xs ++ ys) where
  le := Int.le_trans hx.le hy.le
  within := by
    intro label there
    have left := hx.le
    have right := hy.le
    have either : (label ∈ loose ∨ ∃ t ∈ xs, label ∈ t.nodes) ∨
        label ∈ more ∨ ∃ t ∈ ys, label ∈ t.nodes := by
      simp only [List.mem_append] at there
      rcases there with (there | there) | ⟨t, ht | ht, there⟩
      · exact Or.inl (Or.inl there)
      · exact Or.inr (Or.inl there)
      · exact Or.inl (Or.inr ⟨t, ht, there⟩)
      · exact Or.inr (Or.inr ⟨t, ht, there⟩)
    rcases either with there | there
    · obtain ⟨m, lower, upper, same⟩ := hx.within label there
      exact ⟨m, lower, by omega, same⟩
    · obtain ⟨m, lower, upper, same⟩ := hy.within label there
      exact ⟨m, by omega, upper, same⟩
  described := by
    intro m lower upper
    by_cases first : m < b
    · obtain ⟨t, ht, own⟩ := hx.described m lower first
      exact ⟨t, List.mem_append_left ys ht, own⟩
    · obtain ⟨t, ht, own⟩ := hy.described m (Int.not_lt.1 first) upper
      exact ⟨t, List.mem_append_right xs ht, own⟩
  once := by
    intro m lower upper
    have split : (loose ++ more ++ Triple.referencesIn (xs ++ ys)).count (nodeLabel m) =
        (loose ++ Triple.referencesIn xs).count (nodeLabel m) +
          (more ++ Triple.referencesIn ys).count (nodeLabel m) := by
      simp only [Triple.referencesIn_append, List.count_append]
      omega
    rw [split]
    by_cases first : m < b
    · rw [hx.once m lower first, hy.count_eq_zero (Or.inl first)]
    · rw [hy.once m (Int.not_lt.1 first) upper, hx.count_eq_zero (Or.inr (Int.not_lt.1 first))]
  later := by
    intro t ht
    exact (List.mem_append.1 ht).elim (hx.later t) (hy.later t)

/-- A node whose description refers to what is loose leaves only itself loose. -/
theorem statements_around {front back : List (Term × Term)} (hf : RefersTo front loose)
    (hb : RefersTo back more) (h : Woven (a + 1) b (loose ++ more) xs) (some : front ++ back ≠ []) :
    Woven a b [nodeLabel a]
      (statements (blankNode a) front ++ xs ++ statements (blankNode a) back) := by
  have le := h.le
  have all := hf.append hb
  have mem {t : Triple} : t ∈ statements (blankNode a) front ++ xs ++
      statements (blankNode a) back ↔ t ∈ statements (blankNode a) (front ++ back) ∨ t ∈ xs := by
    simp only [statements, List.map_append, List.mem_append]
    tauto
  have object {p : Term × Term} (hp : p ∈ front ++ back) {label : String}
      (there : label ∈ p.2.nodes) : ∃ m, a + 1 ≤ m ∧ m < b ∧ label = nodeLabel m :=
    h.within label (Or.inl (all.mem_iff.2 ⟨p, hp, there⟩))
  refine ⟨by omega, ?_, ?_, ?_, ?_⟩
  · rintro label (there | ⟨t, ht, there⟩)
    · exact ⟨a, by omega, by omega, List.mem_singleton.1 there⟩
    · rcases mem.1 ht with ht | ht
      · obtain ⟨p, hp, rfl⟩ := List.mem_map.1 ht
        simp only [Triple.nodes, Term.nodes_blankNode, (all.descriptive p hp).nodes,
          List.append_nil, List.singleton_append, List.mem_cons] at there
        rcases there with rfl | there
        · exact ⟨a, by omega, by omega, rfl⟩
        · obtain ⟨m, lower, upper, same⟩ := object hp there
          exact ⟨m, by omega, upper, same⟩
      · obtain ⟨m, lower, upper, same⟩ := h.within label (Or.inr ⟨t, ht, there⟩)
        exact ⟨m, by omega, upper, same⟩
  · intro m lower upper
    by_cases first : m = a
    · obtain ⟨p, hp⟩ := List.exists_mem_of_ne_nil _ some
      exact ⟨⟨blankNode a, p.1, p.2⟩, mem.2 (Or.inl (List.mem_map_of_mem hp)), by rw [first],
        (all.descriptive p hp).ne_subClassOf⟩
    · obtain ⟨t, ht, described⟩ := h.described m (by omega) upper
      exact ⟨t, mem.2 (Or.inr ht), described⟩
  · intro m lower upper
    have total : ([nodeLabel a] ++ Triple.referencesIn (statements (blankNode a) front ++ xs ++
        statements (blankNode a) back)).count (nodeLabel m) =
          [nodeLabel a].count (nodeLabel m) +
            (loose ++ more ++ Triple.referencesIn xs).count (nodeLabel m) := by
      simp only [Triple.referencesIn_append, hf.referencesIn_statements,
        hb.referencesIn_statements, List.count_append]
      omega
    rw [total]
    by_cases first : m = a
    · rw [first, List.count_singleton_self, h.count_eq_zero (Or.inl (by omega))]
    · have apart : nodeLabel m ∉ [nodeLabel a] := by
        rw [List.mem_singleton]
        exact fun same => first (nodeLabel_injective same)
      rw [List.count_eq_zero.2 apart, h.once m (by omega) upper]
  · intro t ht j m subject there
    rcases mem.1 ht with ht | ht
    · obtain ⟨p, hp, rfl⟩ := List.mem_map.1 ht
      obtain ⟨k, lower, _, same⟩ := object hp there
      have := blankNode_inj subject
      have := nodeLabel_injective same
      omega
    · exact h.later t ht j m subject there

/-- A node whose description refers to no other. -/
theorem alone {pairs : List (Term × Term)} (a : Int) (h : RefersTo pairs []) (some : pairs ≠ []) :
    Woven a (a + 1) [nodeLabel a] (statements (blankNode a) pairs) := by
  have inner : Woven (a + 1) (a + 1) ([] ++ []) [] := Woven.plain (a + 1) (by simp)
  have := statements_around h RefersTo.nil inner (by simpa using some)
  simpa [statements] using this

/-- A triple that refers to what is loose, and speaks of no other node, leaves nothing loose. -/
theorem tied {t : Triple} (h : Woven a b loose xs) (refers : t.references = loose)
    (speaks : ∀ label ∈ t.nodes, label ∈ loose)
    (rooted : t.subject.nodes = [] ∨ t.object.nodes = []) : Woven a b [] (t :: xs) where
  le := h.le
  within := by
    rintro label (there | ⟨u, hu, there⟩)
    · cases there
    · rcases List.mem_cons.1 hu with rfl | hu
      · exact h.within label (Or.inl (speaks label there))
      · exact h.within label (Or.inr ⟨u, hu, there⟩)
  described := by
    intro m lower upper
    obtain ⟨u, hu, own⟩ := h.described m lower upper
    exact ⟨u, List.mem_cons_of_mem t hu, own⟩
  once := by
    intro m lower upper
    rw [List.nil_append, Triple.referencesIn_cons, refers]
    exact h.once m lower upper
  later := by
    intro u hu j m subject there
    rcases List.mem_cons.1 hu with rfl | hu
    · rcases rooted with none | none
      · rw [subject, Term.nodes_blankNode] at none
        cases none
      · rw [none] at there
        cases there
    · exact h.later u hu j m subject there

end Woven

end Ontogram
