import Ontogram.Proofs.Renaming

set_option autoImplicit false

namespace Ontogram

/-- Some triples are, as a set, others with other labels for their anonymous nodes. -/
def Renames (f : String → String) (xs ys : List Triple) : Prop :=
  ∀ t, t ∈ ys ↔ t ∈ xs.map (Triple.rename f)

namespace Renames

variable {f g : String → String} {xs ys zs xs' ys' : List Triple}

theorem self (h : ∀ s ∈ xs, s.rename f = s) : Renames f xs xs := by
  intro t
  rw [List.map_congr_left h, List.map_id']

theorem append (h : Renames f xs ys) (h' : Renames f xs' ys') :
    Renames f (xs ++ xs') (ys ++ ys') := by
  intro t
  rw [List.map_append, List.mem_append, List.mem_append, h t, h' t]

theorem comm (h : Renames f xs (ys ++ zs)) : Renames f xs (zs ++ ys) := by
  intro t
  rw [← h t, List.mem_append, List.mem_append, or_comm]

theorem comp (h : Renames f xs ys) (h' : Renames g ys zs) : Renames (g ∘ f) xs zs := by
  intro t
  simp only [h' t, List.mem_map, h _]
  constructor
  · rintro ⟨_, ⟨s, hs, rfl⟩, rfl⟩
    exact ⟨s, hs, (s.rename_comp f g).symm⟩
  · rintro ⟨s, hs, rfl⟩
    exact ⟨s.rename f, ⟨s, hs, rfl⟩, s.rename_comp f g⟩

end Renames

namespace Woven

variable {a b : Int} {loose : List String} {xs : List Triple} {f g : String → String}

/-- Only what renamings do to the nodes of an interval matters. -/
theorem map_rename_congr (h : Woven a b loose xs)
    (same : ∀ m, a ≤ m → m < b → f (nodeLabel m) = g (nodeLabel m)) :
    xs.map (Triple.rename f) = xs.map (Triple.rename g) := by
  refine List.map_congr_left fun t ht => Triple.rename_congr fun label there => ?_
  obtain ⟨m, lower, upper, rfl⟩ := h.within label (Or.inr ⟨t, ht, there⟩)
  exact same m lower upper

theorem renames_self (h : Woven a b loose xs)
    (fixed : ∀ m, a ≤ m → m < b → f (nodeLabel m) = nodeLabel m) : Renames f xs xs := by
  refine Renames.self fun t ht => Triple.rename_eq_self fun label there => ?_
  obtain ⟨m, lower, upper, rfl⟩ := h.within label (Or.inr ⟨t, ht, there⟩)
  exact fixed m lower upper

end Woven

namespace Encoding

/-- Counted from a later number, the nodes of a part of a diagram are moved on. -/
theorem Contribution.add {r : Resolver} {part : Int → Emission} (h : Contribution r part)
    {f : String → String} {k : Int} (moves : Moves f k) (n : Int) :
    (part (n + k)).triples = (part n).triples.map (Triple.rename f) ∧
      (part (n + k)).next = (part n).next + k := by
  induction h generalizing n with
  | plain ws named => exact ⟨(Triple.map_rename_eq_self named).symm, rfl⟩
  | @link subject predicate expression subjectNamed predicateNamed =>
    have hs : subject.rename f = subject := Term.rename_eq_self (by simp [subjectNamed])
    have hp : predicate.rename f = predicate := Term.rename_eq_self (by simp [predicateNamed])
    simp only [emitLink, Emission.ofTriples, Expression.lowerText,
      Expression.lower_add r moves, Lowered.moved, List.map_cons, Triple.rename, hs, hp, and_self]
  | @backLink subject expression subjectNamed =>
    have hs : subject.rename f = subject := Term.rename_eq_self (by simp [subjectNamed])
    have hp : Vocabulary.subClassOf.rename f = Vocabulary.subClassOf :=
      Term.rename_eq_self (by simp)
    simp only [emitBackLink, Emission.ofTriples, Expression.lowerText,
      Expression.lower_add r moves, Lowered.moved, List.map_cons, Triple.rename, hs, hp, and_self]
  | @andThen first second _ _ hf hg =>
    obtain ⟨firstTriples, firstNext⟩ := hf n
    obtain ⟨secondTriples, secondNext⟩ := hg (first n).next
    simp only [Emission.andThen, firstTriples, firstNext, secondTriples, secondNext,
      List.map_append, and_self]

end Encoding

/-- The numbers from `n` on and below `n + p` exchanged with the `q` numbers that follow. -/
def exchange (n p q : Int) (m : Int) : Int :=
  if n ≤ m ∧ m < n + p then m + q
  else if n + p ≤ m ∧ m < n + p + q then m - p
  else m

theorem exchange_exchange {n p q : Int} (hp : 0 ≤ p) (hq : 0 ≤ q) (m : Int) :
    exchange n q p (exchange n p q m) = m := by
  unfold exchange
  split_ifs <;> omega

/-- Exchanging intervals is undone by exchanging them back. -/
def exchanging (n : Int) {p q : Int} (hp : 0 ≤ p) (hq : 0 ≤ q) : Equiv.Perm Int where
  toFun := exchange n p q
  invFun := exchange n q p
  left_inv := exchange_exchange hp hq
  right_inv := exchange_exchange hq hp

/-- Some triples are others with the nodes whose numbers lie from `a` on and below `b` renamed among
each other. -/
def Reordered (a b : Int) (xs ys : List Triple) : Prop :=
  ∃ σ : Equiv.Perm Int, (∀ m, m < a ∨ b ≤ m → σ m = m) ∧ Renames (relabel σ) xs ys

namespace Reordered

variable {a b c : Int} {xs ys zs : List Triple}

theorem refl (a b : Int) (xs : List Triple) : Reordered a b xs xs := by
  refine ⟨1, fun m _ => rfl, Renames.self fun s _ => Triple.rename_eq_self fun label _ => ?_⟩
  by_cases node : ∃ m, label = nodeLabel m
  · obtain ⟨m, rfl⟩ := node
    exact relabel_nodeLabel 1 m
  · exact relabel_of_ne (not_exists.1 node) 1

theorem trans (h : Reordered a b xs ys) (h' : Reordered a b ys zs) : Reordered a b xs zs := by
  obtain ⟨σ, fixed, renames⟩ := h
  obtain ⟨τ, fixed', renames'⟩ := h'
  refine ⟨τ * σ, ?_, ?_⟩
  · intro m out
    rw [Equiv.Perm.mul_apply, fixed m out, fixed' m out]
  · rw [relabel_mul, Equiv.Perm.coe_mul]
    exact renames.comp renames'

/-- Triples that speak of earlier nodes may stand in front. -/
theorem cons {front : List Triple} (hf : Woven a b [] front) (h : Reordered b c xs ys) :
    Reordered a c (front ++ xs) (front ++ ys) := by
  obtain ⟨σ, fixed, renames⟩ := h
  have := hf.le
  refine ⟨σ, fun m out => fixed m (by omega), Renames.append (hf.renames_self ?_) renames⟩
  intro m _ upper
  rw [relabel_nodeLabel, fixed m (Or.inl upper)]

end Reordered

namespace Encoding

open Emission (each)

section Parts

variable {r : Resolver} {α : Type} {part : α → Int → Emission}
  (parts : ∀ x, Contribution r (part x))
include parts

/-- Two neighbours in the other order take each other's interval of nodes. -/
theorem reordered_swap (x y : α) (rest : List α) (n : Int) :
    (each part (x :: y :: rest) n).next = (each part (y :: x :: rest) n).next ∧
      Reordered n (each part (y :: x :: rest) n).next (each part (y :: x :: rest) n).triples
        (each part (x :: y :: rest) n).triples := by
  obtain ⟨p, hp⟩ : ∃ p, (part y n).next = n + p := ⟨(part y n).next - n, by omega⟩
  obtain ⟨q, hq⟩ : ∃ q, (part x n).next = n + q := ⟨(part x n).next - n, by omega⟩
  have hy := (parts y).woven n
  have hx := (parts x).woven (n + p)
  have hr := (Contribution.each fun z _ => parts z : Contribution r (each part rest)).woven
    (n + p + q)
  obtain ⟨yTriples, yNext⟩ := (parts y).add (moves_relabel q) n
  obtain ⟨xTriples, xNext⟩ := (parts x).add (moves_relabel p) n
  obtain ⟨backTriples, _⟩ := (parts x).add (moves_relabel (-p)) (n + p)
  rw [Int.add_neg_cancel_right] at backTriples
  rw [hp] at hy yNext
  rw [hq, Int.add_right_comm] at xNext
  rw [xNext] at hx
  have hp0 : 0 ≤ p := by have := hy.le; omega
  have hq0 : 0 ≤ q := by have := hx.le; omega
  have first : each part (y :: x :: rest) n =
      (part y n).andThen fun k => (part x k).andThen (each part rest) := rfl
  have second : each part (x :: y :: rest) n =
      (part x n).andThen fun k => (part y k).andThen (each part rest) := rfl
  rw [first, second]
  simp only [Emission.andThen, hp, hq, xNext, yNext, true_and]
  refine ⟨exchanging n hp0 hq0, ?_, ?_⟩
  · intro m out
    have := hr.le
    change exchange n p q m = m
    unfold exchange
    split_ifs <;> omega
  · have moved {m k : Int} (h : exchange n p q m = m + k) :
        relabel (exchanging n hp0 hq0) (nodeLabel m) =
          relabel (Equiv.addRight k) (nodeLabel m) := by
      rw [relabel_nodeLabel, relabel_nodeLabel, Equiv.coe_addRight]
      exact congrArg nodeLabel h
    have yRenamed : Renames (relabel (exchanging n hp0 hq0)) (part y n).triples
        (part y (n + q)).triples := by
      intro t
      rw [yTriples, hy.map_rename_congr fun m lower upper => moved ?_]
      rw [exchange, if_pos ⟨lower, upper⟩]
    have xRenamed : Renames (relabel (exchanging n hp0 hq0)) (part x (n + p)).triples
        (part x n).triples := by
      intro t
      rw [backTriples, hx.map_rename_congr fun m lower upper => moved ?_]
      rw [exchange, if_neg (by omega), if_pos ⟨lower, upper⟩, Int.sub_eq_add_neg]
    have restRenamed : Renames (relabel (exchanging n hp0 hq0)) (each part rest (n + p + q)).triples
        (each part rest (n + p + q)).triples := by
      refine hr.renames_self fun m lower _ => ?_
      rw [relabel_nodeLabel]
      refine congrArg nodeLabel ?_
      change exchange n p q m = m
      rw [exchange, if_neg (by omega), if_neg (by omega)]
    have both := ((yRenamed.append xRenamed).comm).append restRenamed
    simpa only [List.append_assoc] using both

/-- Parts in another order take as many nodes, and say the same of them up to a renaming. -/
theorem reordered_each {xs ys : List α} (perm : ys.Perm xs) (n : Int) :
    (each part ys n).next = (each part xs n).next ∧
      Reordered n (each part xs n).next (each part xs n).triples (each part ys n).triples := by
  induction perm generalizing n with
  | nil => exact ⟨rfl, Reordered.refl _ _ _⟩
  | cons x _ ih =>
    obtain ⟨next, reordered⟩ := ih (part x n).next
    exact ⟨next, Reordered.cons ((parts x).woven n) reordered⟩
  | swap x y rest => exact reordered_swap parts y x rest n
  | trans _ _ ih ih' =>
    obtain ⟨next, reordered⟩ := ih n
    obtain ⟨next', reordered'⟩ := ih' n
    rw [next'] at reordered
    exact ⟨next.trans next', reordered'.trans reordered⟩

end Parts

namespace Canvas

/-- What relations are read against is the same on two canvases. -/
structure Agrees (c c' : Canvas) : Prop where
  resolver : c.resolver = c'.resolver
  inferred : c.inferred = c'.inferred
  byId : ∀ id, c.byId.get? id = c'.byId.get? id
  properties : ∀ label, c.properties.get? label = c'.properties.get? label

variable {c c' : Canvas} {declared declared' : List String}

/-- A relation is encoded alike on canvases that agree, with the same names declared after it. -/
theorem relation_congr (same : c.Agrees c') (known : ∀ name, name ∈ declared ↔ name ∈ declared')
    (e : Relation) :
    (c.relation declared e).1 = (c'.relation declared' e).1 ∧
      ∀ name, name ∈ (c.relation declared e).2.2 ↔ name ∈ (c'.relation declared' e).2.2 := by
  have predicate : c.predicate? e.label = c'.predicate? e.label := by
    unfold predicate?
    rw [same.properties, same.resolver]
  unfold relation
  rw [same.inferred, same.byId, same.byId, same.resolver, predicate]
  cases e.inferred && !c'.inferred with
  | true => exact ⟨rfl, known⟩
  | false =>
    simp only [Bool.false_eq_true, if_false]
    cases c'.byId.get? e.source with
    | none => exact ⟨rfl, known⟩
    | some source =>
      cases c'.byId.get? e.target with
      | none => exact ⟨rfl, known⟩
      | some target =>
        cases Vocabulary.structural? e.label with
        | some _ => exact ⟨rfl, known⟩
        | none =>
          cases c'.predicate? e.label with
          | none => exact ⟨rfl, known⟩
          | some predicate =>
            by_cases old : nameOf predicate ∈ declared'
            · simp only [known, old, if_true, implies_true, and_self]
            · simp only [known, old, if_false, List.mem_cons, implies_true, and_self]

theorem relations_congr (same : c.Agrees c') (known : ∀ name, name ∈ declared ↔ name ∈ declared')
    (es : List Relation) : (c.relations declared es).1 = (c'.relations declared' es).1 := by
  induction es generalizing declared declared' with
  | nil => rfl
  | cons e es ih =>
    obtain ⟨first, known'⟩ := relation_congr same known e
    exact congrArg₂ (· ++ ·) first (ih known')

end Canvas

def isLabelled (e : Entity) : Bool :=
  e.isProperty && e.label ≠ ""

variable (r : Resolver) (inferred : Bool) {entities shuffled : List Entity}

/-- Canvases of the same entities agree if ids and labels tell their entities apart. -/
theorem agrees_of_perm (perm : shuffled.Perm entities) (ids : (entities.map Entity.id).Nodup)
    (labels : ((entities.filter isLabelled).map Entity.label).Nodup) :
    (Canvas.of r inferred shuffled).Agrees (Canvas.of r inferred entities) := by
  have look {pairs pairs' : List (String × Entity)} (perm : pairs'.Perm pairs)
      (once : (pairs.map Prod.fst).Nodup) (key : String) :
      (Table.ofList pairs').get? key = (Table.ofList pairs).get? key := by
    have once' : (pairs'.map Prod.fst).Nodup := (perm.map Prod.fst).nodup_iff.2 once
    ext e
    rw [Table.get?_ofList_eq_some_iff once', Table.get?_ofList_eq_some_iff once, perm.mem_iff]
  refine ⟨rfl, rfl, ?_, ?_⟩
  · refine look (perm.map fun e => (e.id, e)) ?_
    rw [List.map_map]
    exact ids
  · refine look ((perm.filter isLabelled).map fun e => (e.label, e)) ?_
    rw [List.map_map]
    exact labels

/-- Relations are encoded alike whatever the order of the canvas. -/
theorem relations_of_perm (perm : shuffled.Perm entities) (ids : (entities.map Entity.id).Nodup)
    (labels : ((entities.filter isLabelled).map Entity.label).Nodup) (relations : List Relation)
    (n : Int) :
    (emitRelations r inferred shuffled relations n).triples =
      (emitRelations r inferred entities relations n).triples := by
  refine Canvas.relations_congr (agrees_of_perm r inferred perm ids labels) (fun name => ?_)
    relations
  exact ((perm.filter Entity.isProperty).map fun e => nameOf (subjectOf r e)).mem_iff

theorem reordered_emit (language : String) (metadata : Option Metadata)
    (perm : shuffled.Perm entities) (ids : (entities.map Entity.id).Nodup)
    (labels : ((entities.filter isLabelled).map Entity.label).Nodup) (relations : List Relation) :
    let t := emit r language inferred entities relations metadata
    let u := emit r language inferred shuffled relations metadata
    u.next = t.next ∧ Reordered 0 t.next t.triples u.triples := by
  have whole {header : Int → Emission} (h : Contribution r header) :
      let part (es : List Entity) := (header 0).andThen (each (emitEntity r language) es)
      (part shuffled).next = (part entities).next ∧
        Reordered 0 (part entities).next
          ((part entities).triples ++ (emitRelations r inferred entities relations 0).triples)
          ((part shuffled).triples ++ (emitRelations r inferred shuffled relations 0).triples) := by
    obtain ⟨next, σ, fixed, renames⟩ :=
      reordered_each (contribution_emitEntity r language) perm (header 0).next
    obtain ⟨τ, out, both⟩ := Reordered.cons (h.woven 0) ⟨σ, fixed, renames⟩
    refine ⟨next, τ, out, both.append ?_⟩
    rw [relations_of_perm r inferred perm ids labels]
    refine Renames.self fun s hs => Triple.rename_eq_self fun label there => ?_
    rw [Canvas.nodes_relations _ _ relations s hs] at there
    cases there
  cases metadata with
  | none => exact whole .nothing
  | some m => exact whole (contribution_emitHeader r language m)

/-- Encodings of the same entities in two orders have as many nodes, and their triples are the same
up to a renaming of these nodes among each other. -/
theorem build_perm (d : Naming) (metadata : Option Metadata) (relations : List Relation)
    {entities shuffled : List Entity} (perm : shuffled.Perm entities)
    (ids : (entities.map Entity.id).Nodup)
    (labels : ((entities.filter fun e => e.isProperty && e.label ≠ "").map Entity.label).Nodup) :
    let t := build d entities relations metadata
    let u := build d shuffled relations metadata
    (∃ f : String → String, Function.Bijective f ∧
      (∀ label, (∀ m, 0 ≤ m → m < t.nodes → label ≠ nodeLabel m) → f label = label) ∧
      ∀ s, s ∈ u.triples ↔ s ∈ t.triples.map (Triple.rename f)) ∧
    u.prefixes = t.prefixes ∧ u.nodes = t.nodes := by
  let own := (metadata.map d.withMetadata).getD d
  obtain ⟨next, σ, fixed, renames⟩ :=
    reordered_emit own.resolver own.inferred own.language metadata perm ids labels relations
  refine ⟨⟨relabel σ, (relabel σ).bijective, ?_, ?_⟩, rfl, next⟩
  · intro label other
    by_cases node : ∃ m, label = nodeLabel m
    · obtain ⟨m, rfl⟩ := node
      rw [relabel_nodeLabel, fixed m]
      by_contra inside
      obtain ⟨lower, upper⟩ := not_or.1 inside
      exact other m (Int.not_lt.1 lower) (Int.not_le.1 upper) rfl
    · exact relabel_of_ne (not_exists.1 node) σ
  · intro s
    refine mem_firsts.trans ((renames s).trans ?_)
    simp only [List.mem_map]
    exact exists_congr fun s' => and_congr_left fun _ => mem_firsts.symm

/-- Two classes that are described by expressions, and the property that they speak of. -/
def household : List Entity :=
  [⟨"1", "Owner", none, none, [], .concept [] [⟨"SubClassOf", "hasPet some (Cat or Dog)"⟩]⟩,
    ⟨"2", "hasPet", none, none, [], .objectProperty [] []⟩,
    ⟨"3", "Cat", none, none, [], .concept [] [⟨"SuperClassOf", "Pet and not Dog"⟩]⟩]

/-- Each owner and the cats, and a relation of no known label. -/
def householdEdges : List Relation :=
  [⟨"1", "3", "hasPet", false⟩, ⟨"1", "3", "feeds", false⟩, ⟨"3", "4", "feeds", false⟩]

theorem build_perm_household :
    household.reverse.Perm household ∧ (household.map Entity.id).Nodup ∧
      ((household.filter fun e => e.isProperty && e.label ≠ "").map Entity.label).Nodup ∧
      let t := build {} household householdEdges none
      let u := build {} household.reverse householdEdges none
      (∃ f : String → String, Function.Bijective f ∧
        (∀ label, (∀ m, 0 ≤ m → m < t.nodes → label ≠ nodeLabel m) → f label = label) ∧
        ∀ s, s ∈ u.triples ↔ s ∈ t.triples.map (Triple.rename f)) ∧
      u.prefixes = t.prefixes ∧ u.nodes = t.nodes := by
  have perm : household.reverse.Perm household := List.reverse_perm household
  have ids : (household.map Entity.id).Nodup := by decide
  have labels :
      ((household.filter fun e => e.isProperty && e.label ≠ "").map Entity.label).Nodup := by
    decide
  exact ⟨perm, ids, labels, build_perm {} none householdEdges perm ids labels⟩

end Encoding

end Ontogram
