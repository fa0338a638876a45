import Ontogram.Proofs.Numbering

set_option autoImplicit false

namespace Ontogram.Expression

open Vocabulary (owl)

def nodePredicates : List Term :=
  Vocabulary.type :: (["onProperty", "intersectionOf", "unionOf", "complementOf", "hasSelf",
    "hasValue", "someValuesFrom", "allValuesFrom", "onDataRange", "onClass", "minCardinality",
    "minQualifiedCardinality", "maxCardinality", "maxQualifiedCardinality", "cardinality",
    "qualifiedCardinality"]).map owl

mutual

/-- The texts in an expression that stand for terms: names, properties and values. -/
def leaves : Expression → List String
  | name token => [token]
  | raw text => [text]
  | inter operands => leavesIn operands
  | union operands => leavesIn operands
  | compl operand => operand.leaves
  | restrict property quantifier filler _ _ =>
    property ::
      match filler with
      | none => if quantifier = .value then [""] else []
      | some filler => if quantifier = .value then [filler.text] else filler.leaves

/-- The texts in a list of operands that stand for terms. -/
def leavesIn : List Expression → List String
  | [] => []
  | e :: es => e.leaves ++ leavesIn es

end

/-- A statement about the node of an expression. -/
structure IsNodeStatement (P : Term → Prop) (t : Triple) : Prop where
  subject : ∃ n, t.subject = blankNode n
  predicate : t.predicate ∈ nodePredicates
  object : P t.object

/-- A property of terms that what is read from certain texts has, and with it all that a description
is made of. -/
structure Covers (r : Resolver) (Q : String → Prop) (P : Term → Prop) : Prop where
  name : ∀ s, Q s → P (r.resolve s)
  datatype : ∀ s, Q s → P (r.resolveDatatype s)
  value : ∀ s, Q s → P (r.resolveValue s)
  node : ∀ n, P (blankNode n)
  word : ∀ w ∈ ["Restriction", "Thing"], P (owl w)
  truth : P trueLiteral
  count : ∀ n, P (countLiteral n)
  list : ∀ items, (∀ t ∈ items, P t) → P (.list items)

/-- What may be said of a node. -/
def Sayable (P : Term → Prop) (pairs : List (Term × Term)) : Prop :=
  ∀ p ∈ pairs, p.1 ∈ nodePredicates ∧ P p.2

/-- A property is one of the term that stands for an expression, and of all objects in its
triples. -/
structure IsOver (P : Term → Prop) (l : Lowered) : Prop where
  ref : P l.ref
  triples : ∀ t ∈ l.triples, IsNodeStatement P t

theorem property_mem_leaves (property : String) (quantifier : Quantifier)
    (filler : Option Expression) (number : Option Int) (reflexive : Bool) :
    property ∈ (restrict property quantifier filler number reflexive).leaves := by
  cases filler <;> simp [leaves]

theorem mem_leaves_of_datatypeName? {e : Expression} {token : String}
    (h : datatypeName? e = some token) : token ∈ e.leaves := by
  cases e with
  | name written =>
    simp only [datatypeName?] at h
    split at h
    · simpa [leaves] using (Option.some.inj h).symm
    · cases h
  | raw _ | inter _ | union _ | compl _ | restrict _ _ _ _ _ => cases h

section Saying

variable {P : Term → Prop} {front back pairs : List (Term × Term)} {xs : List Triple}

theorem Sayable.nil : Sayable P [] :=
  fun _ hp => absurd hp List.not_mem_nil

theorem Sayable.single {p : Term} (known : p ∈ nodePredicates) {object : Term} (h : P object) :
    Sayable P [(p, object)] := by
  intro pair hp
  obtain rfl := List.mem_singleton.1 hp
  exact ⟨known, h⟩

theorem Sayable.append (hf : Sayable P front) (hb : Sayable P back) : Sayable P (front ++ back) :=
  fun p hp => (List.mem_append.1 hp).elim (hf p) (hb p)

theorem Sayable.own (h : Sayable P pairs) (n : Int) :
    ∀ t ∈ statements (blankNode n) pairs, IsNodeStatement P t := by
  intro t ht
  obtain ⟨p, hp, rfl⟩ := List.mem_map.1 ht
  exact ⟨⟨n, rfl⟩, (h p hp).1, (h p hp).2⟩

theorem Sayable.statements_around (hf : Sayable P front) (hb : Sayable P back)
    (inner : ∀ t ∈ xs, IsNodeStatement P t) (n : Int) :
    ∀ t ∈ statements (blankNode n) front ++ xs ++ statements (blankNode n) back,
      IsNodeStatement P t := by
  intro t ht
  rcases List.mem_append.1 ht with ht | ht
  · exact (List.mem_append.1 ht).elim (hf.own n t) (inner t)
  · exact hb.own n t ht

end Saying

namespace Covers

variable {r : Resolver} {Q : String → Prop} {P : Term → Prop} (h : Covers r Q P)
include h

theorem restriction {property : String} (hp : Q property) :
    Sayable P (restrictionPairs (r.resolve property)) := by
  intro p hp'
  simp only [restrictionPairs, List.mem_cons, List.not_mem_nil, or_false] at hp'
  rcases hp' with rfl | rfl
  · exact ⟨by simp [nodePredicates], h.word _ (by simp)⟩
  · exact ⟨by simp [nodePredicates], h.name property hp⟩

theorem counted {property : String} (hp : Q property) (quantifier : Quantifier)
    (qualified : Bool) (number : Option Int) :
    Sayable P (restrictionPairs (r.resolve property) ++
      countPairs quantifier qualified number) := by
  refine (h.restriction hp).append ?_
  cases number with
  | none => exact fun p hp => absurd hp List.not_mem_nil
  | some n =>
    refine .single ?_ (h.count n)
    cases quantifier <;> cases qualified <;> simp [nodePredicates, countPredicates]

end Covers

theorem fillerWord_mem (quantifier : Quantifier) :
    owl (fillerWord quantifier) ∈ nodePredicates := by
  cases quantifier <;> simp [nodePredicates, fillerWord]

theorem ref_lower_restrict (r : Resolver) (property : String) (quantifier : Quantifier)
    (filler : Option Expression) (number : Option Int) (reflexive : Bool) (n : Int) :
    (lower r (restrict property quantifier filler number reflexive) n).ref = blankNode n := by
  cases reflexive with
  | true => rw [lower_reflexive]
  | false =>
    rcases quantifier_kind quantifier with hq | rfl | hq
    · cases filler with
      | none => rw [lower_filler_none r property number n hq]
      | some filler => rw [lower_filler r property number n hq]
    · rw [lower_value]
    · cases filler with
      | none => rw [lower_count_none r property number n hq]
      | some filler =>
        cases hd : datatypeName? filler with
        | some token => rw [lower_count_data r property number n hq hd]
        | none => rw [lower_count_class r property number n hq hd]

section Lowering

variable {r : Resolver} {Q : String → Prop} {P : Term → Prop}

mutual

/-- The term and the triples of an expression are made of what its texts stand for. -/
theorem over_lower (h : Covers r Q P) : (e : Expression) → (n : Int) → (∀ s ∈ e.leaves, Q s) →
    IsOver P (lower r e n)
  | name token, n, texts =>
    ⟨h.name token (texts token (by simp [leaves])), fun _ ht => absurd ht List.not_mem_nil⟩
  | raw text, n, texts =>
    ⟨h.value text (texts text (by simp [leaves])), fun _ ht => absurd ht List.not_mem_nil⟩
  | inter operands, n, texts => by
    obtain ⟨refs, triples⟩ := over_lowerAll h operands (n + 1) texts
    have back := Sayable.single (p := owl "intersectionOf") (by simp [nodePredicates])
      (h.list _ refs)
    rw [lower_inter]
    exact ⟨h.node n, Sayable.nil.statements_around back triples n⟩
  | union operands, n, texts => by
    obtain ⟨refs, triples⟩ := over_lowerAll h operands (n + 1) texts
    have back := Sayable.single (p := owl "unionOf") (by simp [nodePredicates]) (h.list _ refs)
    rw [lower_union]
    exact ⟨h.node n, Sayable.nil.statements_around back triples n⟩
  | compl operand, n, texts => by
    obtain ⟨ref, triples⟩ := over_lower h operand (n + 1) texts
    have back := Sayable.single (p := owl "complementOf") (by simp [nodePredicates]) ref
    rw [lower_compl]
    exact ⟨h.node n, Sayable.nil.statements_around back triples n⟩
  | restrict property quantifier filler number true, n, texts => by
    have own := texts property (property_mem_leaves ..)
    have back := Sayable.single (p := owl "hasSelf") (by simp [nodePredicates]) h.truth
    rw [lower_reflexive]
    exact ⟨h.node n, ((h.restriction own).append back).own n⟩
  | restrict property quantifier none number false, n, texts => by
    have own := texts property (property_mem_leaves ..)
    rcases quantifier_kind quantifier with hq | rfl | hq
    · have back := Sayable.single (fillerWord_mem quantifier) (h.word "Thing" (by simp))
      rw [lower_filler_none r property number n hq]
      exact ⟨h.node n, ((h.restriction own).append back).own n⟩
    · have value := h.value "" (texts "" (by simp [leaves]))
      have back := Sayable.single (p := owl "hasValue") (by simp [nodePredicates]) value
      rw [lower_value]
      exact ⟨h.node n, ((h.restriction own).append back).own n⟩
    · rw [lower_count_none r property number n hq]
      exact ⟨h.node n, (h.counted own quantifier false number).own n⟩
  | restrict property quantifier (some filler) number false, n, texts => by
    have own := texts property (property_mem_leaves ..)
    -- The texts of the filler are leaves of their own except behind `value`.
    have inner (hv : quantifier ≠ .value) : IsOver P (lower r filler (n + 1)) :=
      over_lower h filler (n + 1) fun s hs => texts s (by simp [leaves, hv, hs])
    rcases quantifier_kind quantifier with hq | rfl | hq
    · obtain ⟨ref, triples⟩ := inner (by rcases hq with rfl | rfl <;> decide)
      have back := Sayable.single (fillerWord_mem quantifier) ref
      rw [lower_filler r property number n hq]
      exact ⟨h.node n, (h.restriction own).statements_around back triples n⟩
    · have value := h.value filler.text (texts filler.text (by simp [leaves]))
      have back := Sayable.single (p := owl "hasValue") (by simp [nodePredicates]) value
      rw [lower_value]
      exact ⟨h.node n, ((h.restriction own).append back).own n⟩
    · have hv : quantifier ≠ .value := by cases hq <;> decide
      cases hd : datatypeName? filler with
      | some token =>
        have leaf : token ∈ filler.leaves := mem_leaves_of_datatypeName? hd
        have range := h.datatype token (texts token (by simp [leaves, hv, leaf]))
        have back := Sayable.single (p := owl "onDataRange") (by simp [nodePredicates]) range
        rw [lower_count_data r property number n hq hd]
        exact ⟨h.node n, ((h.counted own quantifier true number).append back).own n⟩
      | none =>
        obtain ⟨ref, triples⟩ := inner hv
        have back := Sayable.single (p := owl "onClass") (by simp [nodePredicates]) ref
        rw [lower_count_class r property number n hq hd]
        exact ⟨h.node n, (h.counted own quantifier true number).statements_around back triples n⟩

theorem over_lowerAll (h : Covers r Q P) : (es : List Expression) → (n : Int) →
    (∀ s ∈ leavesIn es, Q s) →
    (∀ t ∈ (lowerAll r es n).1, P t) ∧ ∀ t ∈ (lowerAll r es n).2.1, IsNodeStatement P t
  | [], n, _ => ⟨fun _ ht => absurd ht List.not_mem_nil, fun _ ht => absurd ht List.not_mem_nil⟩
  | e :: es, n, texts => by
    obtain ⟨ref, triples⟩ := over_lower h e n fun s hs => texts s (List.mem_append_left _ hs)
    obtain ⟨refs, more⟩ := over_lowerAll h es (lower r e n).next fun s hs =>
      texts s (List.mem_append_right _ hs)
    exact ⟨List.forall_mem_cons.2 ⟨ref, refs⟩, List.forall_mem_append.2 ⟨triples, more⟩⟩

end

end Lowering

end Ontogram.Expression
