import Mathlib
import Ontogram.Expression.Lower

set_option autoImplicit false

namespace Ontogram

theorem blankNode_inj {m n : Int} (h : blankNode m = blankNode n) : m = n := by
  have label : "b" ++ toString m = "b" ++ toString n := Term.blank.inj h
  have digits : m.repr = n.repr := (String.append_right_inj "b").1 label
  exact Int.repr_injective digits

/-- The statements about one term. -/
def statements (node : Term) (pairs : List (Term × Term)) : List Triple :=
  pairs.map fun p => ⟨node, p.1, p.2⟩

/-- The predicates and objects that triples give to a term. -/
def description (triples : List Triple) (node : Term) : List (Term × Term) :=
  (triples.filter fun t => t.subject = node).map fun t => (t.predicate, t.object)

theorem length_statements (node : Term) (pairs : List (Term × Term)) :
    (statements node pairs).length = pairs.length :=
  List.length_map _

theorem length_around (node : Term) (front back : List (Term × Term)) (xs : List Triple) :
    (statements node front ++ xs ++ statements node back).length =
      front.length + xs.length + back.length := by
  rw [List.length_append, List.length_append, length_statements, length_statements]

theorem description_append (xs ys : List Triple) (node : Term) :
    description (xs ++ ys) node = description xs node ++ description ys node := by
  simp [description]

theorem description_statements (node : Term) (pairs : List (Term × Term)) :
    description (statements node pairs) node = pairs := by
  induction pairs with
  | nil => rfl
  | cons p ps ih =>
    have step : description (statements node (p :: ps)) node =
        p :: description (statements node ps) node := by
      simp [description, statements]
    rw [step, ih]

/-- The subjects of triples are nodes with numbers from `a` on and below `b`. -/
structure Numbered (a b : Int) (triples : List Triple) : Prop where
  le : a ≤ b
  subject : ∀ t ∈ triples, ∃ m, a ≤ m ∧ m < b ∧ t.subject = blankNode m

/-- Triples say of the nodes with numbers from `a` on and below `b` what other triples say of
them. -/
def Describes (facts : List Triple) (a b : Int) (triples : List Triple) : Prop :=
  ∀ m, a ≤ m → m < b → description facts (blankNode m) = description triples (blankNode m)

namespace Numbered

variable {a b c : Int} {xs ys : List Triple}

theorem nil (a : Int) : Numbered a a [] :=
  ⟨Int.le_refl a, fun _ ht => absurd ht List.not_mem_nil⟩

theorem append (hx : Numbered a b xs) (hy : Numbered b c ys) : Numbered a c (xs ++ ys) := by
  refine ⟨Int.le_trans hx.le hy.le, ?_⟩
  intro t ht
  rcases List.mem_append.1 ht with ht | ht
  · obtain ⟨m, hm, lt, hs⟩ := hx.subject t ht
    have := hy.le
    exact ⟨m, hm, by omega, hs⟩
  · obtain ⟨m, hm, lt, hs⟩ := hy.subject t ht
    have := hx.le
    exact ⟨m, by omega, lt, hs⟩

/-- Statements about a node may stand before and after the triples of its operands. -/
theorem statements_around (front back : List (Term × Term)) (h : Numbered (a + 1) b xs) :
    Numbered a b
      (statements (blankNode a) front ++ xs ++ statements (blankNode a) back) := by
  have := h.le
  refine ⟨by omega, ?_⟩
  intro t ht
  have own (pairs : List (Term × Term)) (hp : t ∈ statements (blankNode a) pairs) :
      t.subject = blankNode a := by
    obtain ⟨p, _, rfl⟩ := List.mem_map.1 hp
    rfl
  rcases List.mem_append.1 ht with ht | ht
  · rcases List.mem_append.1 ht with ht | ht
    · exact ⟨a, by omega, by omega, own front ht⟩
    · obtain ⟨m, hm, lt, hs⟩ := h.subject t ht
      exact ⟨m, by omega, lt, hs⟩
  · exact ⟨a, by omega, by omega, own back ht⟩

theorem own (a : Int) (pairs : List (Term × Term)) :
    Numbered a (a + 1) (statements (blankNode a) pairs) := by
  have h := Numbered.statements_around pairs [] (Numbered.nil (a + 1))
  simpa [statements] using h

theorem description_eq_nil (h : Numbered a b xs) {m : Int} (out : m < a ∨ b ≤ m) :
    description xs (blankNode m) = [] := by
  have none : (xs.filter fun t => t.subject = blankNode m) = [] := by
    apply List.filter_eq_nil_iff.2
    intro t ht same
    obtain ⟨k, hk, lt, hs⟩ := h.subject t ht
    have : k = m := blankNode_inj (hs ▸ of_decide_eq_true same)
    omega
  rw [description, none]
  rfl

theorem description_around (front back : List (Term × Term)) (h : Numbered (a + 1) b xs) :
    description (statements (blankNode a) front ++ xs ++ statements (blankNode a) back)
      (blankNode a) = front ++ back := by
  have inner : description xs (blankNode a) = [] := h.description_eq_nil (Or.inl (by omega))
  rw [description_append, description_append, description_statements, description_statements,
    inner, List.append_nil]

theorem description_around_of_lt (front back : List (Term × Term)) {m : Int} (lt : a < m) :
    description (statements (blankNode a) front ++ xs ++ statements (blankNode a) back)
      (blankNode m) = description xs (blankNode m) := by
  have own (pairs : List (Term × Term)) :
      description (statements (blankNode a) pairs) (blankNode m) = [] :=
    (Numbered.own a pairs).description_eq_nil (Or.inr (by omega))
  rw [description_append, description_append, own, own, List.append_nil, List.nil_append]

end Numbered

namespace Describes

variable {facts xs ys : List Triple} {a b c : Int}

theorem left (h : Describes facts a c (xs ++ ys)) (hy : Numbered b c ys) :
    Describes facts a b xs := by
  intro m hm lt
  have := hy.le
  rw [h m hm (by omega), description_append, hy.description_eq_nil (Or.inl lt), List.append_nil]

theorem right (h : Describes facts a c (xs ++ ys)) (hx : Numbered a b xs) :
    Describes facts b c ys := by
  intro m hm lt
  have := hx.le
  rw [h m (by omega) lt, description_append, hx.description_eq_nil (Or.inr hm), List.nil_append]

variable {front back : List (Term × Term)}

theorem node (h : Describes facts a b
    (statements (blankNode a) front ++ xs ++ statements (blankNode a) back))
    (hx : Numbered (a + 1) b xs) : description facts (blankNode a) = front ++ back := by
  have := hx.le
  rw [h a (by omega) (by omega)]
  exact hx.description_around front back

theorem own {pairs : List (Term × Term)}
    (h : Describes facts a (a + 1) (statements (blankNode a) pairs)) :
    description facts (blankNode a) = pairs := by
  rw [h a (Int.le_refl a) (by omega)]
  exact description_statements (blankNode a) pairs

theorem inner (h : Describes facts a b
    (statements (blankNode a) front ++ xs ++ statements (blankNode a) back)) :
    Describes facts (a + 1) b xs := by
  intro m hm lt
  rw [h m (by omega) lt]
  exact Numbered.description_around_of_lt front back (by omega)

end Describes

namespace Expression

open Vocabulary (owl)

/-- What every restriction says of its node first. -/
def restrictionPairs (property : Term) : List (Term × Term) :=
  [(Vocabulary.type, owl "Restriction"), (owl "onProperty", property)]

/-- What a restriction says of its number, if it has one. -/
def countPairs (quantifier : Quantifier) (qualified : Bool) : Option Int → List (Term × Term)
  | none => []
  | some n =>
    let predicates := countPredicates quantifier
    [(owl (if qualified then predicates.2 else predicates.1), countLiteral n)]

theorem countTriples_eq (node : Term) (quantifier : Quantifier) (qualified : Bool)
    (number : Option Int) :
    countTriples node quantifier qualified number =
      statements node (countPairs quantifier qualified number) := by
  cases number <;> rfl

/-- The quantifiers of which the lowering tells a number and what is counted. -/
inductive IsCount : Quantifier → Prop where
  | min : IsCount .min
  | max : IsCount .max
  | exactly : IsCount .exactly
  | self : IsCount .self

theorem quantifier_kind (quantifier : Quantifier) :
    (quantifier = .some ∨ quantifier = .only) ∨ quantifier = .value ∨ IsCount quantifier := by
  cases quantifier <;> simp [IsCount.min, IsCount.max, IsCount.exactly, IsCount.self]

section Lowering

variable (r : Resolver) (property : String) {quantifier : Quantifier} {filler : Expression}
  (number : Option Int) (n : Int)

theorem lower_inter (operands : List Expression) :
    lower r (inter operands) n =
      ⟨blankNode n,
        statements (blankNode n) [] ++ (lowerAll r operands (n + 1)).2.1 ++
          statements (blankNode n)
            [(owl "intersectionOf", .list (lowerAll r operands (n + 1)).1)],
        (lowerAll r operands (n + 1)).2.2⟩ :=
  rfl

theorem lower_union (operands : List Expression) :
    lower r (union operands) n =
      ⟨blankNode n,
        statements (blankNode n) [] ++ (lowerAll r operands (n + 1)).2.1 ++
          statements (blankNode n) [(owl "unionOf", .list (lowerAll r operands (n + 1)).1)],
        (lowerAll r operands (n + 1)).2.2⟩ :=
  rfl

theorem lower_compl (operand : Expression) :
    lower r (compl operand) n =
      ⟨blankNode n,
        statements (blankNode n) [] ++ (lower r operand (n + 1)).triples ++
          statements (blankNode n) [(owl "complementOf", (lower r operand (n + 1)).ref)],
        (lower r operand (n + 1)).next⟩ :=
  rfl

/-- The word for a restriction to some or only things of a class. -/
def fillerWord : Quantifier → String
  | .some => "someValuesFrom"
  | _ => "allValuesFrom"

theorem lower_filler_none (h : quantifier = .some ∨ quantifier = .only) :
    lower r (restrict property quantifier none number false) n =
      ⟨blankNode n, statements (blankNode n)
        (restrictionPairs (r.resolve property) ++ [(owl (fillerWord quantifier), owl "Thing")]),
        n + 1⟩ := by
  rcases h with rfl | rfl <;> rfl

theorem lower_filler (h : quantifier = .some ∨ quantifier = .only) :
    lower r (restrict property quantifier (some filler) number false) n =
      ⟨blankNode n,
        statements (blankNode n) (restrictionPairs (r.resolve property)) ++
          (lower r filler (n + 1)).triples ++
          statements (blankNode n) [(owl (fillerWord quantifier), (lower r filler (n + 1)).ref)],
        (lower r filler (n + 1)).next⟩ := by
  rcases h with rfl | rfl <;> rfl

theorem lower_value (filler : Option Expression) :
    lower r (restrict property .value filler number false) n =
      ⟨blankNode n, statements (blankNode n)
        (restrictionPairs (r.resolve property) ++
          [(owl "hasValue", r.resolveValue ((filler.map Expression.text).getD ""))]), n + 1⟩ :=
  rfl

theorem lower_reflexive (quantifier : Quantifier) (filler : Option Expression) :
    lower r (restrict property quantifier filler number true) n =
      ⟨blankNode n, statements (blankNode n)
        (restrictionPairs (r.resolve property) ++ [(owl "hasSelf", trueLiteral)]), n + 1⟩ := by
  cases quantifier <;> simp [lower, statements, restrictionPairs]

theorem lower_count_none (h : IsCount quantifier) :
    lower r (restrict property quantifier none number false) n =
      ⟨blankNode n, statements (blankNode n)
        (restrictionPairs (r.resolve property) ++ countPairs quantifier false number), n + 1⟩ := by
  cases h <;> simp [lower, countTriples_eq, statements, restrictionPairs]

theorem lower_count_data (h : IsCount quantifier) {token : String}
    (hd : datatypeName? filler = some token) :
    lower r (restrict property quantifier (some filler) number false) n =
      ⟨blankNode n, statements (blankNode n)
        (restrictionPairs (r.resolve property) ++ countPairs quantifier true number ++
          [(owl "onDataRange", r.resolveDatatype token)]), n + 1⟩ := by
  cases h <;> simp [lower, hd, countTriples_eq, statements, restrictionPairs]

theorem lower_count_class (h : IsCount quantifier) (hd : datatypeName? filler = none) :
    lower r (restrict property quantifier (some filler) number false) n =
      ⟨blankNode n,
        statements (blankNode n)
            (restrictionPairs (r.resolve property) ++ countPairs quantifier true number) ++
          (lower r filler (n + 1)).triples ++
          statements (blankNode n) [(owl "onClass", (lower r filler (n + 1)).ref)],
        (lower r filler (n + 1)).next⟩ := by
  cases h <;> simp [lower, hd, countTriples_eq, statements, restrictionPairs]

end Lowering

variable (r : Resolver)

mutual

/-- The nodes of an expression have the numbers from its first one on and below the next one. -/
theorem numbered_lower : (e : Expression) → (n : Int) →
    Numbered n (lower r e n).next (lower r e n).triples
  | name token, n => Numbered.nil n
  | raw text, n => Numbered.nil n
  | inter operands, n => by
    rw [lower_inter]
    exact (numbered_lowerAll operands (n + 1)).statements_around _ _
  | union operands, n => by
    rw [lower_union]
    exact (numbered_lowerAll operands (n + 1)).statements_around _ _
  | compl operand, n => by
    rw [lower_compl]
    exact (numbered_lower operand (n + 1)).statements_around _ _
  | restrict property quantifier filler number true, n => by
    rw [lower_reflexive]
    exact Numbered.own n _
  | restrict property quantifier none number false, n => by
    rcases quantifier_kind quantifier with hq | rfl | hq
    · rw [lower_filler_none r property number n hq]
      exact Numbered.own n _
    · rw [lower_value]
      exact Numbered.own n _
    · rw [lower_count_none r property number n hq]
      exact Numbered.own n _
  | restrict property quantifier (some filler) number false, n => by
    have inner := numbered_lower filler (n + 1)
    rcases quantifier_kind quantifier with hq | rfl | hq
    · rw [lower_filler r property number n hq]
      exact inner.statements_around _ _
    · rw [lower_value]
      exact Numbered.own n _
    · cases hd : datatypeName? filler with
      | some token =>
        rw [lower_count_data r property number n hq hd]
        exact Numbered.own n _
      | none =>
        rw [lower_count_class r property number n hq hd]
        exact inner.statements_around _ _

theorem numbered_lowerAll : (es : List Expression) → (n : Int) →
    Numbered n (lowerAll r es n).2.2 (lowerAll r es n).2.1
  | [], n => Numbered.nil n
  | e :: es, n => (numbered_lower e n).append (numbered_lowerAll es (lower r e n).next)

end

end Expression

end Ontogram
