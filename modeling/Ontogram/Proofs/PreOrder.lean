import Ontogram.Proofs.Renaming
import Ontogram.Proofs.WellFormed

set_option autoImplicit false

namespace Ontogram.Expression

mutual

/-- The junctions, complements and restrictions within an expression, each before its operands. -/
def compounds : Expression → List Expression
  | name _ => []
  | raw _ => []
  | inter operands => inter operands :: compoundsIn operands
  | union operands => union operands :: compoundsIn operands
  | compl operand => compl operand :: compounds operand
  | restrict property quantifier none number reflexive =>
    [restrict property quantifier none number reflexive]
  | restrict property quantifier (some filler) number reflexive =>
    restrict property quantifier (some filler) number reflexive :: compounds filler

/-- The compound expressions within several operands, from left to right. -/
def compoundsIn : List Expression → List Expression
  | [] => []
  | e :: es => compounds e ++ compoundsIn es

end

mutual

/-- The compound expressions that lowering comes to, in the order in which it gives them nodes, each
with the number from which it is lowered. -/
def visits (r : Resolver) : Expression → Int → List (Expression × Int)
  | name _, _ => []
  | raw _, _ => []
  | inter operands, n => (inter operands, n) :: visitsIn r operands (n + 1)
  | union operands, n => (union operands, n) :: visitsIn r operands (n + 1)
  | compl operand, n => (compl operand, n) :: visits r operand (n + 1)
  | restrict property quantifier none number reflexive, n =>
    [(restrict property quantifier none number reflexive, n)]
  | restrict property quantifier (some filler) number reflexive, n =>
    (restrict property quantifier (some filler) number reflexive, n) ::
      if reflexive || quantifier = .value then [] else visits r filler (n + 1)

/-- The compound expressions that lowering comes to within several operands. -/
def visitsIn (r : Resolver) : List Expression → Int → List (Expression × Int)
  | [], _ => []
  | e :: es, n => visits r e n ++ visitsIn r es (lower r e n).next

end

def numberedFrom (n : Int) (es : List Expression) : List (Expression × Int) :=
  es.mapIdx fun i e => (e, n + i)

theorem numberedFrom_nil (n : Int) : numberedFrom n [] = [] := rfl

theorem numberedFrom_append (n : Int) (es fs : List Expression) :
    numberedFrom n (es ++ fs) = numberedFrom n es ++ numberedFrom (n + es.length) fs := by
  rw [numberedFrom, List.mapIdx_append]
  congr 1
  refine List.mapIdx_eq_mapIdx_iff.2 fun i _ => ?_
  simp
  omega

theorem numberedFrom_cons (n : Int) (e : Expression) (es : List Expression) :
    numberedFrom n (e :: es) = (e, n) :: numberedFrom (n + 1) es := by
  have front := numberedFrom_append n [e] es
  simpa [numberedFrom] using front

section Visits

variable (r : Resolver)

theorem ref_restrict (property : String) (quantifier : Quantifier) (filler : Option Expression)
    (number : Option Int) (reflexive : Bool) (n : Int) :
    (lower r (restrict property quantifier filler number reflexive) n).ref = blankNode n := by
  cases reflexive with
  | true => rw [lower_reflexive]
  | false =>
    rcases quantifier_kind quantifier with hq | rfl | hq
    · cases filler with
      | none => rw [lower_filler_none r property number n hq]
      | some filler => rw [lower_filler r property number n hq]
    · rw [lower_value]
    · cases filler with
      | none => rw [lower_count_none r property number n hq]
      | some filler =>
        cases hd : datatypeName? filler with
        | some token => rw [lower_count_data r property number n hq hd]
        | none => rw [lower_count_class r property number n hq hd]

theorem next_unfilled (property : String) (quantifier : Quantifier) (number : Option Int)
    (reflexive : Bool) (n : Int) :
    (lower r (restrict property quantifier none number reflexive) n).next = n + 1 := by
  cases reflexive <;> cases quantifier <;> rfl

/-- The filler of a restriction that is no value is lowered behind its node, also where it names a
datatype: then it has neither nodes nor triples. -/
theorem lower_filled (property : String) {quantifier : Quantifier} (filler : Expression)
    (number : Option Int) (n : Int) (ne : quantifier ≠ .value) :
    let whole := lower r (restrict property quantifier (some filler) number false) n
    whole.next = (lower r filler (n + 1)).next ∧
      (lower r filler (n + 1)).triples.IsInfix whole.triples := by
  intro whole
  have whole_eq : whole = lower r (restrict property quantifier (some filler) number false) n := rfl
  rcases quantifier_kind quantifier with hq | rfl | hq
  · rw [lower_filler r property number n hq] at whole_eq
    rw [whole_eq]
    exact ⟨rfl, List.infix_append _ _ _⟩
  · exact absurd rfl ne
  · cases hd : datatypeName? filler with
    | some token =>
      cases filler <;> try cases hd
      rw [lower_count_data r property number n hq hd] at whole_eq
      rw [whole_eq]
      exact ⟨rfl, List.nil_infix⟩
    | none =>
      rw [lower_count_class r property number n hq hd] at whole_eq
      rw [whole_eq]
      exact ⟨rfl, List.infix_append _ _ _⟩

mutual

/-- What lowering comes to is lowered as a part of the whole, and its number is that of the node
that stands for it. -/
theorem lower_of_mem_visits : (e : Expression) → (n : Int) → ∀ v ∈ visits r e n,
    (lower r v.1 v.2).ref = blankNode v.2 ∧
      (lower r v.1 v.2).triples.IsInfix (lower r e n).triples
  | name _, _, _, hv => absurd hv List.not_mem_nil
  | raw _, _, _, hv => absurd hv List.not_mem_nil
  | inter operands, n, v, hv => by
    rcases List.mem_cons.1 hv with rfl | hv
    · exact ⟨rfl, List.infix_rfl⟩
    · obtain ⟨ref, part⟩ := lower_of_mem_visitsIn operands (n + 1) v hv
      rw [lower_inter]
      exact ⟨ref, part.trans (List.infix_append _ _ _)⟩
  | union operands, n, v, hv => by
    rcases List.mem_cons.1 hv with rfl | hv
    · exact ⟨rfl, List.infix_rfl⟩
    · obtain ⟨ref, part⟩ := lower_of_mem_visitsIn operands (n + 1) v hv
      rw [lower_union]
      exact ⟨ref, part.trans (List.infix_append _ _ _)⟩
  | compl operand, n, v, hv => by
    rcases List.mem_cons.1 hv with rfl | hv
    · exact ⟨rfl, List.infix_rfl⟩
    · obtain ⟨ref, part⟩ := lower_of_mem_visits operand (n + 1) v hv
      rw [lower_compl]
      exact ⟨ref, part.trans (List.infix_append _ _ _)⟩
  | restrict property quantifier none number reflexive, n, v, hv => by
    obtain rfl := List.mem_singleton.1 hv
    exact ⟨ref_restrict r property quantifier none number reflexive n, List.infix_rfl⟩
  | restrict property quantifier (some filler) number reflexive, n, v, hv => by
    rcases List.mem_cons.1 hv with rfl | hv
    · exact ⟨ref_restrict r property quantifier _ number reflexive n, List.infix_rfl⟩
    split at hv
    · cases hv
    · rename_i filled
      simp only [Bool.or_eq_true, decide_eq_true_eq, not_or, Bool.not_eq_true] at filled
      obtain ⟨ref, part⟩ := lower_of_mem_visits filler (n + 1) v hv
      rw [filled.1]
      exact ⟨ref, part.trans (lower_filled r property filler number n filled.2).2⟩

theorem lower_of_mem_visitsIn : (es : List Expression) → (n : Int) → ∀ v ∈ visitsIn r es n,
    (lower r v.1 v.2).ref = blankNode v.2 ∧
      (lower r v.1 v.2).triples.IsInfix (lowerAll r es n).2.1
  | [], _, _, hv => absurd hv List.not_mem_nil
  | e :: es, n, v, hv => by
    rcases List.mem_append.1 hv with hv | hv
    · obtain ⟨ref, part⟩ := lower_of_mem_visits e n v hv
      exact ⟨ref, part.trans (List.prefix_append _ _).isInfix⟩
    · obtain ⟨ref, part⟩ := lower_of_mem_visitsIn es (lower r e n).next v hv
      exact ⟨ref, part.trans (List.suffix_append _ _).isInfix⟩

end

/-- Lowering comes to all compound expressions within an expression, in pre-order, and numbers them
without gaps. -/
structure InPreOrder (e : Expression) : Prop where
  visits : ∀ n, visits r e n = numberedFrom n (compounds e)
  next : ∀ n, (lower r e n).next = n + (compounds e).length

variable {r}

theorem inPreOrder_all {es : List Expression} (each : ∀ e ∈ es, InPreOrder r e) (n : Int) :
    visitsIn r es n = numberedFrom n (compoundsIn es) ∧
      (lowerAll r es n).2.2 = n + (compoundsIn es).length := by
  induction es generalizing n with
  | nil => exact ⟨rfl, by simp [lowerAll, compoundsIn]⟩
  | cons e es ih =>
    have first := each e List.mem_cons_self
    obtain ⟨visits, next⟩ := ih (fun f hf => each f (List.mem_cons_of_mem e hf)) (lower r e n).next
    constructor
    · rw [visitsIn, visits, first.visits, first.next, compoundsIn, numberedFrom_append]
    · rw [compoundsIn, List.length_append]
      change (lowerAll r es (lower r e n).next).2.2 = _
      rw [next, first.next]
      omega

/-- A compound expression whose inner ones are visited in pre-order from the next number on. -/
theorem InPreOrder.of_inner {e : Expression} {inner : List Expression}
    (shape : compounds e = e :: inner)
    (behind : ∀ n, Expression.visits r e n = (e, n) :: numberedFrom (n + 1) inner)
    (next : ∀ n, (lower r e n).next = n + 1 + inner.length) : InPreOrder r e where
  visits n := by rw [behind, shape, numberedFrom_cons]
  next n := by
    rw [next, shape, List.length_cons]
    omega

theorem IsWellFormed.inPreOrder {ts : List String} {e : Expression} (h : IsWellFormed ts e) :
    InPreOrder r e := by
  induction h with
  | name token => exact ⟨fun n => rfl, fun n => (Int.add_zero n).symm⟩
  | inter _ _ ih =>
    exact .of_inner (by rw [compounds]) (fun n => by rw [visits, (inPreOrder_all ih (n + 1)).1])
      fun n => (inPreOrder_all ih (n + 1)).2
  | union _ _ ih =>
    exact .of_inner (by rw [compounds]) (fun n => by rw [visits, (inPreOrder_all ih (n + 1)).1])
      fun n => (inPreOrder_all ih (n + 1)).2
  | compl _ ih =>
    exact .of_inner (by rw [compounds]) (fun n => by rw [visits, ih.visits]) fun n =>
      ih.next (n + 1)
  | @restrict property quantifier filler number reflexive fitting _ ih =>
    cases filler with
    | none =>
      refine .of_inner (by rw [compounds]) (fun n => by rw [visits, numberedFrom_nil]) fun n => ?_
      rw [next_unfilled, List.length_nil]
      omega
    | some filler =>
      have unmarked : reflexive = false :=
        Bool.eq_false_iff.2 fun marked => by cases (fitting.marked marked).2.1
      subst unmarked
      by_cases value : quantifier = .value
      · subst value
        obtain ⟨text, same⟩ := fitting.value rfl
        obtain rfl := Option.some.inj same
        exact .of_inner (by rw [compounds, compounds]) (fun n => by rw [visits]; rfl) fun n => by
          simp [lower_value]
      · have inner := ih value filler rfl
        refine .of_inner (by rw [compounds]) (fun n => ?_) fun n => ?_
        · rw [visits, if_neg (by simp [value]), inner.visits]
        · rw [(lower_filled r property filler number n value).1, inner.next]

end Visits

/-- Lowering a tree that is read gives a node to each of its compound expressions, numbered in
pre-order from the number that it starts with, and counted from zero the nodes only have other
numbers. -/
theorem lower_preOrder (r : Resolver) (s : String) (k : Int) :
    let e := parse s
    (lower r e k).next = k + (compounds e).length ∧
      visits r e k = numberedFrom k (compounds e) ∧
      (∀ (i : Nat) (c : Expression), (compounds e)[i]? = some c →
        (lower r c (k + i)).ref = blankNode (k + i) ∧
          (lower r c (k + i)).triples.IsInfix (lower r e k).triples) ∧
      lower r e k = (lower r e 0).moved (relabel (Equiv.addRight k)) k := by
  intro e
  have ordered : InPreOrder r e := (wellFormed_parse s).inPreOrder
  have moved := lower_add r (moves_relabel k) e 0
  rw [Int.zero_add] at moved
  refine ⟨ordered.next k, ordered.visits k, fun i c hc => ?_, moved⟩
  have visited : (c, k + (i : Int)) ∈ visits r e k := by
    rw [ordered.visits k, numberedFrom]
    exact List.mem_of_getElem? (i := i) (by rw [List.getElem?_mapIdx, hc]; rfl)
  exact lower_of_mem_visits r e k (c, k + i) visited

end Ontogram.Expression
