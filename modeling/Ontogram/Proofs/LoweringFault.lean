import Ontogram.Proofs.WellFormed

set_option autoImplicit false

namespace Ontogram.Expression

open Vocabulary (owl)

/-- The predicates for a number without and with a filler, by quantifier. -/
def countTable : List (Quantifier × String × String) :=
  [(.min, "minCardinality", "minQualifiedCardinality"),
    (.max, "maxCardinality", "maxQualifiedCardinality"),
    (.exactly, "cardinality", "qualifiedCardinality")]

/-- The triple for the number of a restriction whose predicates are known. -/
def numberTriples (node : Term) (predicates : String × String) (qualified : Bool) :
    Option Int → List Triple
  | none => []
  | some n => [⟨node, owl (if qualified then predicates.2 else predicates.1), countLiteral n⟩]

mutual

/-- The triples of an expression whose first node has the number `n`, or what stands in the way. -/
def tryLower (r : Resolver) (e : Expression) (n : Int) : Except Fault Lowered :=
  match e with
  | name token => .ok ⟨r.resolve token, [], n⟩
  | raw _ => .error .rawFiller
  | inter operands => do
    let (refs, triples, next) ← tryLowerAll r operands (n + 1)
    return ⟨blankNode n, triples ++ [⟨blankNode n, owl "intersectionOf", .list refs⟩], next⟩
  | union operands => do
    let (refs, triples, next) ← tryLowerAll r operands (n + 1)
    return ⟨blankNode n, triples ++ [⟨blankNode n, owl "unionOf", .list refs⟩], next⟩
  | compl operand => do
    let inner ← tryLower r operand (n + 1)
    return ⟨blankNode n, inner.triples ++ [⟨blankNode n, owl "complementOf", inner.ref⟩],
      inner.next⟩
  | restrict property quantifier filler number reflexive =>
    let node := blankNode n
    let head : List Triple :=
      [⟨node, Vocabulary.type, owl "Restriction"⟩, ⟨node, owl "onProperty", r.resolve property⟩]
    if reflexive then .ok ⟨node, head ++ [⟨node, owl "hasSelf", trueLiteral⟩], n + 1⟩
    else
      match quantifier with
      | .some => tryQuantified r node head "someValuesFrom" filler (n + 1)
      | .only => tryQuantified r node head "allValuesFrom" filler (n + 1)
      | .value =>
        let value := r.resolveValue ((filler.map Expression.text).getD "")
        .ok ⟨node, head ++ [⟨node, owl "hasValue", value⟩], n + 1⟩
      | quantifier =>
        match countTable.lookup quantifier with
        | none => .error .unmarkedSelf
        | some predicates =>
          let counted := head ++ numberTriples node predicates filler.isSome number
          match filler with
          | none => .ok ⟨node, counted, n + 1⟩
          | some filler =>
            match datatypeName? filler with
            | some token =>
              .ok ⟨node, counted ++ [⟨node, owl "onDataRange", r.resolveDatatype token⟩], n + 1⟩
            | none => do
              let inner ← tryLower r filler (n + 1)
              return ⟨node, counted ++ inner.triples ++ [⟨node, owl "onClass", inner.ref⟩],
                inner.next⟩

/-- The triples of a restriction whose filler is its whole argument. -/
def tryQuantified (r : Resolver) (node : Term) (head : List Triple) (predicate : String)
    (filler : Option Expression) (n : Int) : Except Fault Lowered :=
  match filler with
  | none => .ok ⟨node, head ++ [⟨node, owl predicate, owl "Thing"⟩], n⟩
  | some filler => do
    let inner ← tryLower r filler n
    return ⟨node, head ++ inner.triples ++ [⟨node, owl predicate, inner.ref⟩], inner.next⟩

/-- The terms of the operands of a junction, their triples, and the number of the next node. -/
def tryLowerAll (r : Resolver) (es : List Expression) (n : Int) :
    Except Fault (List Term × List Triple × Int) :=
  match es with
  | [] => .ok ([], [], n)
  | e :: es => do
    let first ← tryLower r e n
    let (refs, triples, next) ← tryLowerAll r es first.next
    return (first.ref :: refs, first.triples ++ triples, next)

end

def orFault {α : Type} (fault : Option Fault) (a : α) : Except Fault α :=
  match fault with
  | some fault => .error fault
  | none => .ok a

theorem countTriples_eq_numberTriples (node : Term) (quantifier : Quantifier) (qualified : Bool)
    (number : Option Int) :
    countTriples node quantifier qualified number =
      numberTriples node (countPredicates quantifier) qualified number := by
  cases number <;> rfl

/-- A filler that names a datatype has no fault. -/
theorem fault?_of_datatypeName? {filler : Expression} {token : String}
    (h : datatypeName? filler = some token) : fault? filler = none := by
  cases filler <;> first | rfl | cases h

mutual

/-- Lowering stops at the first fault of a tree, and nowhere else. -/
theorem tryLower_eq (r : Resolver) (n : Int) :
    (e : Expression) → tryLower r e n = orFault (fault? e) (lower r e n)
  | name _ => rfl
  | raw _ => rfl
  | inter operands => by
    rw [tryLower, tryLowerAll_eq r (n + 1) operands, fault?, lower]
    cases faultIn? operands <;> rfl
  | union operands => by
    rw [tryLower, tryLowerAll_eq r (n + 1) operands, fault?, lower]
    cases faultIn? operands <;> rfl
  | compl operand => by
    rw [tryLower, tryLower_eq r (n + 1) operand, fault?, lower]
    cases fault? operand <;> rfl
  | restrict property quantifier none number reflexive => by
    cases quantifier <;> cases reflexive <;> cases number <;> rfl
  | restrict property quantifier (some filler) number true => by cases quantifier <;> rfl
  -- Behind the quantifier only the filler can be at fault: this case alone needs the induction.
  | restrict property quantifier (some filler) number false => by
    have inner := tryLower_eq r (n + 1) filler
    cases quantifier
    case value | self => rfl
    case some | only =>
      simp only [tryLower, tryQuantified, fault?, lower, quantified, inner]
      cases fault? filler <;> rfl
    case min | max | exactly =>
      simp only [tryLower, fault?, lower, countTriples_eq_numberTriples, inner]
      cases type : datatypeName? filler with
      | none => cases fault? filler <;> rfl
      | some token =>
        rw [fault?_of_datatypeName? type]
        rfl

theorem tryLowerAll_eq (r : Resolver) (n : Int) :
    (es : List Expression) → tryLowerAll r es n = orFault (faultIn? es) (lowerAll r es n)
  | [] => rfl
  | e :: es => by
    rw [tryLowerAll, tryLower_eq r n e, faultIn?, lowerAll]
    cases fault? e with
    | some fault => rfl
    | none =>
      simp only [orFault, bind, Except.bind, tryLowerAll_eq r (lower r e n).next es]
      cases faultIn? es <;> rfl

end

/-- A well-formed expression has triples, whatever its names stand for and wherever its nodes are
counted from. -/
theorem IsWellFormed.tryLower_eq_ok {tokens : List String} {e : Expression}
    (h : IsWellFormed tokens e) (r : Resolver) (n : Int) :
    tryLower r e n = .ok (lower r e n) := by
  rw [tryLower_eq, h.fault?_eq_none]
  rfl

/-- Every text that is read as an expression has triples. -/
theorem tryLower_parse (r : Resolver) (s : String) (n : Int) :
    tryLower r (parse s) n = .ok (lowerText r s n) :=
  (wellFormed_parse s).tryLower_eq_ok r n

/-- What is read from a text is well formed, its properties are tokens of the text, and lowering
stops at no fault. -/
theorem isWellFormed_parse (s : String) :
    IsWellFormed (tokens s) (parse s) ∧
      ∀ (r : Resolver) (n : Int), tryLower r (parse s) n = .ok (lower r (parse s) n) :=
  ⟨wellFormed_parse s, fun r n => (wellFormed_parse s).tryLower_eq_ok r n⟩

end Ontogram.Expression
