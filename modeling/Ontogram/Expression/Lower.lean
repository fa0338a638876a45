import Ontogram.Expression.Parse
import Ontogram.Resolver

set_option autoImplicit false

namespace Ontogram

def blankNode (n : Int) : Term :=
  .blank ("b" ++ toString n)

/-- The triples that describe an expression. -/
structure Lowered where
  /-- The term that stands for the expression. -/
  ref : Term
  /-- The triples about the nodes of the expression. -/
  triples : List Triple
  /-- The number of the next node. -/
  next : Int

/-- Why a tree has no triples. -/
inductive Expression.Fault where
  /-- The quantifier `self` on a restriction that is not marked reflexive. -/
  | unmarkedSelf
  /-- Text in the place of an expression. -/
  | rawFiller

namespace Expression

open Vocabulary (owl)

/-- The predicates for a number without and with a filler. -/
def countPredicates : Quantifier → String × String
  | .min => ("minCardinality", "minQualifiedCardinality")
  | .max => ("maxCardinality", "maxQualifiedCardinality")
  | _ => ("cardinality", "qualifiedCardinality")

def countLiteral (n : Int) : Term :=
  .literal ⟨toString n, none, some (Namespace.xsd ++ "nonNegativeInteger")⟩

def trueLiteral : Term :=
  .literal ⟨"true", none, some (Namespace.xsd ++ "boolean")⟩

/-- The triple for the number of a restriction, if it has one. -/
def countTriples (node : Term) (quantifier : Quantifier) (qualified : Bool) :
    Option Int → List Triple
  | none => []
  | some n =>
    let predicates := countPredicates quantifier
    [⟨node, owl (if qualified then predicates.2 else predicates.1), countLiteral n⟩]

/-- The datatype that a filler names, if it names one. -/
def datatypeName? : Expression → Option String
  | name token => if Resolver.isDatatype token then some token else none
  | _ => none

mutual

/-- The triples of an expression whose first node has the number `n`. -/
def lower (r : Resolver) (e : Expression) (n : Int) : Lowered :=
  match e with
  | name token => ⟨r.resolve token, [], n⟩
  | raw text => ⟨r.resolveValue text, [], n⟩
  | inter operands =>
    let (refs, triples, next) := lowerAll r operands (n + 1)
    ⟨blankNode n, triples ++ [⟨blankNode n, owl "intersectionOf", .list refs⟩], next⟩
  | union operands =>
    let (refs, triples, next) := lowerAll r operands (n + 1)
    ⟨blankNode n, triples ++ [⟨blankNode n, owl "unionOf", .list refs⟩], next⟩
  | compl operand =>
    let inner := lower r operand (n + 1)
    ⟨blankNode n, inner.triples ++ [⟨blankNode n, owl "complementOf", inner.ref⟩], inner.next⟩
  | restrict property quantifier filler number reflexive =>
    let node := blankNode n
    let head : List Triple :=
      [⟨node, Vocabulary.type, owl "Restriction"⟩, ⟨node, owl "onProperty", r.resolve property⟩]
    if reflexive then ⟨node, head ++ [⟨node, owl "hasSelf", trueLiteral⟩], n + 1⟩
    else
      match quantifier with
      | .some => quantified r node head "someValuesFrom" filler (n + 1)
      | .only => quantified r node head "allValuesFrom" filler (n + 1)
      | .value =>
        let value := r.resolveValue ((filler.map Expression.text).getD "")
        ⟨node, head ++ [⟨node, owl "hasValue", value⟩], n + 1⟩
      | _ =>
        let counted := head ++ countTriples node quantifier filler.isSome number
        match filler with
        | none => ⟨node, counted, n + 1⟩
        | some filler =>
          match datatypeName? filler with
          | some token =>
            ⟨node, counted ++ [⟨node, owl "onDataRange", r.resolveDatatype token⟩], n + 1⟩
          | none =>
            let inner := lower r filler (n + 1)
            ⟨node, counted ++ inner.triples ++ [⟨node, owl "onClass", inner.ref⟩], inner.next⟩

/-- The triples of a restriction whose filler is its whole argument; a missing filler is the class
of all things. -/
def quantified (r : Resolver) (node : Term) (head : List Triple) (predicate : String)
    (filler : Option Expression) (n : Int) : Lowered :=
  match filler with
  | none => ⟨node, head ++ [⟨node, owl predicate, owl "Thing"⟩], n⟩
  | some filler =>
    let inner := lower r filler n
    ⟨node, head ++ inner.triples ++ [⟨node, owl predicate, inner.ref⟩], inner.next⟩

/-- The terms of the operands of a junction, their triples, and the number of the next node. -/
def lowerAll (r : Resolver) (es : List Expression) (n : Int) : List Term × List Triple × Int :=
  match es with
  | [] => ([], [], n)
  | e :: es =>
    let first := lower r e n
    let (refs, triples, next) := lowerAll r es first.next
    (first.ref :: refs, first.triples ++ triples, next)

end

mutual

/-- The first fault in the order in which the triples are made. -/
def fault? : Expression → Option Fault
  | name _ => none
  | raw _ => some .rawFiller
  | inter operands => faultIn? operands
  | union operands => faultIn? operands
  | compl operand => fault? operand
  | restrict _ quantifier filler _ reflexive =>
    if reflexive || quantifier = .value then none
    else if quantifier = .self then some .unmarkedSelf
    else
      match filler with
      | none => none
      | some filler => fault? filler

/-- The first fault of a list of operands. -/
def faultIn? : List Expression → Option Fault
  | [] => none
  | e :: es =>
    match fault? e with
    | some fault => some fault
    | none => faultIn? es

end

/-- The triples of a text that is read as an expression. -/
def lowerText (r : Resolver) (s : String) (n : Int) : Lowered :=
  lower r (parse s) n

/-- The words that a list of names leaves out. -/
def isListMark (token : String) : Bool :=
  isParen token || token == ","

/-- The terms of the names in a text, as a list. -/
def listOf (r : Resolver) (s : String) : Term :=
  .list (((tokens s).filter fun t => !isListMark t).map r.resolve)

end Expression

end Ontogram
