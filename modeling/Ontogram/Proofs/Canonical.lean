import Ontogram.Proofs.Numbering
import Ontogram.Proofs.WellFormed

set_option autoImplicit false

namespace Ontogram

open Vocabulary (owl)

mutual

/-- A class expression with its names resolved. What two texts may say differently without another
meaning is said in one way: a missing filler is the class of all things, and the kind of a number is
kept only with the number. -/
inductive Canonical where
  | term (t : Term)
  | inter (operands : List Canonical)
  | union (operands : List Canonical)
  | compl (operand : Canonical)
  | reflexive (property : Term)
  | someOf (property : Term) (filler : Canonical)
  | onlyOf (property : Term) (filler : Canonical)
  | value (property value : Term)
  | count (property : Term) (number : Option (Quantifier × Int)) (counted : Counted)

/-- What a restriction of number counts. -/
inductive Counted where
  | any
  | data (datatype : Term)
  | members (filler : Canonical)

end

namespace Expression

mutual

/-- The expression with its names resolved. -/
def canonical (r : Resolver) : Expression → Canonical
  | name token => .term (r.resolve token)
  | raw text => .term (r.resolveValue text)
  | inter operands => .inter (canonicalAll r operands)
  | union operands => .union (canonicalAll r operands)
  | compl operand => .compl (canonical r operand)
  | restrict property quantifier filler number reflexive =>
    let property := r.resolve property
    if reflexive then .reflexive property
    else
      match quantifier with
      | .some => .someOf property (canonicalFiller r filler)
      | .only => .onlyOf property (canonicalFiller r filler)
      | .value => .value property (r.resolveValue ((filler.map Expression.text).getD ""))
      | _ => .count property (number.map fun n => (quantifier, n)) (canonicalCounted r filler)

/-- The filler of a quantifier over all or some things. -/
def canonicalFiller (r : Resolver) : Option Expression → Canonical
  | none => .term (owl "Thing")
  | some filler => canonical r filler

/-- What a restriction of number counts. A name of a datatype is marked as one. -/
def canonicalCounted (r : Resolver) : Option Expression → Counted
  | none => .any
  | some filler =>
    match datatypeName? filler with
    | some token => .data (r.resolveDatatype token)
    | none => .members (canonical r filler)

/-- The operands with their names resolved. -/
def canonicalAll (r : Resolver) : List Expression → List Canonical
  | [] => []
  | e :: es => canonical r e :: canonicalAll r es

end

end Expression

namespace Canonical

variable (facts : List Triple) (recur : Term → Option Canonical) (node : Term)

/-- The object that triples give to a node for a word of the `owl` vocabulary. -/
def object? (word : String) : Option Term :=
  (description facts node).lookup (owl word)

/-- The terms of a list. -/
def items? : Term → Option (List Term)
  | .list items => some items
  | _ => none

/-- The number that a literal writes. -/
def number? : Term → Option Int
  | .literal l => l.value.toInt?
  | _ => none

/-- A junction, if the node is described as one. -/
def junction? (word : String) (join : List Canonical → Canonical) : Option Canonical := do
  let items ← items? (← object? facts node word)
  return join (← items.mapM recur)

/-- An expression with one operand, if the node is described as one. -/
def unary? (word : String) (wrap : Canonical → Canonical) : Option Canonical := do
  return wrap (← recur (← object? facts node word))

/-- The kind and the number of a restriction of number; the words tell whether something is named
that is counted. -/
def count? (qualified : Bool) : Option (Quantifier × Int) :=
  [Quantifier.min, .max, .exactly].findSome? fun quantifier => do
    let words := Expression.countPredicates quantifier
    let object ← object? facts node (if qualified then words.2 else words.1)
    return (quantifier, ← number? object)

/-- A restriction of number. -/
def counting (property : Term) : Option Canonical :=
  match object? facts node "onDataRange", object? facts node "onClass" with
  | some datatype, _ => some (.count property (count? facts node true) (.data datatype))
  | none, some filler => do
    return .count property (count? facts node true) (.members (← recur filler))
  | none, none => some (.count property (count? facts node false) .any)

/-- A restriction, if the node is described as one. -/
def restriction? : Option Canonical := do
  let property ← object? facts node "onProperty"
  ((object? facts node "hasSelf").map fun _ => .reflexive property)
    <|> unary? facts recur node "someValuesFrom" (.someOf property)
    <|> unary? facts recur node "allValuesFrom" (.onlyOf property)
    <|> ((object? facts node "hasValue").map fun value => .value property value)
    <|> counting facts recur node property

def ofNode : Option Canonical :=
  junction? facts recur node "intersectionOf" .inter
    <|> junction? facts recur node "unionOf" .union
    <|> unary? facts recur node "complementOf" .compl
    <|> restriction? facts recur node

/-- The expression that a term stands for, nested at most `depth` deep. -/
def ofTerm : Nat → Term → Option Canonical
  | 0, _ => none
  | depth + 1, .blank label => ofNode facts (ofTerm depth) (.blank label)
  | _ + 1, t => some (.term t)

/-- The expression that a term stands for by what triples say. An expression has no more levels than
triples. -/
def decode (ref : Term) (facts : List Triple) : Option Canonical :=
  ofTerm facts (facts.length + 1) ref

@[simp] theorem owl_inj {a b : String} : owl a = owl b ↔ a = b := by
  constructor
  · intro h
    exact (String.append_right_inj Namespace.owl).1 (Term.iri.inj h)
  · intro h
    rw [h]

theorem owl_ne_type (a : String) : owl a ≠ Vocabulary.type := by
  intro same
  have texts := congrArg (fun s => s.toList.take 20) (Term.iri.inj same)
  simp [Namespace.owl, Namespace.rdf] at texts

theorem lookup_owl (word other : String) (t : Term) (pairs : List (Term × Term)) :
    ((owl other, t) :: pairs).lookup (owl word) =
      if word = other then some t else pairs.lookup (owl word) := by
  by_cases h : word = other
  · rw [if_pos h, h]
    simp [List.lookup]
  · have apart : (owl word == owl other) = false :=
      beq_eq_false_iff_ne.2 fun same => h (owl_inj.1 same)
    rw [if_neg h, List.lookup, apart]

theorem lookup_type (word : String) (t : Term) (pairs : List (Term × Term)) :
    ((Vocabulary.type, t) :: pairs).lookup (owl word) = pairs.lookup (owl word) := by
  have apart : (owl word == Vocabulary.type) = false :=
    beq_eq_false_iff_ne.2 (owl_ne_type word)
  rw [List.lookup, apart]

open Expression (restrictionPairs countPairs)

variable {facts recur node} {refs : List Term} {cs : List Canonical} {ref p v : Term}
  {c : Canonical}

theorem ofNode_inter (h : description facts node = [(owl "intersectionOf", .list refs)])
    (hr : refs.mapM recur = some cs) : ofNode facts recur node = some (.inter cs) := by
  simp [ofNode, junction?, object?, h, items?, hr]

theorem ofNode_union (h : description facts node = [(owl "unionOf", .list refs)])
    (hr : refs.mapM recur = some cs) : ofNode facts recur node = some (.union cs) := by
  simp [ofNode, junction?, object?, h, items?, hr]

theorem ofNode_compl (h : description facts node = [(owl "complementOf", ref)])
    (hr : recur ref = some c) : ofNode facts recur node = some (.compl c) := by
  simp [ofNode, junction?, unary?, object?, h, hr]

/-- A node that is described neither as a junction nor as a complement is a restriction. -/
theorem ofNode_restriction
    (plain : ∀ word ∈ ["intersectionOf", "unionOf", "complementOf"],
      object? facts node word = none) :
    ofNode facts recur node = restriction? facts recur node := by
  simp only [List.forall_mem_cons] at plain
  simp [ofNode, junction?, unary?, plain]

theorem object?_restriction {pairs : List (Term × Term)}
    (h : description facts node = restrictionPairs p ++ pairs) (word : String) :
    object? facts node word = if word = "onProperty" then some p else pairs.lookup (owl word) := by
  rw [object?, h, restrictionPairs, List.cons_append, List.cons_append, List.nil_append,
    lookup_type, lookup_owl]

theorem ofNode_reflexive
    (h : description facts node = restrictionPairs p ++ [(owl "hasSelf", v)]) :
    ofNode facts recur node = some (.reflexive p) := by
  rw [ofNode_restriction (by simp [object?_restriction h])]
  simp [restriction?, object?_restriction h]

theorem ofNode_someOf
    (h : description facts node = restrictionPairs p ++ [(owl "someValuesFrom", ref)])
    (hr : recur ref = some c) : ofNode facts recur node = some (.someOf p c) := by
  rw [ofNode_restriction (by simp [object?_restriction h])]
  simp [restriction?, unary?, object?_restriction h, hr]

theorem ofNode_onlyOf
    (h : description facts node = restrictionPairs p ++ [(owl "allValuesFrom", ref)])
    (hr : recur ref = some c) : ofNode facts recur node = some (.onlyOf p c) := by
  rw [ofNode_restriction (by simp [object?_restriction h])]
  simp [restriction?, unary?, object?_restriction h, hr]

theorem ofNode_value (h : description facts node = restrictionPairs p ++ [(owl "hasValue", v)]) :
    ofNode facts recur node = some (.value p v) := by
  rw [ofNode_restriction (by simp [object?_restriction h])]
  simp [restriction?, unary?, object?_restriction h]

def countWords : List String :=
  ["minCardinality", "minQualifiedCardinality", "maxCardinality", "maxQualifiedCardinality",
    "cardinality", "qualifiedCardinality"]

theorem lookup_countPairs (quantifier : Quantifier) (qualified : Bool) (number : Option Int)
    (pairs : List (Term × Term)) {word : String} (hw : word ∉ countWords) :
    (countPairs quantifier qualified number ++ pairs).lookup (owl word) =
      pairs.lookup (owl word) := by
  simp only [countWords, List.mem_cons, List.not_mem_nil, or_false, not_or] at hw
  cases number with
  | none => rfl
  | some n =>
    cases quantifier <;> cases qualified <;>
      simp [countPairs, Expression.countPredicates, lookup_owl, hw]

theorem number?_countLiteral (n : Int) : number? (Expression.countLiteral n) = some n :=
  Int.toInt?_repr n

section Counts

variable {quantifier : Quantifier} {number : Option Int} {qualified : Bool}
  {last : List (Term × Term)}

/-- A restriction of number says nothing under words that belong to no number but what it says
last. -/
theorem object?_count
    (h : description facts node =
      restrictionPairs p ++ (countPairs quantifier qualified number ++ last))
    {word : String} (hw : word ∉ countWords) (ho : word ≠ "onProperty") :
    object? facts node word = last.lookup (owl word) := by
  rw [object?_restriction h, if_neg ho, lookup_countPairs quantifier qualified number last hw]

/-- The count is read under the words of its own kind and of no other. -/
theorem count?_eq (hq : quantifier.counts = true)
    (h : description facts node =
      restrictionPairs p ++ (countPairs quantifier qualified number ++ last))
    (hl : ∀ word ∈ countWords, last.lookup (owl word) = none) :
    count? facts node qualified = number.map fun n => (quantifier, n) := by
  simp only [countWords, List.forall_mem_cons] at hl
  cases number with
  | none =>
    cases qualified <;>
      simp [count?, object?_restriction h, countPairs, Expression.countPredicates, hl]
  | some n =>
    cases quantifier with
    | min | max | exactly =>
      cases qualified <;>
        simp [count?, object?_restriction h, countPairs, Expression.countPredicates, lookup_owl, hl,
          number?_countLiteral]
    | _ => simp [Quantifier.counts] at hq

/-- A restriction of number is no other restriction. -/
theorem ofNode_counting
    (h : description facts node =
      restrictionPairs p ++ (countPairs quantifier qualified number ++ last))
    (hl : ∀ word ∉ ["onClass", "onDataRange"], last.lookup (owl word) = none) :
    ofNode facts recur node = counting facts recur node p := by
  have absent (word : String) (hw : word ∉ countWords) (ho : word ≠ "onProperty")
      (hc : word ∉ ["onClass", "onDataRange"]) : object? facts node word = none := by
    rw [object?_count h hw ho]
    exact hl word hc
  have property : object? facts node "onProperty" = some p := by
    rw [object?_restriction h, if_pos rfl]
  rw [ofNode_restriction (by simp [absent, countWords])]
  simp [restriction?, unary?, property, absent, countWords]

theorem ofNode_count_any (hq : quantifier.counts = true)
    (h : description facts node = restrictionPairs p ++ countPairs quantifier false number) :
    ofNode facts recur node = some (.count p (number.map fun n => (quantifier, n)) .any) := by
  have full : description facts node =
      restrictionPairs p ++ (countPairs quantifier false number ++ []) := by
    rw [List.append_nil, h]
  have silent (word : String) : List.lookup (owl word) ([] : List (Term × Term)) = none := rfl
  rw [ofNode_counting full fun word _ => silent word, counting,
    count?_eq hq full fun word _ => silent word, object?_count full (by decide) (by decide),
    object?_count full (by decide) (by decide), silent, silent]

theorem ofNode_count_data (hq : quantifier.counts = true)
    (h : description facts node =
      restrictionPairs p ++ countPairs quantifier true number ++ [(owl "onDataRange", v)]) :
    ofNode facts recur node = some (.count p (number.map fun n => (quantifier, n)) (.data v)) := by
  rw [List.append_assoc] at h
  rw [ofNode_counting h (by simp +contextual), counting,
    count?_eq hq h (by simp [countWords]), object?_count h (by decide) (by decide), lookup_owl,
    if_pos rfl]

theorem ofNode_count_members (hq : quantifier.counts = true)
    (h : description facts node =
      restrictionPairs p ++ countPairs quantifier true number ++ [(owl "onClass", ref)])
    (hr : recur ref = some c) :
    ofNode facts recur node =
      some (.count p (number.map fun n => (quantifier, n)) (.members c)) := by
  rw [List.append_assoc] at h
  rw [ofNode_counting h (by simp +contextual), counting,
    count?_eq hq h (by simp [countWords]), object?_count h (by decide) (by decide), lookup_owl,
    object?_count h (by decide) (by decide), lookup_owl, if_pos rfl, if_neg (by decide)]
  simp [hr]

end Counts

theorem ofTerm_blankNode (facts : List Triple) (depth : Nat) (n : Int) :
    ofTerm facts (depth + 1) (blankNode n) = ofNode facts (ofTerm facts depth) (blankNode n) :=
  rfl

theorem ofTerm_resolve (facts : List Triple) (depth : Nat) (r : Resolver) (token : String) :
    ofTerm facts (depth + 1) (r.resolve token) = some (.term (r.resolve token)) := by
  unfold Resolver.resolve Resolver.termOf
  split <;> rfl

end Canonical

namespace Expression

open Canonical

variable (r : Resolver) (facts : List Triple)

theorem fault?_filler {property : String} {quantifier : Quantifier} {filler : Expression}
    {number : Option Int} (hv : quantifier ≠ .value)
    (h : fault? (restrict property quantifier (some filler) number false) = none) :
    fault? filler = none := by
  cases quantifier <;> simp_all [fault?]

/-- A restriction of number that can be lowered is no restriction to the thing itself. -/
theorem counts_of_fault? {property : String} {quantifier : Quantifier}
    {filler : Option Expression} {number : Option Int} (hq : IsCount quantifier)
    (h : fault? (restrict property quantifier filler number false) = none) :
    quantifier.counts = true := by
  cases hq with
  | self => cases filler <;> simp [fault?] at h
  | _ => rfl

theorem canonical_count {property : String} {quantifier : Quantifier}
    {filler : Option Expression} {number : Option Int} (hq : IsCount quantifier) :
    canonical r (restrict property quantifier filler number false) =
      .count (r.resolve property) (number.map fun n => (quantifier, n))
        (canonicalCounted r filler) := by
  cases hq <;> rfl

mutual

/-- What triples say of the nodes of an expression is enough to read it back, whatever they say of
other nodes. -/
theorem ofTerm_lower : (e : Expression) → (n : Int) → (depth : Nat) → fault? e = none →
    Describes facts n (lower r e n).next (lower r e n).triples →
    (lower r e n).triples.length < depth →
    ofTerm facts depth (lower r e n).ref = some (canonical r e)
  | _, _, 0, _, _, hd => absurd hd (Nat.not_lt_zero _)
  | name token, n, depth + 1, _, _, _ => ofTerm_resolve facts depth r token
  | raw text, n, depth + 1, hf, _, _ => by simp [fault?] at hf
  | inter operands, n, depth + 1, hf, h, hd => by
    rw [lower_inter] at h hd ⊢
    rw [length_around, List.length_singleton] at hd
    have items := mapM_ofTerm_lowerAll operands (n + 1) depth hf h.inner (by omega)
    exact ofNode_inter (h.node (numbered_lowerAll r operands (n + 1))) items
  | union operands, n, depth + 1, hf, h, hd => by
    rw [lower_union] at h hd ⊢
    rw [length_around, List.length_singleton] at hd
    have items := mapM_ofTerm_lowerAll operands (n + 1) depth hf h.inner (by omega)
    exact ofNode_union (h.node (numbered_lowerAll r operands (n + 1))) items
  | compl operand, n, depth + 1, hf, h, hd => by
    rw [lower_compl] at h hd ⊢
    rw [length_around, List.length_singleton] at hd
    have inner := ofTerm_lower operand (n + 1) depth hf h.inner (by omega)
    exact ofNode_compl (h.node (numbered_lower r operand (n + 1))) inner
  | restrict property quantifier filler number true, n, depth + 1, hf, h, hd => by
    rw [lower_reflexive] at h ⊢
    rw [ofTerm_blankNode, ofNode_reflexive h.own]
    cases quantifier <;> rfl
  | restrict property quantifier none number false, n, depth + 1, hf, h, hd => by
    rcases quantifier_kind quantifier with hq | rfl | hq
    · rw [lower_filler_none r property number n hq] at h hd ⊢
      obtain ⟨depth, rfl⟩ : ∃ d, depth = d + 1 := by
        simp only [length_statements, List.length_append, List.length_singleton] at hd
        exact ⟨depth - 1, by omega⟩
      have thing : ofTerm facts (depth + 1) (owl "Thing") = some (.term (owl "Thing")) := rfl
      rcases hq with rfl | rfl
      · exact ofNode_someOf h.own thing
      · exact ofNode_onlyOf h.own thing
    · rw [lower_value] at h ⊢
      exact ofNode_value h.own
    · rw [lower_count_none r property number n hq] at h ⊢
      rw [ofTerm_blankNode, ofNode_count_any (counts_of_fault? hq hf) h.own, canonical_count r hq]
      rfl
  | restrict property quantifier (some filler) number false, n, depth + 1, hf, h, hd => by
    have numbered := numbered_lower r filler (n + 1)
    rcases quantifier_kind quantifier with hq | rfl | hq
    · rw [lower_filler r property number n hq] at h hd ⊢
      rw [length_around, List.length_singleton] at hd
      have other : quantifier ≠ .value := by rcases hq with rfl | rfl <;> decide
      have inner := ofTerm_lower filler (n + 1) depth (fault?_filler other hf) h.inner (by omega)
      rcases hq with rfl | rfl
      · exact ofNode_someOf (h.node numbered) inner
      · exact ofNode_onlyOf (h.node numbered) inner
    · rw [lower_value] at h ⊢
      exact ofNode_value h.own
    · have counts := counts_of_fault? hq hf
      cases named : datatypeName? filler with
      | some token =>
        rw [lower_count_data r property number n hq named] at h ⊢
        rw [ofTerm_blankNode, ofNode_count_data counts h.own, canonical_count r hq]
        simp [canonicalCounted, named]
      | none =>
        rw [lower_count_class r property number n hq named] at h hd ⊢
        rw [length_around, List.length_singleton] at hd
        have inner := ofTerm_lower filler (n + 1) depth (fault?_filler (by rintro rfl; cases hq) hf)
          h.inner (by omega)
        rw [ofTerm_blankNode, ofNode_count_members counts (h.node numbered) inner,
          canonical_count r hq]
        simp [canonicalCounted, named]

theorem mapM_ofTerm_lowerAll : (es : List Expression) → (n : Int) → (depth : Nat) →
    faultIn? es = none → Describes facts n (lowerAll r es n).2.2 (lowerAll r es n).2.1 →
    (lowerAll r es n).2.1.length < depth →
    (lowerAll r es n).1.mapM (ofTerm facts depth) = some (canonicalAll r es)
  | [], n, depth, _, _, _ => rfl
  | e :: es, n, depth, hf, h, hd => by
    have first := numbered_lower r e n
    have others := numbered_lowerAll r es (lower r e n).next
    have hfe : fault? e = none := by
      cases he : fault? e with
      | none => rfl
      | some fault => simp [faultIn?, he] at hf
    have hfes : faultIn? es = none := by
      simpa [faultIn?, hfe] using hf
    have length : (lowerAll r (e :: es) n).2.1.length =
        (lower r e n).triples.length + (lowerAll r es (lower r e n).next).2.1.length :=
      List.length_append
    have head := ofTerm_lower e n depth hfe (h.left others) (by omega)
    have tail := mapM_ofTerm_lowerAll es (lower r e n).next depth hfes (h.right first) (by omega)
    change ((lower r e n).ref :: (lowerAll r es (lower r e n).next).1).mapM (ofTerm facts depth) = _
    rw [List.mapM_cons, head, tail]
    rfl

end

theorem decode_lower {e : Expression} (n : Int) (h : fault? e = none) :
    decode (lower r e n).ref (lower r e n).triples = some (canonical r e) :=
  ofTerm_lower r _ e n _ h (fun _ _ _ => rfl) (Nat.lt_succ_self _)

/-- Lowering loses nothing but the spelling of names: a text that is read always has triples, the
expression with its names resolved is read back from them, and so two texts with the same triples,
under whatever resolvers and first numbers, are the same expression. -/
theorem decode_lowerText (r : Resolver) (s : String) (n : Int) :
    fault? (parse s) = none ∧
      decode (lowerText r s n).ref (lowerText r s n).triples = some (canonical r (parse s)) ∧
      ∀ (r' : Resolver) (s' : String) (n' : Int),
        (lowerText r s n).ref = (lowerText r' s' n').ref →
        (lowerText r s n).triples = (lowerText r' s' n').triples →
        canonical r (parse s) = canonical r' (parse s') := by
  have read (r : Resolver) (s : String) (n : Int) :
      decode (lowerText r s n).ref (lowerText r s n).triples = some (canonical r (parse s)) :=
    decode_lower r n (fault?_parse s)
  refine ⟨fault?_parse s, read r s n, ?_⟩
  intro r' s' n' href htriples
  have same : some (canonical r (parse s)) = some (canonical r' (parse s')) := by
    rw [← read r s n, ← read r' s' n', href, htriples]
  exact Option.some.inj same

theorem parse_someSelf : parse "p some Self" = restrict "p" .some none none true := by
  have words : tokens "p some Self" = ["p", "some", "Self"] := by cbv
  have whole : stripOuter (balance ["p", "some", "Self"]) = ["p", "some", "Self"] := by cbv
  have shape : shapeOf ["p", "some", "Self"] = .restrict "p" .some ["Self"] := rfl
  rw [parse, words, parseTokens_restrict (whole ▸ shape), restriction, if_pos (by decide +kernel)]

theorem parse_self : parse "p self" = restrict "p" .self none none true := by
  have words : tokens "p self" = ["p", "self"] := by cbv
  have whole : stripOuter (balance ["p", "self"]) = ["p", "self"] := by cbv
  have shape : shapeOf ["p", "self"] = .restrict "p" .self [] := rfl
  rw [parse, words, parseTokens_restrict (whole ▸ shape), restriction, if_pos (by decide +kernel)]

/-- Two spellings of a reflexive restriction have the same triples. -/
theorem canonical_someSelf :
    canonical .default (parse "p some Self") = canonical .default (parse "p self") := by
  apply (decode_lowerText .default "p some Self" 0).2.2 .default "p self" 0
  · rw [lowerText, lowerText, parse_someSelf, parse_self, lower_reflexive, lower_reflexive]
  · rw [lowerText, lowerText, parse_someSelf, parse_self, lower_reflexive, lower_reflexive]

end Expression

end Ontogram
