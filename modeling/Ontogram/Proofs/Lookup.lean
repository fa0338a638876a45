import Ontogram.Encoding
import Ontogram.Proofs.LoweringFault

set_option autoImplicit false

namespace Ontogram

open Vocabulary (owl rdfs)

/-- What is looked up in vain. -/
inductive LookupFault where
  /-- The way in which axioms of a kind are encoded. -/
  | handler (kind : AxiomKind)
  /-- The first word of a text without words. -/
  | firstWord
  /-- The class that declares entities of a kind. -/
  | declaration (kind : EntityKind)
  /-- The name of a term that has none. -/
  | name (t : Term)
  /-- The triples of an expression that has none. -/
  | expression (fault : Expression.Fault)

namespace Encoding

def found {α : Type} (fault : LookupFault) : Option α → Except LookupFault α
  | some a => .ok a
  | none => .error fault

/-- The text by which a term is spoken of, if it is an IRI or a literal. -/
def tryName : Term → Except LookupFault String
  | .iri value => .ok value
  | .literal l => .ok l.value
  | t => .error (.name t)

def tryExpression (r : Resolver) (expression : String) (n : Int) : Except LookupFault Lowered :=
  (Expression.tryLower r (Expression.parse expression) n).mapError .expression

/-- The contributions of several parts, one after the other. -/
def tryEach {α : Type} (f : α → Int → Except LookupFault Emission) :
    List α → Int → Except LookupFault Emission
  | [], n => .ok (.ofTriples [] n)
  | x :: xs, n => do
    let first ← f x n
    let more ← tryEach f xs first.next
    return first.andThen fun _ => more

/-- A way to encode the axioms of a kind on an entity with some subject, from their value. -/
abbrev Handler : Type :=
  Resolver → Entity → Term → String → Int → Except LookupFault Emission

/-- A triple from the subject to an expression. -/
def linkBy (predicate : Entity → Term) : Handler := fun r e subject expression n => do
  let lowered ← tryExpression r expression n
  return .ofTriples (⟨subject, predicate e, lowered.ref⟩ :: lowered.triples) lowered.next

/-- A triple from an expression to the subject. -/
def backLinkBy (predicate : Term) : Handler := fun r _ subject expression n => do
  let lowered ← tryExpression r expression n
  return .ofTriples (⟨lowered.ref, predicate, subject⟩ :: lowered.triples) lowered.next

def listBy (name : String) : Handler := fun r _ subject expression n =>
  .ok (emitList r subject name expression n)

def rangeBy : Handler := fun r e subject expression n =>
  if e.kind = .dataProperty && (Text.words expression).length == 1 then
    .ok (.ofTriples [⟨subject, rdfs "range", r.resolveDatatype expression⟩] n)
  else linkBy (fun _ => rdfs "range") r e subject expression n

/-- One of two predicates: the first on properties. -/
def either (onProperty onClass : Term) (e : Entity) : Term :=
  if e.isProperty then onProperty else onClass

/-- How axioms are encoded, by kind. -/
def handlers : List (AxiomKind × Handler) :=
  [(.subClassOf, linkBy (either (rdfs "subPropertyOf") Vocabulary.subClassOf)),
    (.superClassOf, backLinkBy Vocabulary.subClassOf),
    (.disjointWith, linkBy (either (owl "propertyDisjointWith") Vocabulary.disjointWith)),
    (.equivalentTo, linkBy (either (owl "equivalentProperty") (owl "equivalentClass"))),
    (.unionOf, listBy "unionOf"), (.intersectionOf, listBy "intersectionOf"),
    (.oneOf, listBy "oneOf"), (.disjointUnionOf, listBy "disjointUnionOf"),
    (.hasKey, listBy "hasKey"), (.propertyChain, listBy "propertyChainAxiom"),
    (.complementOf, linkBy fun _ => owl "complementOf"), (.sameAs, linkBy fun _ => owl "sameAs"),
    (.differentFrom, linkBy fun _ => owl "differentFrom"),
    (.types, linkBy fun _ => Vocabulary.type),
    (.subPropertyOf, linkBy fun _ => rdfs "subPropertyOf"),
    (.inverseOf, linkBy fun _ => owl "inverseOf"), (.domain, linkBy fun _ => rdfs "domain"),
    (.range, rangeBy)]

/-- The contribution of an axiom that is named after a property. -/
def tryRestriction (r : Resolver) (e : Entity) (subject : Term) (a : Axiom) (n : Int) :
    Except LookupFault Emission := do
  if e.isProperty then return .ofWarning (.unknownPropertyAxiom a.name (← tryName subject)) n
  let property := Text.underscored a.name
  if property = "" then return .ofWarning (.namelessAxiom (← tryName subject)) n
  let word ← found .firstWord (Text.words a.expression).head?
  let text :=
    match quantifierOf? word with
    | some q => String.intercalate " " (property :: q.word :: (Text.words a.expression).tail)
    | none => property ++ " some " ++ Text.strip a.expression
  linkBy (fun _ => Vocabulary.subClassOf) r e subject text n

def tryAxiom (r : Resolver) (e : Entity) (subject : Term) (a : Axiom) (n : Int) :
    Except LookupFault Emission := do
  let kind := AxiomKind.ofName a.name
  let name ← tryName subject
  if Text.strip a.expression = "" then return .ofTriples [] n
  if kind.isPropertyOnly && !e.isProperty then
    return .ofWarning (.propertyAxiomElsewhere a.name name) n
  if kind.isClassOnly && e.isProperty then
    return .ofWarning (.classAxiomOnProperty a.name name) n
  if kind = .implicitRestriction then tryRestriction r e subject a n
  else
    let handler ← found (.handler kind) (handlers.lookup kind)
    handler r e subject a.expression n

def declarationClasses : List (EntityKind × Term) :=
  [(.concept, owl "Class"), (.individual, owl "NamedIndividual"),
    (.objectProperty, owl "ObjectProperty"), (.dataProperty, owl "DatatypeProperty"),
    (.datatype, rdfs "Datatype")]

def tryEntity (r : Resolver) (language : String) (e : Entity) (n : Int) :
    Except LookupFault Emission := do
  let subject := subjectOf r e
  let declared ← found (.declaration e.kind) (declarationClasses.lookup e.kind)
  let opening := ⟨subject, Vocabulary.type, declared⟩ :: (declaration subject language e).tail
  let front := (((Emission.ofTriples opening n).andThen
      (Emission.each (annotate r subject) e.annotations)).andThen
      (Emission.each (emitAttribute r subject) e.attributes)).andThen
      (Emission.each (emitCharacteristic subject) e.characteristics)
  let axioms ← tryEach (tryAxiom r e subject) e.axioms front.next
  return front.andThen fun _ => axioms

/-- The triples and warnings of a relation, and the names of the predicates that are declared
after it. -/
def tryRelation (c : Canvas) (declared : List String) (e : Relation) :
    Except LookupFault (List Triple × List Warning × List String) := do
  if e.inferred && !c.inferred then return ([], [], declared)
  match c.byId.get? e.source, c.byId.get? e.target with
  | some source, some target =>
    let subject := subjectOf c.resolver source
    let object := subjectOf c.resolver target
    match Vocabulary.structural? e.label with
    | some predicate => return ([⟨subject, predicate, object⟩], [], declared)
    | none =>
      match c.predicate? e.label with
      | none => return ([], [.literalRelation e.label], declared)
      | some predicate =>
        let name ← tryName predicate
        if name ∈ declared then return ([⟨subject, predicate, object⟩], [], declared)
        let kind := if target.kind = .datatype then "DatatypeProperty" else "ObjectProperty"
        return ([⟨predicate, Vocabulary.type, owl kind⟩, ⟨subject, predicate, object⟩], [],
          name :: declared)
  | _, _ => return ([], [.danglingRelation e.label e.source e.target], declared)

/-- The triples and warnings of relations, one after the other. -/
def tryRelations (c : Canvas) (declared : List String) :
    List Relation → Except LookupFault (List Triple × List Warning)
  | [] => .ok ([], [])
  | e :: es => do
    let (triples, warnings, declared) ← tryRelation c declared e
    let (more, moreWarnings) ← tryRelations c declared es
    return (triples ++ more, warnings ++ moreWarnings)

/-- The contributions of a whole diagram. -/
def tryEmit (r : Resolver) (language : String) (inferred : Bool) (entities : List Entity)
    (relations : List Relation) (metadata : Option Metadata) : Except LookupFault Emission := do
  let header :=
    match metadata with
    | some m => emitHeader r language m 0
    | none => .ofTriples [] 0
  let described ← tryEach (tryEntity r language) entities header.next
  let declared ← (entities.filter Entity.isProperty).mapM fun e => tryName (subjectOf r e)
  let (triples, warnings) ← tryRelations (Canvas.of r inferred entities) declared relations
  return (header.andThen fun _ => described).andThen fun n => ⟨triples, warnings, n⟩

/-- Encodes entities and relations. -/
def tryBuild (d : Naming) (entities : List Entity) (relations : List Relation)
    (metadata : Option Metadata) : Except LookupFault Encoding := do
  let d := (metadata.map d.withMetadata).getD d
  let emission ← tryEmit d.resolver d.language d.inferred entities relations metadata
  return {
    triples := firsts emission.triples
    prefixes := d.resolver.prefixes
    nodes := emission.next
    warnings := emission.warnings }

/-- What a token resolves to has a name. -/
theorem tryName_termOf (r : Resolver) (cs : List Char) :
    tryName (r.termOf cs) = .ok (nameOf (r.termOf cs)) := by
  unfold Resolver.termOf
  split <;> rfl

theorem tryName_subjectOf (r : Resolver) (e : Entity) :
    tryName (subjectOf r e) = .ok (nameOf (subjectOf r e)) := by
  unfold subjectOf
  split
  · exact tryName_termOf r _
  · exact tryName_termOf r _

theorem tryName_predicate? {c : Canvas} {label : String} {predicate : Term}
    (h : c.predicate? label = some predicate) :
    tryName predicate = .ok (nameOf predicate) := by
  unfold Canvas.predicate? at h
  split at h
  · obtain rfl := Option.some.inj h
    exact tryName_subjectOf c.resolver _
  · split at h
    · obtain rfl := Option.some.inj h
      rfl
    · cases h

theorem tryExpression_eq (r : Resolver) (expression : String) (n : Int) :
    tryExpression r expression n = .ok (Expression.lowerText r expression n) := by
  rw [tryExpression, Expression.tryLower_parse]
  rfl

theorem tryEach_eq {α : Type} {tried : α → Int → Except LookupFault Emission}
    {f : α → Int → Emission} (each : ∀ x n, tried x n = .ok (f x n)) (xs : List α) (n : Int) :
    tryEach tried xs n = .ok (Emission.each f xs n) := by
  induction xs generalizing n with
  | nil => rfl
  | cons x xs ih =>
    simp only [tryEach, each, bind, Except.bind, ih]
    rfl

theorem linkBy_eq (predicate : Entity → Term) (r : Resolver) (e : Entity) (subject : Term)
    (expression : String) (n : Int) :
    linkBy predicate r e subject expression n =
      .ok (emitLink r subject (predicate e) expression n) := by
  rw [linkBy, tryExpression_eq]
  rfl

theorem backLinkBy_eq (predicate : Term) (r : Resolver) (e : Entity) (subject : Term)
    (expression : String) (n : Int) :
    backLinkBy predicate r e subject expression n =
      .ok (emitBackLink r subject predicate expression n) := by
  rw [backLinkBy, tryExpression_eq]
  rfl

theorem rangeBy_eq (r : Resolver) (e : Entity) (subject : Term) (expression : String) (n : Int) :
    rangeBy r e subject expression n = .ok (emitRange r e subject expression n) := by
  unfold rangeBy emitRange
  split
  · rfl
  · exact linkBy_eq _ r e subject expression n

/-- Every kind of axiom but the last has its way to be encoded. -/
theorem handlers_lookup (r : Resolver) (e : Entity) (subject : Term) (a : Axiom) (n : Int)
    (kind : AxiomKind.ofName a.name ≠ .implicitRestriction) :
    ∃ handler, handlers.lookup (AxiomKind.ofName a.name) = some handler ∧
      handler r e subject a.expression n = .ok (emitKind r e subject a n) := by
  unfold emitKind
  cases known : AxiomKind.ofName a.name
  case implicitRestriction => exact absurd known kind
  case superClassOf => exact ⟨_, rfl, backLinkBy_eq _ r e subject a.expression n⟩
  case range => exact ⟨_, rfl, rangeBy_eq r e subject a.expression n⟩
  case unionOf | intersectionOf | oneOf | disjointUnionOf | hasKey | propertyChain =>
    exact ⟨_, rfl, rfl⟩
  all_goals exact ⟨_, rfl, linkBy_eq _ r e subject a.expression n⟩

/-- The value of an axiom that is not blank has a first word. -/
theorem tryRestriction_eq (r : Resolver) (e : Entity) (subject : Term) (a : Axiom) (n : Int)
    (named : tryName subject = .ok (nameOf subject)) (value : Text.strip a.expression ≠ "") :
    tryRestriction r e subject a n = .ok (emitRestriction r e subject a n) := by
  unfold tryRestriction emitRestriction
  by_cases property : e.isProperty
  · simp only [property, if_true, named]
    rfl
  by_cases nameless : Text.underscored a.name = ""
  · simp only [property, nameless, if_true, named]
    rfl
  obtain ⟨word, words, cut⟩ : ∃ word words, Text.words a.expression = word :: words :=
    List.exists_cons_of_ne_nil fun empty => value (Text.strip_eq_empty empty)
  cases quantified : quantifierOf? word <;>
    simp only [property, Bool.false_eq_true, nameless, if_false, cut, restrictionText,
      List.head?_cons, List.tail_cons, found, bind, Except.bind, quantified, linkBy_eq]

theorem tryAxiom_eq (r : Resolver) (e : Entity) (subject : Term)
    (named : tryName subject = .ok (nameOf subject)) (a : Axiom) (n : Int) :
    tryAxiom r e subject a n = .ok (emitAxiom r e subject a n) := by
  unfold tryAxiom emitAxiom
  by_cases blank : Text.strip a.expression = ""
  · simp only [named, blank, if_true]
    rfl
  by_cases elsewhere : ((AxiomKind.ofName a.name).isPropertyOnly && !e.isProperty) = true
  · simp only [named, blank, elsewhere, if_true, if_false]
    rfl
  by_cases onProperty : ((AxiomKind.ofName a.name).isClassOnly && e.isProperty) = true
  · simp only [named, blank, elsewhere, onProperty, if_true, if_false]
    rfl
  simp only [named, blank, elsewhere, onProperty, if_false]
  by_cases kind : AxiomKind.ofName a.name = .implicitRestriction
  · simp only [kind, if_true, emitKind]
    exact tryRestriction_eq r e subject a n named blank
  · obtain ⟨handler, known, encoded⟩ := handlers_lookup r e subject a n kind
    simp only [kind, if_false, known]
    exact encoded

theorem declarationClasses_lookup (kind : EntityKind) :
    declarationClasses.lookup kind = some (declarationClass kind) := by
  cases kind <;> rfl

theorem tryEntity_eq (r : Resolver) (language : String) (e : Entity) (n : Int) :
    tryEntity r language e n = .ok (emitEntity r language e n) := by
  have axioms := tryEach_eq (tryAxiom_eq r e (subjectOf r e) (tryName_subjectOf r e))
  simp only [tryEntity, declarationClasses_lookup, found, axioms]
  rfl

theorem tryRelation_eq (c : Canvas) (declared : List String) (e : Relation) :
    tryRelation c declared e = .ok (c.relation declared e) := by
  unfold tryRelation Canvas.relation
  by_cases skipped : (e.inferred && !c.inferred) = true
  · simp only [skipped, if_true]
    rfl
  simp only [skipped, Bool.false_eq_true, if_false]
  cases c.byId.get? e.source with
  | none => rfl
  | some source =>
    cases c.byId.get? e.target with
    | none => rfl
    | some target =>
      cases Vocabulary.structural? e.label with
      | some predicate => rfl
      | none =>
        cases known : c.predicate? e.label with
        | none => rfl
        | some predicate =>
          simp only [tryName_predicate? known]
          by_cases mem : nameOf predicate ∈ declared
          · simp only [mem, if_true, bind, Except.bind]
            rfl
          · simp only [mem, if_false, bind, Except.bind]
            rfl

theorem tryRelations_eq (c : Canvas) (declared : List String) (es : List Relation) :
    tryRelations c declared es = .ok (c.relations declared es) := by
  induction es generalizing declared with
  | nil => rfl
  | cons e es ih =>
    simp only [tryRelations, tryRelation_eq, bind, Except.bind, ih]
    rfl

theorem tryEmit_eq (r : Resolver) (language : String) (inferred : Bool) (entities : List Entity)
    (relations : List Relation) (metadata : Option Metadata) :
    tryEmit r language inferred entities relations metadata =
      .ok (emit r language inferred entities relations metadata) := by
  have names : (entities.filter Entity.isProperty).mapM (fun e => tryName (subjectOf r e)) =
      .ok ((entities.filter Entity.isProperty).map fun e => nameOf (subjectOf r e)) := by
    simp only [tryName_subjectOf]
    exact List.mapM_pure
  simp only [tryEmit, tryEach_eq (tryEntity_eq r language), names, tryRelations_eq, bind,
    Except.bind]
  rfl

/-- No look-up of an encoding is in vain. -/
theorem tryBuild_eq (d : Naming) (entities : List Entity) (relations : List Relation)
    (metadata : Option Metadata) :
    tryBuild d entities relations metadata = .ok (build d entities relations metadata) := by
  simp only [tryBuild, tryEmit_eq]
  rfl

end Encoding

end Ontogram
