import Ontogram.Diagram
import Ontogram.Encoding.AxiomKind
import Ontogram.Encoding.Emission
import Ontogram.Expression.Lower
import Ontogram.Firsts

/-!
The encoding of a drawn ontology in triples: a header, then each entity with its declaration,
annotations, attributes or characteristics and axioms, then the relations. No triple is listed
twice. What cannot be used is left out with a warning.
-/

set_option autoImplicit false

namespace Ontogram

open Vocabulary (owl rdfs skos)

/-- The naming defaults in force. -/
structure Naming where
  base : String := Namespace.defaultBase
  baseName : String := Namespace.defaultName
  /-- The language of descriptions; none when empty. -/
  language : String := "en"
  /-- Whether inferred relations are encoded. -/
  inferred : Bool := false
  namespaces : List (String × String) := []

/-- A drawn ontology in triples. -/
structure Encoding where
  triples : List Triple
  prefixes : Table String
  /-- The number of anonymous nodes. -/
  nodes : Int
  warnings : List Warning

namespace Naming

/-- The defaults with what an ontology settles itself. -/
def withMetadata (d : Naming) (m : Metadata) : Naming :=
  { base := Text.orElse m.baseIri d.base
    baseName := Text.orElse m.defaultPrefix d.baseName
    language := Text.orElse m.language d.language
    inferred := d.inferred
    namespaces := ((Table.ofList d.namespaces).insertAll m.namespaces.entries).entries }

def resolver (d : Naming) : Resolver :=
  Resolver.create d.base d.baseName d.namespaces

end Naming

namespace Encoding

def textLiteral (value : String) (language : Option String) : Term :=
  .literal ⟨value, language.bind Text.nonEmpty, none⟩

def isIri : Term → Bool
  | .iri _ => true
  | _ => false

/-- The text by which a term is spoken of: an IRI, or the value of a literal. -/
def nameOf : Term → String
  | .iri value => value
  | .literal l => l.value
  | t => t.display

/-- The term that an entity is about: its IRI or else its label, and in the place of a quoted text
what that text resolves to. -/
def subjectOf (r : Resolver) (e : Entity) : Term :=
  match r.resolve (Text.orElse e.iri e.label) with
  | .literal l => r.resolve l.value
  | t => t

/-- The object of an annotation: an IRI, a literal in quotes, or the value as plain text. -/
def annotationObject (r : Resolver) (a : Annotation) : Term :=
  let cs := Text.stripBoth Text.isBlank a.value.toList
  if Resolver.isBracketed cs || Resolver.isAbsolute cs then r.termOf cs
  else if cs.head? = some '"' then .literal (r.literalOf cs)
  else textLiteral a.value a.language

def annotate (r : Resolver) (subject : Term) (a : Annotation) (n : Int) : Emission :=
  match r.resolve a.property with
  | .iri property => .ofTriples [⟨subject, .iri property, annotationObject r a⟩] n
  | _ => .ofWarning (.annotationProperty a.property) n

/-- The contribution of an attribute of a class: a data property with the class as its domain. -/
def emitAttribute (r : Resolver) (owner : Term) (a : Attribute) (n : Int) : Emission :=
  if Text.strip a.name = "" then .ofTriples [] n
  else
    let property := r.resolve a.name
    .ofTriples
      ([⟨property, Vocabulary.type, owl "DatatypeProperty"⟩,
        ⟨property, Vocabulary.label, textLiteral a.name none⟩,
        ⟨property, rdfs "domain", owner⟩] ++
        if Text.strip a.type = "" then []
        else [⟨property, rdfs "range", r.resolveDatatype a.type⟩]) n

def characteristicClasses : List (String × String) :=
  [("functional", "FunctionalProperty"), ("inversefunctional", "InverseFunctionalProperty"),
    ("transitive", "TransitiveProperty"), ("symmetric", "SymmetricProperty"),
    ("asymmetric", "AsymmetricProperty"), ("reflexive", "ReflexiveProperty"),
    ("irreflexive", "IrreflexiveProperty")]

/-- The class that a characteristic names, in lower case and with or without `property` at its
end. -/
def characteristicClass? (joined : String) : Option String :=
  let key := (Text.lower joined).toList
  let ending := "property".toList
  let key := if ending.isSuffixOf key then key.take (key.length - ending.length) else key
  characteristicClasses.lookup (String.ofList key)

def emitCharacteristic (subject : Term) (a : Attribute) (n : Int) : Emission :=
  let joined := String.join (Text.words a.name)
  match characteristicClass? joined with
  | some name => .ofTriples [⟨subject, Vocabulary.type, owl name⟩] n
  | none =>
    let name := joined ++ "Property"
    ⟨[⟨subject, Vocabulary.type, owl name⟩], [.unknownCharacteristic a.name name], n⟩

/-- A triple from the subject to a class expression, then the triples of the expression. -/
def emitLink (r : Resolver) (subject predicate : Term) (expression : String) (n : Int) : Emission :=
  let lowered := Expression.lowerText r expression n
  .ofTriples (⟨subject, predicate, lowered.ref⟩ :: lowered.triples) lowered.next

/-- A triple from a class expression to the subject, then the triples of the expression. -/
def emitBackLink (r : Resolver) (subject predicate : Term) (expression : String) (n : Int) :
    Emission :=
  let lowered := Expression.lowerText r expression n
  .ofTriples (⟨lowered.ref, predicate, subject⟩ :: lowered.triples) lowered.next

/-- A triple from the subject to a list of names. -/
def emitList (r : Resolver) (subject : Term) (name expression : String) (n : Int) : Emission :=
  .ofTriples [⟨subject, owl name, Expression.listOf r expression⟩] n

def quantifierAliases : List (String × String) :=
  [("all", "only"), ("hasvalue", "value"), ("cardinality", "exactly")]

def quantifierOf? (word : String) : Option Quantifier :=
  let key := Text.lower word
  Quantifier.ofWord? ((quantifierAliases.lookup key).getD key)

/-- The restriction that an axiom named after a property writes. A value that starts with no
quantifier is what some things are related to. -/
def restrictionText (property expression : String) : String :=
  let existential := property ++ " some " ++ Text.strip expression
  match Text.words expression with
  | [] => existential
  | w :: ws =>
    match quantifierOf? w with
    | some q => String.intercalate " " (property :: q.word :: ws)
    | none => existential

/-- The contribution of an axiom that is named after a property. -/
def emitRestriction (r : Resolver) (e : Entity) (subject : Term) (a : Axiom) (n : Int) :
    Emission :=
  if e.isProperty then .ofWarning (.unknownPropertyAxiom a.name (nameOf subject)) n
  else
    let property := Text.underscored a.name
    if property = "" then .ofWarning (.namelessAxiom (nameOf subject)) n
    else emitLink r subject Vocabulary.subClassOf (restrictionText property a.expression) n

/-- The contribution of the range of a property: one word on a data property names a datatype. -/
def emitRange (r : Resolver) (e : Entity) (subject : Term) (expression : String) (n : Int) :
    Emission :=
  if e.kind = .dataProperty && (Text.words expression).length == 1 then
    .ofTriples [⟨subject, rdfs "range", r.resolveDatatype expression⟩] n
  else emitLink r subject (rdfs "range") expression n

/-- The contribution of an axiom of a kind that fits its entity. -/
def emitKind (r : Resolver) (e : Entity) (subject : Term) (a : Axiom) (n : Int) : Emission :=
  let link (predicate : Term) : Emission := emitLink r subject predicate a.expression n
  let names (name : String) : Emission := emitList r subject name a.expression n
  let either (onProperty onClass : Term) : Emission :=
    link (if e.isProperty then onProperty else onClass)
  match AxiomKind.ofName a.name with
  | .subClassOf => either (rdfs "subPropertyOf") Vocabulary.subClassOf
  | .superClassOf => emitBackLink r subject Vocabulary.subClassOf a.expression n
  | .disjointWith => either (owl "propertyDisjointWith") Vocabulary.disjointWith
  | .equivalentTo => either (owl "equivalentProperty") (owl "equivalentClass")
  | .unionOf => names "unionOf"
  | .intersectionOf => names "intersectionOf"
  | .oneOf => names "oneOf"
  | .disjointUnionOf => names "disjointUnionOf"
  | .hasKey => names "hasKey"
  | .propertyChain => names "propertyChainAxiom"
  | .complementOf => link (owl "complementOf")
  | .sameAs => link (owl "sameAs")
  | .differentFrom => link (owl "differentFrom")
  | .types => link Vocabulary.type
  | .subPropertyOf => link (rdfs "subPropertyOf")
  | .inverseOf => link (owl "inverseOf")
  | .domain => link (rdfs "domain")
  | .range => emitRange r e subject a.expression n
  | .implicitRestriction => emitRestriction r e subject a n

def emitAxiom (r : Resolver) (e : Entity) (subject : Term) (a : Axiom) (n : Int) : Emission :=
  let kind := AxiomKind.ofName a.name
  if Text.strip a.expression = "" then .ofTriples [] n
  else if kind.isPropertyOnly && !e.isProperty then
    .ofWarning (.propertyAxiomElsewhere a.name (nameOf subject)) n
  else if kind.isClassOnly && e.isProperty then
    .ofWarning (.classAxiomOnProperty a.name (nameOf subject)) n
  else emitKind r e subject a n

def declarationClass : EntityKind → Term
  | .concept => owl "Class"
  | .individual => owl "NamedIndividual"
  | .objectProperty => owl "ObjectProperty"
  | .dataProperty => owl "DatatypeProperty"
  | .datatype => rdfs "Datatype"

/-- The declaration, label and description of an entity. -/
def declaration (subject : Term) (language : String) (e : Entity) : List Triple :=
  [⟨subject, Vocabulary.type, declarationClass e.kind⟩] ++
    (if e.label = "" then [] else [⟨subject, Vocabulary.label, textLiteral e.label none⟩]) ++
    match e.description.bind Text.nonEmpty with
    | some text => [⟨subject, skos "definition", textLiteral text (some language)⟩]
    | none => []

def emitEntity (r : Resolver) (language : String) (e : Entity) (n : Int) : Emission :=
  let subject := subjectOf r e
  (((Emission.ofTriples (declaration subject language e) n).andThen
      (Emission.each (annotate r subject) e.annotations)).andThen
      (Emission.each (emitAttribute r subject) e.attributes)).andThen
      (Emission.each (emitCharacteristic subject) e.characteristics) |>.andThen
      (Emission.each (emitAxiom r e subject) e.axioms)

/-- The contribution of the settings of an ontology. -/
def emitHeader (r : Resolver) (language : String) (m : Metadata) (n : Int) : Emission :=
  let bare := Text.stripRight (fun c => c == '#' || c == '/') r.base.toList
  let ontology : Term := .iri (Text.orElse m.ontologyIri (String.ofList bare))
  let version : List Triple :=
    match m.versionIri.bind Text.nonEmpty with
    | some iri => [⟨ontology, owl "versionIRI", .iri iri⟩]
    | none => []
  let comment : List Triple :=
    match m.description.bind Text.nonEmpty with
    | some text => [⟨ontology, rdfs "comment", textLiteral text (some language)⟩]
    | none => []
  let opening := ⟨ontology, Vocabulary.type, owl "Ontology"⟩ :: version ++ comment
  (Emission.ofTriples opening n).andThen (Emission.each (annotate r ontology) m.annotations)

/-- What the relations of a diagram are read against. -/
structure Canvas where
  resolver : Resolver
  inferred : Bool
  byId : Table Entity
  /-- The properties by their labels; of several with one label the last counts. -/
  properties : Table Entity

/-- The canvas of a list of entities. -/
def Canvas.of (r : Resolver) (inferred : Bool) (entities : List Entity) : Canvas :=
  { resolver := r
    inferred
    byId := Entity.byId entities
    properties := Table.ofList
      ((entities.filter fun e => e.isProperty && e.label ≠ "").map fun e => (e.label, e)) }

/-- The predicate of a relation that is not structural: the property of its label, or what the
label resolves to if that is an IRI. -/
def Canvas.predicate? (c : Canvas) (label : String) : Option Term :=
  match c.properties.get? label with
  | some property => some (subjectOf c.resolver property)
  | none =>
    match c.resolver.resolve label with
    | .iri value => some (.iri value)
    | _ => none

/-- The triples and warnings of a relation, and the names of the predicates that are declared
after it. -/
def Canvas.relation (c : Canvas) (declared : List String) (e : Relation) :
    List Triple × List Warning × List String :=
  if e.inferred && !c.inferred then ([], [], declared)
  else
    match c.byId.get? e.source, c.byId.get? e.target with
    | some source, some target =>
      let subject := subjectOf c.resolver source
      let object := subjectOf c.resolver target
      match Vocabulary.structural? e.label with
      | some predicate => ([⟨subject, predicate, object⟩], [], declared)
      | none =>
        match c.predicate? e.label with
        | none => ([], [.literalRelation e.label], declared)
        | some predicate =>
          if nameOf predicate ∈ declared then ([⟨subject, predicate, object⟩], [], declared)
          else
            let kind := if target.kind = .datatype then "DatatypeProperty" else "ObjectProperty"
            ([⟨predicate, Vocabulary.type, owl kind⟩, ⟨subject, predicate, object⟩], [],
              nameOf predicate :: declared)
    | _, _ => ([], [.danglingRelation e.label e.source e.target], declared)

/-- The triples and warnings of relations, one after the other. -/
def Canvas.relations (c : Canvas) (declared : List String) :
    List Relation → List Triple × List Warning
  | [] => ([], [])
  | e :: es =>
    let (triples, warnings, declared) := c.relation declared e
    let (more, moreWarnings) := c.relations declared es
    (triples ++ more, warnings ++ moreWarnings)

/-- The contribution of all relations. Properties on the canvas count as declared. -/
def emitRelations (r : Resolver) (inferred : Bool) (entities : List Entity)
    (relations : List Relation) (n : Int) : Emission :=
  let declared := (entities.filter Entity.isProperty).map fun e => nameOf (subjectOf r e)
  let (triples, warnings) := (Canvas.of r inferred entities).relations declared relations
  ⟨triples, warnings, n⟩

/-- The contributions of a whole diagram; without settings there is no header. -/
def emit (r : Resolver) (language : String) (inferred : Bool) (entities : List Entity)
    (relations : List Relation) (metadata : Option Metadata) : Emission :=
  let header :=
    match metadata with
    | some m => emitHeader r language m 0
    | none => .ofTriples [] 0
  (header.andThen (Emission.each (emitEntity r language) entities)).andThen
    (emitRelations r inferred entities relations)

/-- Encodes entities and relations whose names a resolver reads. -/
def withResolver (r : Resolver) (language : String) (inferred : Bool) (entities : List Entity)
    (relations : List Relation) (metadata : Option Metadata) : Encoding :=
  let emission := emit r language inferred entities relations metadata
  { triples := firsts emission.triples
    prefixes := r.prefixes
    nodes := emission.next
    warnings := emission.warnings }

/-- Encodes entities and relations. -/
def build (d : Naming) (entities : List Entity) (relations : List Relation)
    (metadata : Option Metadata) : Encoding :=
  let d := (metadata.map d.withMetadata).getD d
  withResolver d.resolver d.language d.inferred entities relations metadata

/-- Whether a literal with a tag is the object of a triple. -/
def isTagged (t : Encoding) (language : String) : Bool :=
  t.triples.any fun
    | ⟨_, _, .literal l⟩ => l.language == some language
    | _ => false

end Encoding

end Ontogram
