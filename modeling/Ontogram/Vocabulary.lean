import Ontogram.Table
import Ontogram.Term
import Ontogram.Text.Basic

set_option autoImplicit false

namespace Ontogram

namespace Namespace

/-- The namespace of types and lists. -/
def rdf : String := "http://www.w3.org/1999/02/22-rdf-syntax-ns#"

/-- The namespace of labels, domains, ranges and the two hierarchies. -/
def rdfs : String := "http://www.w3.org/2000/01/rdf-schema#"

/-- The namespace of axioms and class expressions. -/
def owl : String := "http://www.w3.org/2002/07/owl#"

/-- The namespace of datatypes. -/
def xsd : String := "http://www.w3.org/2001/XMLSchema#"

/-- The namespace of definitions. -/
def skos : String := "http://www.w3.org/2004/02/skos/core#"

/-- The prefixes that every table starts with. -/
def standard : List (String × String) :=
  [("rdf", rdf), ("rdfs", rdfs), ("owl", owl), ("xsd", xsd), ("skos", skos)]

/-- The base of an ontology that names none. -/
def defaultBase : String := "http://example.org/ontology#"

/-- The name for the base of an ontology that names none. -/
def defaultName : String := "ex"

/-- A base to which local names can be appended: it ends in a hash sign or a slash. -/
def closed (base : String) : String :=
  if base = "" then defaultBase
  else if base.toList.getLast? = some '#' ∨ base.toList.getLast? = some '/' then base
  else base ++ "#"

end Namespace

namespace Vocabulary

def rdf (name : String) : Term := .iri (Namespace.rdf ++ name)

def rdfs (name : String) : Term := .iri (Namespace.rdfs ++ name)

def owl (name : String) : Term := .iri (Namespace.owl ++ name)

def skos (name : String) : Term := .iri (Namespace.skos ++ name)

def type : Term := rdf "type"

def label : Term := rdfs "label"

def subClassOf : Term := rdfs "subClassOf"

/-- The predicate between two classes without common members. -/
def disjointWith : Term := owl "disjointWith"

def owlWords : List String :=
  ["AllDifferent", "AllDisjointClasses", "AllDisjointProperties", "allValuesFrom",
    "annotatedProperty", "annotatedSource", "annotatedTarget", "Annotation", "AnnotationProperty",
    "assertionProperty", "AsymmetricProperty", "Axiom", "backwardCompatibleWith",
    "bottomDataProperty", "bottomObjectProperty", "cardinality", "Class", "complementOf",
    "DataRange", "datatypeComplementOf", "DatatypeProperty", "deprecated", "DeprecatedClass",
    "DeprecatedProperty", "differentFrom", "disjointUnionOf", "disjointWith", "distinctMembers",
    "equivalentClass", "equivalentProperty", "FunctionalProperty", "hasKey", "hasSelf",
    "hasValue", "imports", "incompatibleWith", "intersectionOf", "InverseFunctionalProperty",
    "inverseOf", "IrreflexiveProperty", "maxCardinality", "maxQualifiedCardinality", "members",
    "minCardinality", "minQualifiedCardinality", "NamedIndividual", "NegativePropertyAssertion",
    "Nothing", "ObjectProperty", "onClass", "onDataRange", "onDatatype", "oneOf", "onProperty",
    "onProperties", "Ontology", "OntologyProperty", "priorVersion", "propertyChainAxiom",
    "propertyDisjointWith", "qualifiedCardinality", "ReflexiveProperty", "Restriction", "sameAs",
    "someValuesFrom", "sourceIndividual", "SymmetricProperty", "targetIndividual", "targetValue",
    "Thing", "topDataProperty", "topObjectProperty", "TransitiveProperty", "unionOf",
    "versionInfo", "versionIRI", "withRestrictions"]

def datatypeNames : List String :=
  ["string", "boolean", "decimal", "integer", "int", "long", "short", "byte", "float", "double",
    "date", "dateTime", "dateTimeStamp", "time", "duration", "anyURI", "nonNegativeInteger",
    "positiveInteger", "negativeInteger", "nonPositiveInteger", "unsignedInt", "unsignedLong",
    "normalizedString", "token", "language", "hexBinary", "base64Binary", "gYear", "gYearMonth"]

/-- The datatype with a given name in any case. -/
def datatypeNamed? (name : String) : Option String :=
  datatypeNames.find? fun known => Text.lower known == Text.lower name

/-- Edge labels, in lower case, of the two structural predicates with fixed labels. -/
def structuralLabels : List (String × Term) :=
  [("type", type), ("a", type), ("rdf:type", type), ("subclassof", subClassOf),
    ("rdfs:subclassof", subClassOf)]

/-- The predicate that an edge label stands for by itself: a fixed label, or any label that speaks
of disjointness. -/
def structural? (edge : String) : Option Term :=
  let key := Text.lower (Text.strip edge)
  match structuralLabels.lookup key with
  | some predicate => some predicate
  | none => if Text.holds "disjoint".toList key.toList then some disjointWith else none

theorem mem_of_structural? {edge : String} {predicate : Term}
    (h : structural? edge = some predicate) : predicate ∈ [type, subClassOf, disjointWith] := by
  unfold structural? at h
  simp only at h
  split at h
  · rename_i found
    cases Option.some.inj h
    obtain ⟨front, back, entries, -⟩ := List.lookup_eq_some_iff.1 found
    have there : (Text.lower (Text.strip edge), predicate) ∈ structuralLabels := by
      rw [entries]
      simp
    have all : ∀ entry ∈ structuralLabels, entry.2 ∈ [type, subClassOf, disjointWith] := by
      simp [structuralLabels]
    exact all _ there
  · split at h
    · simp [← Option.some.inj h]
    · cases h

end Vocabulary

end Ontogram
