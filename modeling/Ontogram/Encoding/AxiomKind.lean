import Ontogram.Text.Basic

set_option autoImplicit false

namespace Ontogram

/-- The kinds of axioms. -/
inductive AxiomKind where
  | subClassOf
  | superClassOf
  | disjointWith
  | equivalentTo
  | unionOf
  | intersectionOf
  | oneOf
  | complementOf
  | disjointUnionOf
  | hasKey
  | sameAs
  | differentFrom
  | types
  | subPropertyOf
  | inverseOf
  | domain
  | range
  | propertyChain
  /-- An axiom that restricts the property it is named after. -/
  | implicitRestriction
deriving DecidableEq

namespace AxiomKind

def names : List (String × AxiomKind) :=
  [("subclassof", subClassOf), ("subclass", subClassOf), ("superclassof", superClassOf),
    ("superclass", superClassOf), ("disjointwith", disjointWith),
    ("disjointclasses", disjointWith), ("equivalentto", equivalentTo),
    ("equivalentclass", equivalentTo), ("equivalentclasses", equivalentTo),
    ("equivalentproperty", equivalentTo), ("unionof", unionOf),
    ("intersectionof", intersectionOf), ("oneof", oneOf), ("complementof", complementOf),
    ("disjointunionof", disjointUnionOf), ("haskey", hasKey), ("sameas", sameAs),
    ("sameindividual", sameAs), ("differentfrom", differentFrom),
    ("differentindividuals", differentFrom), ("types", types), ("type", types),
    ("instanceof", types), ("subpropertyof", subPropertyOf), ("inverseof", inverseOf),
    ("domain", domain), ("range", range), ("propertydisjointwith", disjointWith),
    ("propertychainaxiom", propertyChain), ("propertychain", propertyChain)]

/-- Whether a character counts in a name. -/
def isNameKey (c : Char) : Bool :=
  c.isLower || c.isDigit

/-- What counts of a name. -/
def keyOf (name : String) : String :=
  String.ofList ((Text.lowerOf name.toList).filter isNameKey)

def ofName (name : String) : AxiomKind :=
  (names.lookup (keyOf name)).getD implicitRestriction

/-- Whether the axiom has a list of names as its value. -/
def isListValued : AxiomKind → Bool
  | unionOf | intersectionOf | oneOf | disjointUnionOf | hasKey | propertyChain => true
  | _ => false

/-- Whether the axiom makes sense on properties alone. -/
def isPropertyOnly : AxiomKind → Bool
  | subPropertyOf | inverseOf | domain | range | propertyChain => true
  | _ => false

/-- Whether the axiom makes no sense on properties. -/
def isClassOnly : AxiomKind → Bool
  | superClassOf | unionOf | intersectionOf | oneOf | complementOf | disjointUnionOf | hasKey
  | sameAs | differentFrom | types => true
  | _ => false

end AxiomKind

end Ontogram
