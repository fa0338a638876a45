import Ontogram.Table

set_option autoImplicit false

namespace Ontogram

/-- The kinds of entities. -/
inductive EntityKind where
  | concept
  | individual
  | objectProperty
  | dataProperty
  | datatype
deriving DecidableEq

/-- A remark about an entity or an ontology. -/
structure Annotation where
  property : String
  value : String
  language : Option String

/-- A row on the card of an entity: a data property with its range on a class, a characteristic on
a property. -/
structure Attribute where
  name : String
  type : String

/-- A named statement about an entity, in the words of its author. -/
structure Axiom where
  name : String
  expression : String

/-- What an entity holds by its kind. -/
inductive EntityBody where
  | concept (attributes : List Attribute) (axioms : List Axiom)
  | individual (axioms : List Axiom)
  | objectProperty (characteristics : List Attribute) (axioms : List Axiom)
  | dataProperty (characteristics : List Attribute) (axioms : List Axiom)
  | datatype

/-- An entity. -/
structure Entity where
  id : String
  label : String
  iri : Option String
  description : Option String
  annotations : List Annotation
  body : EntityBody

/-- An edge from one entity to another. -/
structure Relation where
  source : String
  target : String
  label : String
  inferred : Bool

/-- The settings of an ontology. Where it names no base, prefix or language, the defaults in force
count. -/
structure Metadata where
  name : String
  baseIri : Option String
  defaultPrefix : Option String
  ontologyIri : Option String
  versionIri : Option String
  description : Option String
  language : Option String
  namespaces : Table String
  annotations : List Annotation

/-- A drawn ontology. -/
structure Diagram where
  entities : List Entity
  relations : List Relation
  metadata : Metadata

namespace EntityKind

def name : EntityKind → String
  | concept => "class"
  | individual => "named_individual"
  | objectProperty => "object_property"
  | dataProperty => "data_property"
  | datatype => "datatype"

def all : List EntityKind :=
  [concept, individual, objectProperty, dataProperty, datatype]

/-- Whether entities of the kind relate things to each other or to values. -/
def isProperty : EntityKind → Bool
  | objectProperty | dataProperty => true
  | _ => false

end EntityKind

namespace Entity

def kind (e : Entity) : EntityKind :=
  match e.body with
  | .concept .. => .concept
  | .individual .. => .individual
  | .objectProperty .. => .objectProperty
  | .dataProperty .. => .dataProperty
  | .datatype => .datatype

def isProperty (e : Entity) : Bool :=
  e.kind.isProperty

def attributes (e : Entity) : List Attribute :=
  match e.body with
  | .concept attributes _ => attributes
  | _ => []

def characteristics (e : Entity) : List Attribute :=
  match e.body with
  | .objectProperty characteristics _ => characteristics
  | .dataProperty characteristics _ => characteristics
  | _ => []

def axioms (e : Entity) : List Axiom :=
  match e.body with
  | .concept _ axioms => axioms
  | .individual axioms => axioms
  | .objectProperty _ axioms => axioms
  | .dataProperty _ axioms => axioms
  | .datatype => []

/-- The entities by their ids; of several with one id the last counts. -/
def byId (entities : List Entity) : Table Entity :=
  Table.ofList (entities.map fun e => (e.id, e))

end Entity

end Ontogram
