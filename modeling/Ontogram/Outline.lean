import Ontogram.Diagram
import Ontogram.Encoding

set_option autoImplicit false

namespace Ontogram

open Vocabulary (owl rdfs)

/-- The triples of an outline, and the labels of IRIs, labels and ids. -/
structure Outline where
  triples : List Triple
  labels : Table String

namespace Outline

/-- The IRI of an entity: its own, or its label at the base. -/
def iriOf (base : String) (e : Entity) : String :=
  (e.iri.bind Text.nonEmpty).getD (base ++ Text.underscored e.label)

/-- The IRIs by the ids of entities; of several with one id the last counts. -/
def iris (base : String) (entities : List Entity) : Table String :=
  Table.ofList (entities.map fun e => (e.id, iriOf base e))

/-- The labels by IRI, label and id. -/
def labelsOf (base : String) (entities : List Entity) : Table String :=
  Table.ofList (entities.flatMap fun e =>
    [(iriOf base e, e.label), (e.label, e.label), (e.id, e.label)])

def ofEntity (base : String) (table : Table String) (e : Entity) : List Triple :=
  let subject : Term := .iri ((table.get? e.id).getD (iriOf base e))
  [⟨subject, Vocabulary.type, Encoding.declarationClass e.kind⟩,
    ⟨subject, Vocabulary.label, Encoding.textLiteral e.label none⟩] ++
    e.attributes.map fun a =>
      ⟨subject, .iri (base ++ "hasAttribute"), Encoding.textLiteral a.name none⟩

def predicateOf (base : String) (table properties : Table String) (label : String) : Term :=
  match Vocabulary.structural? label with
  | some predicate => predicate
  | none =>
    match properties.get? label with
    | some id => .iri ((table.get? id).getD base)
    | none =>
      if "http".toList.isPrefixOf label.toList then .iri label
      else .iri (base ++ Text.underscored label)

/-- The triple of a relation between entities on the canvas. -/
def ofRelation? (base : String) (table properties : Table String) (e : Relation) : Option Triple :=
  match table.get? e.source, table.get? e.target with
  | some source, some target =>
    let label := if e.label = "" then "relatedTo" else e.label
    some ⟨.iri source, predicateOf base table properties label, .iri target⟩
  | _, _ => none

/-- The outline of entities and relations. -/
def of (base : String) (entities : List Entity) (relations : List Relation) : Outline :=
  let base := Namespace.closed base
  let table := iris base entities
  let properties := Table.ofList ((entities.filter Entity.isProperty).map fun e => (e.label, e.id))
  { triples := entities.flatMap (ofEntity base table) ++
      relations.filterMap (ofRelation? base table properties)
    labels := labelsOf base entities }

end Outline

end Ontogram
