import Ontogram.Diagram
import Ontogram.Text.Basic
import Ontogram.Value

set_option autoImplicit false

namespace Ontogram

/-- Why a document is no diagram. -/
inductive DocumentError where
  /-- A map was expected. -/
  | notMap
  /-- A field that must be there is not. -/
  | missing (field : String)
  /-- A field holds something other than text. -/
  | notText (field kind : String)
  /-- A field holds something other than a list of maps. -/
  | notRecords (field : String)
  /-- An annotation has a list or a map as its value. -/
  | notScalar (kind : String)
  /-- An entity is of no known kind. -/
  | unknownKind (name : String)
  /-- The namespaces are no map from texts to texts. -/
  | badNamespaces

namespace DocumentError

/-- The wording of the error, if it has one. -/
def message? : DocumentError → Option String
  | notMap => none
  | missing field => some (Text.quoted field)
  | notText field kind =>
    some ("Field " ++ Text.quoted field ++ " must be a string, got " ++ kind)
  | notRecords field => some ("Field " ++ Text.quoted field ++ " must be a list of objects")
  | notScalar kind => some ("Annotation value must be a scalar, got " ++ kind)
  | unknownKind name => some ("Unknown entity kind: " ++ Text.quoted name)
  | badNamespaces => some "Field 'namespaces' must map prefix strings to IRI strings"

end DocumentError

/-- The entries of a map. -/
abbrev Fields : Type := List (Scalar × Value)

namespace Fields

/-- The value of a field. -/
def get? (fields : Fields) (key : String) : Option Value :=
  Value.entry? key fields

/-- The text of the first of several fields that is neither absent, null nor empty. -/
def text? (fields : Fields) : List String → Except DocumentError (Option String)
  | [] => .ok none
  | key :: keys =>
    match fields.get? key with
    | none => fields.text? keys
    | some (.scalar .null) => fields.text? keys
    | some (.scalar (.text s)) => if s = "" then fields.text? keys else .ok (some s)
    | some v => .error (.notText key v.kindName)

def text (fields : Fields) (keys : List String) : Except DocumentError String := do
  return (← fields.text? keys).getD ""

def maps? : List Value → Option (List Fields)
  | [] => some []
  | .map entries :: vs => (maps? vs).map (entries :: ·)
  | _ => none

/-- The maps in the first of several fields that is given. -/
def records (fields : Fields) : List String → Except DocumentError (List Fields)
  | [] => .ok []
  | key :: keys =>
    match fields.get? key with
    | none => fields.records keys
    | some v =>
      if !v.given then fields.records keys
      else
        match v with
        | .list items =>
          match maps? items with
          | some maps => .ok maps
          | none => .error (.notRecords key)
        | _ => .error (.notRecords key)

/-- The value of a field that must be there, written out. -/
def written (fields : Fields) (key : String) : Except DocumentError String :=
  match fields.get? key with
  | some v => .ok v.written
  | none => .error (.missing key)

end Fields

/-- Other names of kinds. -/
def EntityKind.aliases : List (String × EntityKind) :=
  [("individual", .individual), ("namedindividual", .individual),
    ("objectproperty", .objectProperty), ("dataproperty", .dataProperty),
    ("datatypeproperty", .dataProperty)]

/-- The kind that a text names: case, blanks around it and a leading `owl_` do not count. -/
def EntityKind.ofName? (name : String) : Option EntityKind :=
  let key := (Text.lower (Text.strip name)).toList
  let key := String.ofList (if "owl_".toList.isPrefixOf key then key.drop 4 else key)
  match aliases.lookup key with
  | some kind => some kind
  | none => all.find? fun kind => kind.name == key

namespace Diagram

def readAnnotation (fields : Fields) : Except DocumentError Annotation := do
  let value := (fields.get? "value").getD (.text "")
  match value with
  | .scalar _ => pure ()
  | v => throw (.notScalar v.kindName)
  match ← fields.text? ["property"] with
  | none => throw (.missing "property")
  | some property =>
    let language ← fields.text? ["language"]
    return { property, value := value.written, language }

def readAnnotations (fields : Fields) : Except DocumentError (List Annotation) := do
  (← fields.records ["annotations"]).mapM readAnnotation

def readAttribute (fields : Fields) : Except DocumentError Attribute := do
  let name ← fields.text ["name"]
  let type ← fields.text ["type"]
  return { name, type }

/-- Reads an axiom. Its expression may stand in the place of a return type. -/
def readAxiom (fields : Fields) : Except DocumentError Axiom := do
  let name ← fields.text ["name"]
  let expression ← fields.text ["expression", "returnType"]
  return { name, expression }

/-- What an entity of a kind holds. -/
def bodyOf (kind : EntityKind) (attributes : List Attribute) (axioms : List Axiom) : EntityBody :=
  match kind with
  | .concept => .concept attributes axioms
  | .individual => .individual axioms
  | .objectProperty => .objectProperty attributes axioms
  | .dataProperty => .dataProperty attributes axioms
  | .datatype => .datatype

def readEntity (fields : Fields) : Except DocumentError Entity := do
  let kindName ← fields.text ["kind", "type"]
  match EntityKind.ofName? kindName with
  | none => throw (.unknownKind kindName)
  | some kind =>
    let id ← fields.written "id"
    let label ← fields.text ["label"]
    let iri ← fields.text? ["iri"]
    let description ← fields.text? ["description"]
    let annotations ← readAnnotations fields
    let attributes ← (← fields.records ["attributes"]).mapM readAttribute
    let axioms ← (← fields.records ["axioms", "methods"]).mapM readAxiom
    return { id, label, iri, description, annotations, body := bodyOf kind attributes axioms }

def readRelation (fields : Fields) : Except DocumentError Relation := do
  let source ← fields.written "source"
  let target ← fields.written "target"
  let label ← fields.text ["label"]
  let inferred := ((fields.get? "inferred").map Value.given).getD false
  return { source, target, label, inferred }

def textEntries? : Fields → Option (List (String × String))
  | [] => some []
  | (.text k, .scalar (.text v)) :: rest => (textEntries? rest).map ((k, v) :: ·)
  | _ => none

def readNamespaces (fields : Fields) : Except DocumentError (Table String) :=
  match fields.get? "namespaces" with
  | none => .ok {}
  | some v =>
    if !v.given then .ok {}
    else
      match v with
      | .map entries =>
        match textEntries? entries with
        | some pairs => .ok (Table.ofList pairs)
        | none => .error .badNamespaces
      | _ => .error .badNamespaces

def readMetadata (fields : Fields) : Except DocumentError Metadata := do
  let namespaces ← readNamespaces fields
  let name := (← fields.text? ["name"]).getD "Untitled Ontology"
  let baseIri ← fields.text? ["base_iri", "baseIri"]
  let defaultPrefix ← fields.text? ["default_prefix", "defaultPrefix"]
  let ontologyIri ← fields.text? ["ontology_iri", "ontologyIri"]
  let versionIri ← fields.text? ["version_iri", "versionIri"]
  let description ← fields.text? ["description"]
  let language ← fields.text? ["language"]
  let annotations ← readAnnotations fields
  return {
    name, baseIri, defaultPrefix, ontologyIri, versionIri, description, language, namespaces,
    annotations }

/-- The settings in a document. -/
def metadataOf (fields : Fields) : Except DocumentError Metadata :=
  match fields.get? "metadata" with
  | some (.map entries) => readMetadata entries
  | some v => if v.given then .error .notMap else readMetadata []
  | none => readMetadata []

def read (document : Value) : Except DocumentError Diagram :=
  match document with
  | .map fields => do
    let entities ← (← Fields.records fields ["entities"]).mapM readEntity
    let relations ← (← Fields.records fields ["relations"]).mapM readRelation
    let metadata ← metadataOf fields
    return { entities, relations, metadata }
  | _ => .error .notMap

end Diagram

end Ontogram
