import Ontogram.Term
import Ontogram.Text.Quoted

set_option autoImplicit false

namespace Ontogram

/-- What an encoding leaves out. -/
inductive Warning where
  /-- An annotation whose property is no IRI. -/
  | annotationProperty (property : String)
  /-- A characteristic of no known name. -/
  | unknownCharacteristic (name localName : String)
  | propertyAxiomElsewhere (name subject : String)
  | classAxiomOnProperty (name subject : String)
  | unknownPropertyAxiom (name subject : String)
  | namelessAxiom (subject : String)
  /-- A relation whose source or target is not on the canvas. -/
  | danglingRelation (label source target : String)
  /-- A relation whose label is a literal. -/
  | literalRelation (label : String)

namespace Warning

/-- The wording of a warning. -/
def message : Warning → String
  | annotationProperty property =>
    "Skipping annotation with non-IRI property " ++ Text.quoted property
  | unknownCharacteristic name localName =>
    "Unknown property characteristic " ++ Text.quoted name ++ ", emitting owl:" ++ localName
  | propertyAxiomElsewhere name subject =>
    "Axiom " ++ Text.quoted name ++ " only applies to properties, skipped on " ++ subject
  | classAxiomOnProperty name subject =>
    "Axiom " ++ Text.quoted name ++ " does not apply to properties, skipped on " ++ subject
  | unknownPropertyAxiom name subject =>
    "Unrecognised property axiom " ++ Text.quoted name ++ " skipped on " ++ subject
  | namelessAxiom subject => "Nameless axiom skipped on " ++ subject
  | danglingRelation label source target =>
    "Skipping relation " ++ Text.quoted label ++ ": dangling endpoint " ++ source ++ " -> " ++
      target
  | literalRelation label => "Skipping relation with literal label " ++ Text.quoted label

end Warning

/-- The contribution of a part. -/
structure Emission where
  triples : List Triple
  warnings : List Warning
  next : Int

namespace Emission

def ofTriples (triples : List Triple) (n : Int) : Emission :=
  ⟨triples, [], n⟩

def ofWarning (warning : Warning) (n : Int) : Emission :=
  ⟨[], [warning], n⟩

/-- A contribution followed by the one that starts with the next node. -/
def andThen (a : Emission) (f : Int → Emission) : Emission :=
  let b := f a.next
  ⟨a.triples ++ b.triples, a.warnings ++ b.warnings, b.next⟩

/-- The contributions of several parts, one after the other. -/
def each {α : Type} (f : α → Int → Emission) : List α → Int → Emission
  | [], n => ofTriples [] n
  | x :: xs, n => (f x n).andThen (each f xs)

end Emission

end Ontogram
