import Ontogram.Text.Basic

set_option autoImplicit false

namespace Ontogram

/-- A query with its title and what it answers. -/
structure QueryTemplate where
  label : String
  description : String
  query : String

namespace QueryTemplate

def classes : String :=
  String.intercalate "\n"
    ["PREFIX rdf: <http://www.w3.org/1999/02/22-rdf-syntax-ns#>",
      "PREFIX owl: <http://www.w3.org/2002/07/owl#>",
      "",
      "SELECT ?class \x7b",
      "  ?class rdf:type owl:Class .",
      "\x7d"]

/-- The query for the classes and their superclasses. -/
def hierarchy : String :=
  String.intercalate "\n"
    ["PREFIX rdfs: <http://www.w3.org/2000/01/rdf-schema#>",
      "",
      "SELECT ?sub ?super WHERE \x7b",
      "  ?sub rdfs:subClassOf ?super .",
      "\x7d"]

def individuals : String :=
  String.intercalate "\n"
    ["PREFIX rdf: <http://www.w3.org/1999/02/22-rdf-syntax-ns#>",
      "PREFIX owl: <http://www.w3.org/2002/07/owl#>",
      "",
      "SELECT DISTINCT ?indiv ?type \x7b",
      "  ?indiv rdf:type ?type .",
      "  ?type rdf:type owl:Class .",
      "\x7d LIMIT 50"]

/-- The templates in the order in which they are offered. -/
def all : List QueryTemplate :=
  [⟨"All Classes", "List every defined class in the ontology.", classes⟩,
    ⟨"Class Hierarchy", "Show parent-child relationships.", hierarchy⟩,
    ⟨"Individuals & Types", "List individuals and their instantiated class.", individuals⟩]

/-- The template with a label, in any case. -/
def find? (label : String) : Option QueryTemplate :=
  all.find? fun t => Text.lower t.label == Text.lower label

end QueryTemplate

end Ontogram
