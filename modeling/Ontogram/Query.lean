import Ontogram.Table
import Ontogram.Term

set_option autoImplicit false

namespace Ontogram

/-- A term of a triple pattern. -/
inductive PatternTerm where
  | var (name : String)
  /-- A name as it was written, with or without a prefix. -/
  | iri (text : String)
  | literal (l : Literal)
deriving DecidableEq

/-- A triple in which variables may stand. -/
structure TriplePattern where
  subject : PatternTerm
  predicate : PatternTerm
  object : PatternTerm
deriving DecidableEq

/-- A query. Without variables it asks for all that its patterns bind. -/
structure SelectQuery where
  projection : List String := []
  patterns : List TriplePattern := []
  prefixes : Table String := {}
  distinct : Bool := false
  limit : Option Int := none

namespace PatternTerm

def text : PatternTerm → String
  | var name => "?" ++ name
  | iri text => "<" ++ text ++ ">"
  | literal l => "\"" ++ l.value ++ "\"" ++ l.suffix fun datatype => "<" ++ datatype ++ ">"

end PatternTerm

namespace TriplePattern

def terms (p : TriplePattern) : List PatternTerm :=
  [p.subject, p.predicate, p.object]

def text (p : TriplePattern) : String :=
  String.intercalate " " (p.terms.map PatternTerm.text) ++ " ."

end TriplePattern

namespace SelectQuery

def asksAll (q : SelectQuery) : Bool :=
  q.projection.isEmpty

def selectLine (q : SelectQuery) : String :=
  "SELECT " ++ (if q.distinct then "DISTINCT " else "") ++
    if q.asksAll then "*" else String.intercalate " " (q.projection.map ("?" ++ ·))

def text (q : SelectQuery) : String :=
  String.intercalate "\n"
    (q.prefixes.entries.map (fun e => "PREFIX " ++ e.1 ++ ": <" ++ e.2 ++ ">") ++
      [q.selectLine, "WHERE \x7b"] ++ q.patterns.map (fun p => "  " ++ p.text) ++ ["\x7d"] ++
      (q.limit.map fun n => "LIMIT " ++ toString n).toList)

end SelectQuery

end Ontogram
