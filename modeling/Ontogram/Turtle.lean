import Ontogram.Table
import Ontogram.Term

set_option autoImplicit false

namespace Ontogram.Turtle

/-- A letter or digit of ASCII, an underscore or a hyphen. -/
def isNameChar (c : Char) : Bool :=
  c.isAlphanum || c == '_' || c == '-'

/-- A name that needs no brackets: it starts with a letter or an underscore. One line feed at its
end is overlooked. -/
def isPlainName (cs : List Char) : Bool :=
  match Text.dropFinalNewline cs with
  | [] => false
  | c :: rest => (c.isAlpha || c == '_') && rest.all isNameChar

/-- What is left of an IRI after a namespace, if that is a plain name. -/
def localName? (space iri : String) : Option (List Char) :=
  if space ≠ "" && space.toList.isPrefixOf iri.toList then
    let rest := iri.toList.drop space.length
    if isPlainName rest then some rest else none
  else none

theorem localName?_eq_some {space iri : String} {rest : List Char}
    (h : localName? space iri = some rest) :
    space.toList ++ rest = iri.toList ∧ isPlainName rest = true := by
  unfold localName? at h
  split at h
  · rename_i hp
    simp only [Bool.and_eq_true, decide_eq_true_eq, List.isPrefixOf_iff_prefix] at hp
    simp only at h
    split at h
    · rename_i hn
      obtain rfl := Option.some.inj h
      obtain ⟨t, ht⟩ := hp.2
      have : space.length = space.toList.length := String.length_toList.symm
      refine ⟨?_, hn⟩
      rw [this, ← ht, List.drop_left]
    · simp at h
  · simp at h

/-- The entry with the longest namespace that fits an IRI, the first of equally long ones. -/
def bestEntry? (iri : String) : List (String × String) → Option (String × String)
  | [] => none
  | (name, space) :: rest =>
    match localName? space iri, bestEntry? iri rest with
    | none, found => found
    | some _, none => some (name, space)
    | some _, some (name', space') =>
      if space.length < space'.length then some (name', space') else some (name, space)

/-- An IRI, shortened by a prefix if one fits. -/
def formatIri (prefixes : Table String) (iri : String) : String :=
  match bestEntry? iri prefixes.entries with
  | some (name, space) => name ++ ":" ++ String.ofList (iri.toList.drop space.length)
  | none => "<" ++ iri ++ ">"

def escapeChar (c : Char) : List Char :=
  if c = '\n' then ['\\', 'n']
  else if c = '\r' then ['\\', 'r']
  else Text.escapeChar c

def formatLiteral (prefixes : Table String) (l : Literal) : String :=
  String.ofList ('"' :: l.value.toList.flatMap escapeChar ++ ['"']) ++
    l.suffix (formatIri prefixes)

mutual

def formatTerm (prefixes : Table String) : Term → String
  | .iri value => formatIri prefixes value
  | .blank label => "_:" ++ label
  | .literal l => formatLiteral prefixes l
  | .list [] => "()"
  | .list (t :: ts) => "( " ++ String.intercalate " " (formatTerms prefixes (t :: ts)) ++ " )"

/-- The items of a list. -/
def formatTerms (prefixes : Table String) : List Term → List String
  | [] => []
  | t :: ts => formatTerm prefixes t :: formatTerms prefixes ts

end

def prefixLine (entry : String × String) : String :=
  "@prefix " ++ entry.1 ++ ": <" ++ entry.2 ++ "> ."

def tripleLine (prefixes : Table String) (t : Triple) : String :=
  formatTerm prefixes t.subject ++ " " ++ formatTerm prefixes t.predicate ++ " " ++
    formatTerm prefixes t.object ++ " ."

/-- The text of a list of triples below the lines of their prefixes. -/
def formatBelow (lines : List String) (prefixes : Table String) (triples : List Triple) : String :=
  String.intercalate "\n" (lines ++ [""] ++ triples.map (tripleLine prefixes)) ++ "\n"

/-- The text of a list of triples. -/
def format (prefixes : Table String) (triples : List Triple) : String :=
  formatBelow (prefixes.entries.map prefixLine) prefixes triples

end Ontogram.Turtle
