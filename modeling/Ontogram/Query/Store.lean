import Ontogram.Query
import Ontogram.Resolver

set_option autoImplicit false

namespace Ontogram

/-- A stored statement. -/
structure Fact where
  subject : String
  predicate : String
  object : String
  /-- The lexical value of the object. -/
  lexical : String

abbrev Store : Type := List Fact

namespace Fact

/-- Whether a text is a datatype after a literal. -/
def isTypeMark : List Char → Bool
  | '^' :: '^' :: '<' :: rest =>
    match rest.dropWhile (· ≠ '>') with
    | ['>'] => true
    | _ => false
  | _ => false

/-- Whether a text is a language tag after a literal. -/
def isLanguageMark : List Char → Bool
  | '@' :: tag => Resolver.isLanguageTag tag
  | _ => false

/-- What may follow the closing quote of a literal: nothing, a tag or a datatype, and at the end a
line feed. -/
def literalEnd? (cs : List Char) : Option Unit :=
  let mark := Text.dropFinalNewline cs
  if mark.isEmpty || isLanguageMark mark || isTypeMark mark then some () else none

/-- The lexical value of a display text; what is no literal is its own value. -/
def lexicalValue (display : String) : String :=
  match display.toList with
  | '"' :: rest =>
    match Text.closeQuote literalEnd? rest with
    | some (value, _) => String.ofList (Text.unescapeBackslashes (Text.unescapeQuotes value))
    | none => display
  | _ => display

def ofTexts (subject predicate object : String) : Fact :=
  { subject, predicate, object, lexical := lexicalValue object }

def ofTriple (t : Triple) : Fact :=
  ofTexts t.subject.display t.predicate.display t.object.display

/-- The texts of the three positions. -/
def texts (f : Fact) : List String :=
  [f.subject, f.predicate, f.object]

end Fact

namespace PatternTerm

def name? : PatternTerm → Option String
  | var name => some name
  | _ => none

/-- The IRI of a name in a query. A name without a prefix belongs to the empty prefix, if there is
one. -/
def expand (prefixes : Table String) (text : String) : String :=
  let cs := text.toList
  if "_:".toList.isPrefixOf cs || Resolver.isAbsolute cs then text
  else if cs.contains ':' then
    let name := cs.takeWhile (· ≠ ':')
    match prefixes.get? (String.ofList name) with
    | some space => space ++ String.ofList (cs.drop (name.length + 1))
    | none => text
  else
    match prefixes.get? "" with
    | some space => space ++ text
    | none => text

def constant? (prefixes : Table String) : PatternTerm → Option String
  | var _ => none
  | iri text => some (expand prefixes text)
  | literal l =>
    some { l with datatype := (l.datatype.filter (· ≠ "")).map (expand prefixes) }.display

end PatternTerm

namespace TriplePattern

/-- A text without one double quote at its front. -/
def dropOpeningQuote : List Char → List Char
  | '"' :: cs => cs
  | cs => cs

/-- A text without one double quote at each end. -/
def unquoted (text : String) : String :=
  let cs := dropOpeningQuote text.toList
  String.ofList (if cs.getLast? = some '"' then cs.dropLast else cs)

/-- Whether a constant that is asked for is the text of a position. -/
def meets (constant : Option String) (text : String) : Bool :=
  match constant with
  | some c => c == text
  | none => true

/-- Whether a constant is the object of a fact, or its lexical value. -/
def meetsObject (constant : Option String) (f : Fact) : Bool :=
  match constant with
  | some c => c == f.object || unquoted c == f.lexical
  | none => true

/-- The texts that a fact gives to the variables of a pattern, position by position. -/
def bindings (p : TriplePattern) (f : Fact) : List (String × String) :=
  (p.terms.zip f.texts).filterMap fun (term, text) => term.name?.map (·, text)

/-- Whether a list of bindings gives each variable one text. -/
def consistent (bs : List (String × String)) : Bool :=
  bs.all fun b => bs.lookup b.1 == some b.2

/-- Whether a fact is an instance of a pattern. -/
def accepts (prefixes : Table String) (p : TriplePattern) (f : Fact) : Bool :=
  meets (p.subject.constant? prefixes) f.subject &&
    meets (p.predicate.constant? prefixes) f.predicate &&
    meetsObject (p.object.constant? prefixes) f && consistent (p.bindings f)

end TriplePattern

end Ontogram
