import Ontogram.Text.Basic
import Ontogram.Vocabulary

set_option autoImplicit false

namespace Ontogram

/-- A base, its name, and the table of prefixes. -/
structure Resolver where
  base : String
  baseName : String
  prefixes : Table String

namespace Resolver

/-- The resolver of a base and a table of further prefixes, which may overwrite the standard ones
and that of the base. Without a base or a name for it the defaults are taken. -/
def create (base baseName : String) (more : List (String × String)) : Resolver :=
  let base := Namespace.closed base
  let baseName := if baseName = "" then Namespace.defaultName else baseName
  { base, baseName
    prefixes := ((Table.ofList Namespace.standard).insert baseName base).insertAll more }

/-- The resolver without settings. -/
def default : Resolver :=
  create Namespace.defaultBase Namespace.defaultName []

def schemes : List String :=
  ["http://", "https://", "urn:"]

/-- Whether a text starts with one of the schemes. -/
def isAbsolute (cs : List Char) : Bool :=
  schemes.any fun scheme => scheme.toList.isPrefixOf cs

def isBracketed (cs : List Char) : Bool :=
  cs.head? == some '<' && cs.getLast? == some '>'

/-- The text without its first and its last character. -/
def inner (cs : List Char) : List Char :=
  cs.tail.dropLast

/-- Words with an underscore between each two; a text without words is unknown. -/
def localName (cs : List Char) : List Char :=
  let name := ['_'].intercalate (Text.wordsOf cs)
  if name.isEmpty then "Unknown".toList else name

def atBase (r : Resolver) (cs : List Char) : String :=
  r.base ++ String.ofList (localName cs)

/-- The IRI of a token without blanks at its ends and without a quote at its start. -/
def iriOf (r : Resolver) (cs : List Char) : String :=
  if cs.isEmpty then r.atBase cs
  else if isBracketed cs then String.ofList (inner cs)
  else if isAbsolute cs then String.ofList cs
  else if "_:".toList.isPrefixOf cs then r.atBase (cs.drop 2)
  else if cs.contains ':' && !cs.any Text.isBlank then
    let name := cs.takeWhile (· ≠ ':')
    match r.prefixes.get? (String.ofList name) with
    | some space => space ++ String.ofList (cs.drop (name.length + 1))
    | none => String.ofList cs
  else if String.ofList cs ∈ Vocabulary.owlWords then Namespace.owl ++ String.ofList cs
  else r.atBase cs

/-- A letter of ASCII followed by letters, digits or hyphens. -/
def isLanguageTag (cs : List Char) : Bool :=
  match cs with
  | [] => false
  | c :: rest => c.isAlpha && rest.all fun d => d.isAlphanum || d == '-'

theorem all_of_isLanguageTag {tag : List Char} (h : isLanguageTag tag = true) :
    (tag.all fun c => c.isAlphanum || c == '-') = true := by
  cases tag with
  | nil => rfl
  | cons c tag =>
    obtain ⟨letter, chars⟩ := Bool.and_eq_true_iff.1 h
    rw [List.all_cons, chars, Bool.and_true]
    simp [Char.isAlphanum, letter]

/-- The language and the datatype that the text behind a closing quote gives: nothing, a tag, or a
datatype without blanks. One line feed at the end is overlooked. -/
def literalSuffix? (cs : List Char) : Option (Option (List Char) × Option (List Char)) :=
  match Text.dropFinalNewline cs with
  | [] => some (none, none)
  | '@' :: tag => if isLanguageTag tag then some (some tag, none) else none
  | '^' :: '^' :: datatype =>
    if datatype.isEmpty || datatype.any Text.isBlank then none else some (none, some datatype)
  | _ => none

/-- The datatype that a token names; quoted text names none and is kept. -/
def datatypeOf (r : Resolver) (cs : List Char) : String :=
  if cs.head? = some '"' then String.ofList cs else r.iriOf cs

/-- The literal that a token in quotes writes. The last quote with an allowed suffix closes it; if
there is none, the token without the quotes at its ends is the value. -/
def literalOf (r : Resolver) (cs : List Char) : Literal :=
  match cs with
  | '"' :: rest =>
    match Text.closeQuote literalSuffix? rest with
    | some (value, language, datatype) =>
      { value := String.ofList (Text.unescapeQuotes value)
        language := language.map String.ofList
        datatype := datatype.map r.datatypeOf }
    | none => ⟨String.ofList (Text.stripBoth (· == '"') cs), none, none⟩
  | _ => ⟨String.ofList (Text.stripBoth (· == '"') cs), none, none⟩

def parseLiteral (r : Resolver) (token : String) : Literal :=
  r.literalOf token.toList

/-- The term of a token without blanks at its ends. -/
def termOf (r : Resolver) (cs : List Char) : Term :=
  if cs.head? = some '"' then .literal (r.literalOf cs) else .iri (r.iriOf cs)

/-- The term of a token that names a class, a property or an individual. -/
def resolve (r : Resolver) (token : String) : Term :=
  r.termOf (Text.stripBoth Text.isBlank token.toList)

/-- The term of a token that names a datatype: the names of the `xsd` namespace need no prefix. -/
def resolveDatatype (r : Resolver) (token : String) : Term :=
  match Vocabulary.datatypeNamed? (Text.strip token) with
  | some name => .iri (Namespace.xsd ++ name)
  | none => r.resolve token

/-- A sign, if there is one, and digits of any script. -/
def isInteger (cs : List Char) : Bool :=
  let digits := (Text.takeSign cs).2
  !digits.isEmpty && digits.all Text.isDigit

/-- A sign, if there is one, digits of any script or none, a point and at least one digit. -/
def isDecimal (cs : List Char) : Bool :=
  match ((Text.takeSign cs).2).dropWhile Text.isDigit with
  | '.' :: places => !places.isEmpty && places.all Text.isDigit
  | _ => false

/-- The term of a token that is a value: numbers and truth values are literals. -/
def resolveValue (r : Resolver) (token : String) : Term :=
  let cs := Text.stripBoth Text.isBlank token.toList
  let typed (name : String) : Term :=
    .literal ⟨String.ofList cs, none, some (Namespace.xsd ++ name)⟩
  if cs.head? = some '"' then .literal (r.literalOf cs)
  else if isInteger cs then typed "integer"
  else if isDecimal cs then typed "decimal"
  else if cs = "true".toList ∨ cs = "false".toList then typed "boolean"
  else .iri (r.iriOf cs)

def isDatatype (token : String) : Bool :=
  let cs := Text.stripBoth Text.isBlank token.toList
  let startsWith (s : String) : Bool := s.toList.isPrefixOf cs
  startsWith "xsd:" || startsWith ("<" ++ Namespace.xsd) || startsWith Namespace.xsd ||
    String.ofList cs ∈ Vocabulary.datatypeNames || String.ofList cs == "rdfs:Literal"

end Resolver

end Ontogram
