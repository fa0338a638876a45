import Ontogram.Text.Escape
import Ontogram.Yaml.Moment

set_option autoImplicit false

namespace Ontogram.Yaml

open Text

/-- The kind of value of a tree. -/
inductive Tag where
  | null
  | truth
  | integer
  | real
  | octets
  | moment
  | text
  | list
  | map
  | set
  /-- A list of entries. -/
  | pairs
  /-- A key whose value is a mapping with more entries. -/
  | merge
  /-- A key whose value stands for the whole mapping. -/
  | value
  | other (name : String)
deriving DecidableEq

namespace Tag

/-- What the names of the tags of this format start with. -/
def standardStem : String :=
  "tag:yaml.org,2002:"

/-- The tags of this format by the rest of their names. -/
def standard : List (String × Tag) :=
  [("null", .null), ("bool", .truth), ("int", .integer), ("float", .real), ("binary", .octets),
    ("timestamp", .moment), ("str", .text), ("seq", .list), ("map", .map), ("set", .set),
    ("omap", .pairs), ("pairs", .pairs), ("merge", .merge), ("value", .value)]

def ofName (label : String) : Tag :=
  let stem := standardStem.toList
  if stem.isPrefixOf label.toList then
    (standard.lookup (String.ofList (label.toList.drop stem.length))).getD (.other label)
  else .other label

/-- Whether values of this kind have parts, and so are no keys. -/
def hasParts : Tag → Bool
  | list | map | set | pairs => true
  | _ => false

end Tag

def truthWords : List (String × Bool) :=
  [("yes", true), ("Yes", true), ("YES", true), ("no", false), ("No", false), ("NO", false),
    ("true", true), ("True", true), ("TRUE", true), ("false", false), ("False", false),
    ("FALSE", false), ("on", true), ("On", true), ("ON", true), ("off", false), ("Off", false),
    ("OFF", false)]

def nullWords : List String :=
  ["", "~", "null", "Null", "NULL"]

/-- A decimal digit or an underscore. -/
def isPaddedDigit (c : Char) : Bool :=
  isAsciiDigit c || c == '_'

/-- A digit followed by digits and underscores. -/
def isPadded : List Char → Bool
  | c :: cs => isAsciiDigit c && cs.all isPaddedDigit
  | [] => false

/-- Whether a text is made of some digits and underscores. -/
def isPaddedRun (digits : String) (cs : List Char) : Bool :=
  !cs.isEmpty && cs.all fun c => digits.toList.contains c || c == '_'

def colonParts : List Char → List (List Char)
  | [] => [[]]
  | c :: cs =>
    if c = ':' then [] :: colonParts cs
    else
      match colonParts cs with
      | [] => [[c]]
      | p :: ps => (c :: p) :: ps

/-- A part of a number in base sixty: one digit, or two of which the first is below six. -/
def isSixty : List Char → Bool
  | [d] => isAsciiDigit d
  | [c, d] => '0' ≤ c && c ≤ '5' && isAsciiDigit d
  | _ => false

/-- Whether a text without a sign has the form of a whole number. -/
def isNatural : List Char → Bool
  | '0' :: 'b' :: ds => isPaddedRun "01" ds
  | '0' :: 'x' :: ds => isPaddedRun "0123456789abcdefABCDEF" ds
  | ['0'] => true
  | '0' :: ds => isPaddedRun "01234567" ds
  | cs =>
    match colonParts cs with
    | first :: parts => isPadded first && parts.all isSixty
    | [] => false

/-- Whether a text is nothing or an exponent with its sign. -/
def isExponent : List Char → Bool
  | [] => true
  | e :: sign :: ds =>
    (e == 'e' || e == 'E') && (sign == '+' || sign == '-') && !ds.isEmpty && ds.all isAsciiDigit
  | _ => false

/-- Whether what follows a point may end a number. -/
def isFraction (cs : List Char) : Bool :=
  isExponent (cs.dropWhile isPaddedDigit)

/-- Whether a text without a sign is digits in base ten or sixty, a point, and perhaps more digits;
in base ten an exponent may follow. -/
def isPointed (cs : List Char) : Bool :=
  match cs.dropWhile (· ≠ '.'), colonParts (cs.takeWhile (· ≠ '.')) with
  | '.' :: fraction, [whole] => isPadded whole && isFraction fraction
  | '.' :: fraction, first :: parts =>
    isPadded first && parts.all isSixty && fraction.all isPaddedDigit
  | _, _ => false

/-- The words for an infinity after a sign. -/
def infinityWords : List String :=
  [".inf", ".Inf", ".INF"]

/-- The words for what is no number. -/
def nanWords : List String :=
  [".nan", ".NaN", ".NAN"]

/-- Whether a text has the form of a number with a point. Without digits in front of the point there
is no sign either. -/
def isReal (cs : List Char) : Bool :=
  let body := (takeSign cs).2
  isPointed body || infinityWords.contains (String.ofList body) ||
    nanWords.contains (String.ofList cs) ||
      match cs with
      | '.' :: d :: rest => isAsciiDigit d && isFraction rest
      | _ => false

/-- Whether a text has the form of a moment. A day that stands alone is written with two digits for
month and day. -/
def isMoment (cs : List Char) : Bool :=
  (Moment.read? cs).any fun m => m.time.isSome || cs.length == 10

/-- The tag that some text gets from its form. -/
def Tag.ofForm (s : String) : Tag :=
  let cs := s.toList
  if (truthWords.lookup s).isSome then .truth
  else if isReal cs then .real
  else if isNatural (takeSign cs).2 then .integer
  else if s = "<<" then .merge
  else if nullWords.contains s then .null
  else if isMoment cs then .moment
  else if s = "=" then .value
  else .text

/-- The tag of text without quotes. A line feed at its end does not count, unless it is all there
is. -/
def Tag.ofPlain (s : String) : Tag :=
  if s = "\n" then .text else .ofForm (String.ofList (dropFinalNewline s.toList))

end Ontogram.Yaml
