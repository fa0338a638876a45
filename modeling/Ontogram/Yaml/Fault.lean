import Ontogram.Text.Quoted
import Ontogram.Yaml.Moment

set_option autoImplicit false

namespace Ontogram.Yaml

/-- Why a text is no document. -/
inductive Fault where
  /-- The text holds a character that no document may hold. -/
  | badCharacter
  /-- The text cannot be cut into tokens. -/
  | lexical
  /-- An escape names a character beyond the last one. -/
  | noCharacter
  /-- An escape names a character far beyond the last one. -/
  | farCharacter
  /-- A token stands where it must not. -/
  | structural
  /-- The text holds several documents. -/
  | severalDocuments
  /-- No tree has the anchor that an alias names. -/
  | unknownAnchor (label : String)
  /-- Two trees have one anchor. -/
  | repeatedAnchor (label : String)
  /-- No kind of value has this tag. -/
  | unknownTag (tag : String)
  /-- A tree has another shape than its tag asks for. -/
  | badShape
  /-- A key is no scalar. -/
  | badKey
  /-- The octets in a text cannot be told. -/
  | badOctets
  /-- A truth value is none of the words for it. -/
  | noTruth (word : String)
  /-- A number has no digits at all. -/
  | emptyNumber
  | badInteger (base : Nat) (digits : String)
  | badReal (digits : String)
  /-- A place of a number in base sixty is too large. -/
  | farPlace
  /-- A text has not the form of a moment. -/
  | noMoment
  /-- A mapping stands in the place of the text of a moment. -/
  | momentOfParts
  | badMoment (fault : CalendarFault)
deriving DecidableEq

namespace Fault

/-- The wording of a fault, if it has one. -/
def message? : Fault → Option String
  | noCharacter => some "chr() arg not in range(0x110000)"
  | noTruth word => some (Text.quoted word)
  | emptyNumber => some "string index out of range"
  | badInteger base digits =>
    some ("invalid literal for int() with base " ++ toString base ++ ": " ++
      String.ofList ((Text.quoted digits).toList.take 200))
  | badReal digits => some ("could not convert string to float: " ++ Text.quoted digits)
  | badMoment fault => some fault.message
  | _ => none

end Fault

end Ontogram.Yaml
