import Ontogram.Yaml.Block

set_option autoImplicit false

namespace Ontogram.Yaml

/-- A tag as it is written: a handle, if it has one, and what follows it. -/
structure TagName where
  handle : Option String
  suffix : String
deriving DecidableEq

/-- A line in front of a document that says how to read it. -/
inductive Directive where
  | version (major : Nat)
  /-- What a handle stands for. -/
  | handle (handle stem : String)
  /-- A directive of no known kind. -/
  | unknown
deriving DecidableEq

def isLabelChar (c : Char) : Bool :=
  c.isAlphanum || c == '-' || c == '_'

def label? (cs : List Char) : Option (String × List Char) :=
  let label := cs.takeWhile isLabelChar
  if label.isEmpty then none else some (String.ofList label, cs.drop label.length)

def anchorName? (cs : List Char) : Option (String × List Char) := do
  let (label, rest) ← label? cs
  if rest.head?.all fun c => isGap c || "?:,]\x7d%@\x60".toList.contains c then
    return (label, rest)
  else none

def isTagChar (c : Char) : Bool :=
  c.isAlphanum || "-;/?:@&=+$,_.!~*\x27()[]%".toList.contains c

/-- The octets that percent signs with two hexadecimal digits write at the front of a text. -/
def percentOctets : List Char → Option (List UInt8 × List Char)
  | '%' :: a :: b :: cs => do
    let high ← Json.hexValue? a
    let low ← Json.hexValue? b
    let (octets, rest) ← percentOctets cs
    return (UInt8.ofNat (high * 16 + low) :: octets, rest)
  | '%' :: _ => none
  | cs => some ([], cs)

/-- The rest of a tag. Percent signs write the octets of characters. -/
def tagText (fuel : Nat) (cs : List Char) : Option (List Char × List Char) :=
  match fuel, cs with
  | 0, _ => none
  | _, [] => some ([], [])
  | fuel + 1, c :: rest =>
    if c = '%' then do
      let (octets, rest) ← percentOctets cs
      let s ← String.fromUTF8? octets.toByteArray
      let (more, rest) ← tagText fuel rest
      return (s.toList ++ more, rest)
    else if isTagChar c then do
      let (more, rest) ← tagText fuel rest
      return (c :: more, rest)
    else some ([], c :: rest)

def tagText? (cs : List Char) : Option (String × List Char) := do
  let (text, rest) ← tagText (cs.length + 1) cs
  if rest.length = cs.length then none else return (String.ofList text, rest)

/-- A handle, behind its first exclamation mark. The handle may be that mark alone, when a blank
follows. -/
def handle? (cs : List Char) : Option (String × List Char) :=
  if cs.head? == some ' ' then some ("!", cs)
  else
    let label := cs.takeWhile isLabelChar
    match cs.drop label.length with
    | '!' :: rest => some (String.ofList ('!' :: label ++ ['!']), rest)
    | _ => none

/-- Whether a second exclamation mark stands in a tag. -/
def hasHandle (cs : List Char) : Bool :=
  (cs.takeWhile fun c => c != ' ' && !isBreak c).contains '!'

/-- A tag behind its sign, whatever follows it. -/
def tagBody? (cs : List Char) : Option (TagName × List Char) :=
  match cs with
  | '<' :: rest => do
    let (text, rest) ← tagText? rest
    match rest with
    | '>' :: rest => return (⟨none, text⟩, rest)
    | _ => none
  | _ =>
    if atGap cs then some (⟨none, "!"⟩, cs)
    else do
      let (handle, rest) ← if hasHandle cs then handle? cs else some ("!", cs)
      let (text, rest) ← tagText? rest
      return (⟨some handle, text⟩, rest)

def tagName? (cs : List Char) : Option (TagName × List Char) := do
  let (tag, rest) ← tagBody? cs
  if atBlank rest then return (tag, rest) else none

def versionNumber? (cs : List Char) : Option (Nat × List Char) :=
  let ds := cs.takeWhile Text.isAsciiDigit
  if ds.isEmpty then none else some (Text.asciiNumber ds, cs.drop ds.length)

def version? (cs : List Char) : Option (Directive × List Char) := do
  let (major, rest) ← versionNumber? (cs.dropWhile (· == ' '))
  match rest with
  | '.' :: rest =>
    let (_, rest) ← versionNumber? rest
    if atBlank rest then return (.version major, rest) else none
  | _ => none

def handleMeaning? (cs : List Char) : Option (Directive × List Char) := do
  match cs.dropWhile (· == ' ') with
  | '!' :: rest =>
    let (handle, rest) ← handle? rest
    if rest.head? != some ' ' then none
    else
      let (stem, rest) ← tagText? (rest.dropWhile (· == ' '))
      if atBlank rest then return (.handle handle stem, rest) else none
  | _ => none

/-- A directive behind its sign, and the text behind its line. -/
def directive? (cs : List Char) : Option (Directive × List Char) := do
  let (word, rest) ← label? cs
  if !atBlank rest then none
  else
    let (directive, rest) ←
      if word = "YAML" then version? rest
      else if word = "TAG" then handleMeaning? rest
      else some (Directive.unknown, rest.dropWhile fun c => !isBreak c)
    return (directive, ← emptyRest? rest)

end Ontogram.Yaml
