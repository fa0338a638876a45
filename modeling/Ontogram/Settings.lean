import Ontogram.Diagram.Read
import Ontogram.Query.Session
import Ontogram.Text.Word
import Ontogram.Yaml.Content

/-!
Settings: the naming defaults of encodings and the budget of queries, as documents and the
environment give them. A section that is absent or empty takes its defaults. Reading checks shapes
first, section by section, and then the values in a fixed order, and reports the first fault.

The base, the language and the namespaces may be any value: only an encoding that needs them refuses
what it cannot use.
-/

set_option autoImplicit false

namespace Ontogram

/-- Why settings are refused. -/
inductive SettingsError where
  /-- A map was expected. -/
  | notMap
  /-- A text was expected. -/
  | notText
  /-- A value is of a kind that its place does not allow: no number to compare with, no entries, no
  key. -/
  | wrongKind
  /-- An item in the place of an entry has not two parts. -/
  | wrongSize (index size : Nat)
  /-- The name of the base holds more than letters, digits, underscores and hyphens. -/
  | badBaseName (name : String)
  | emptyBase
  | badTimeout
  | badMaxSolutions
  /-- A text in the place of a number of seconds. -/
  | unreadableTimeout (text : String)
  /-- A document holds something other than a map. -/
  | notMapAtTop (path : String)
  /-- A document cannot be read. -/
  | unreadable (fault : Yaml.Fault)

namespace SettingsError

/-- The wording of an error, if it has one. -/
def message? : SettingsError → Option String
  | notMap | notText | wrongKind => none
  | unreadable fault => fault.message?
  | wrongSize index size =>
    some ("dictionary update sequence element #" ++ toString index ++ " has length " ++
      toString size ++ "; 2 is required")
  | badBaseName name => some ("default_prefix must be a plain name, got " ++ Text.quoted name)
  | emptyBase => some "base_iri must not be empty"
  | badTimeout => some "timeout_seconds must be positive"
  | badMaxSolutions => some "max_solutions must be at least 1"
  | unreadableTimeout text =>
    some ("ONTOWEAVE_QUERY_TIMEOUT is not a number: " ++ Text.quoted text)
  | notMapAtTop path => some ("Expected a mapping at the top of " ++ path)

end SettingsError

/-- The naming defaults as they were given. -/
structure NamingSettings where
  base : Value := .text Namespace.defaultBase
  baseName : Value := .text Namespace.defaultName
  language : Value := .text "en"
  inferred : Bool := false
  namespaces : List (Scalar × Value) := []

/-- The limits of queries as they were given; null means none. -/
structure QuerySettings where
  timeout : Value := .null
  maxSolutions : Value := .null

/-- All settings. -/
structure Settings where
  naming : NamingSettings := {}
  query : QuerySettings := {}

namespace Settings

/-- The parts of an item in the place of an entry. -/
def partsOf? : Value → Option (List Value)
  | .list items => some items
  | .map entries => some (entries.map fun e => .scalar e.1)
  | .scalar (.text s) => some (s.toList.map fun c => .text (String.ofList [c]))
  | .scalar (.octets bytes) => some (bytes.map fun b => .scalar (.int b.toNat))
  | .scalar _ => none

/-- The entry that an item at some index writes. -/
def entryOf (index : Nat) (item : Value) : Except SettingsError (Scalar × Value) :=
  match partsOf? item with
  | none => .error .wrongKind
  | some [.scalar key, value] => .ok (key, value)
  | some [_, _] => .error .wrongKind
  | some parts => .error (.wrongSize index parts.length)

/-- The entries that items write, the first of them at some index. -/
def entriesFrom (index : Nat) : List Value → Except SettingsError (List (Scalar × Value))
  | [] => .ok []
  | item :: items => do
    let entry ← entryOf index item
    let entries ← entriesFrom (index + 1) items
    return entry :: entries

/-- The entries of a value that is a map, or a list of pairs. -/
def entriesOf (v : Value) : Except SettingsError (List (Scalar × Value)) :=
  if !v.given then .ok []
  else
    match v with
    | .map entries => .ok entries
    | v =>
      match partsOf? v with
      | none => .error .wrongKind
      | some items => do
        let entries ← entriesFrom 0 items
        return entries.foldl (fun es e => Value.putEntry e.1 e.2 es) []

def section? (fields : Fields) (key : String) : Except SettingsError Fields :=
  match fields.get? key with
  | none => .ok []
  | some v =>
    if !v.given then .ok []
    else
      match v with
      | .map entries => .ok entries
      | _ => .error .notMap

def readNaming (fields : Fields) : Except SettingsError NamingSettings := do
  let plain : NamingSettings := {}
  let namespaces ← entriesOf ((fields.get? "namespaces").getD .null)
  return {
    base := (fields.get? "base_iri").getD plain.base
    baseName := (fields.get? "default_prefix").getD plain.baseName
    language := (fields.get? "language").getD plain.language
    inferred := ((fields.get? "include_inferred").map Value.given).getD plain.inferred
    namespaces }

def readQuery (fields : Fields) : QuerySettings :=
  { timeout := (fields.get? "timeout_seconds").getD .null
    maxSolutions := (fields.get? "max_solutions").getD .null }

/-- Whether a text is made of letters, digits, underscores and hyphens, with at least one letter or
digit. -/
def isPlainName (name : String) : Bool :=
  let cs := name.toList.filter fun c => c ≠ '_' && c ≠ '-'
  !cs.isEmpty && cs.all Text.isAlnum

def checkBaseName (v : Value) : Except SettingsError Unit :=
  match v with
  | .scalar (.text name) => if isPlainName name then .ok () else .error (.badBaseName name)
  | .scalar (.moment _) | .scalar (.octets _) => .error .wrongKind
  | _ => .error .notText

/-- Checks a limit: null, or a number of which `admits` holds. -/
def checkLimit (fault : SettingsError) (admits : Scalar → Bool) : Value → Except SettingsError Unit
  | .scalar .null => .ok ()
  | .scalar (.text _) | .scalar (.moment _) | .scalar (.octets _) => .error .wrongKind
  | .scalar n => if admits n then .ok () else .error fault
  | _ => .error .wrongKind

/-- Whether a number is not zero or less. -/
def isPositive : Scalar → Bool
  | .real x => !decide (x ≤ 0)
  | n => (n.int?.map fun m => decide (0 < m)).getD false

/-- Whether a number is not less than one. -/
def isAtLeastOne : Scalar → Bool
  | .real x => !decide (x < 1)
  | n => (n.int?.map fun m => decide (1 ≤ m)).getD false

/-- Checks the values of settings. -/
def validate (s : Settings) : Except SettingsError Unit := do
  checkBaseName s.naming.baseName
  if !s.naming.base.given then throw .emptyBase
  checkLimit .badTimeout isPositive s.query.timeout
  checkLimit .badMaxSolutions isAtLeastOne s.query.maxSolutions

/-- Settings whose values have been checked. -/
def checked (s : Settings) : Except SettingsError Settings :=
  match s.validate with
  | .ok () => .ok s
  | .error e => .error e

def read (document : Value) : Except SettingsError Settings :=
  match document with
  | .map fields => do
    let naming ← readNaming (← section? fields "translation")
    let limits ← section? fields "query"
    checked { naming, query := readQuery limits }
  | _ => .error .notMap

/-- The settings of an environment: a base, a name for it, and a number of seconds. An empty number
counts as none. -/
def ofEnvironment (base baseName timeout : Option String) : Except SettingsError Settings := do
  let plain : NamingSettings := {}
  let naming : NamingSettings :=
    { plain with
      base := (base.map Value.text).getD plain.base
      baseName := (baseName.map Value.text).getD plain.baseName }
  match timeout.bind Text.nonEmpty with
  | none => checked { naming }
  | some text =>
    match Decimal.readText? text with
    | some seconds => checked { naming, query := { timeout := .scalar (.real seconds) } }
    | none => throw (.unreadableTimeout text)

def budget (s : Settings) : Budget :=
  ⟨s.query.timeout, s.query.maxSolutions⟩

end Settings

end Ontogram
