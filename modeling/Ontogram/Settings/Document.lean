import Ontogram.Settings
import Ontogram.Yaml.Write

set_option autoImplicit false

namespace Ontogram.Settings

/-- The settings as one value with two sections. -/
def value (s : Settings) : Value :=
  .map [
    (.text "translation", .map [
      (.text "base_iri", s.naming.base),
      (.text "default_prefix", s.naming.baseName),
      (.text "language", s.naming.language),
      (.text "include_inferred", .scalar (.bool s.naming.inferred)),
      (.text "namespaces", .map s.naming.namespaces)]),
    (.text "query", .map [
      (.text "timeout_seconds", s.query.timeout),
      (.text "max_solutions", s.query.maxSolutions)])]

/-- Settings are checked when they are read from their value. -/
theorem read_value (s : Settings) : read s.value = s.checked := by
  have namespaces : entriesOf (.map s.naming.namespaces) = .ok s.naming.namespaces := by
    rw [entriesOf]
    cases s.naming.namespaces <;> rfl
  simp [read, value, section?, Fields.get?, Value.entry?, Scalar.same, Value.given, readNaming,
    readQuery, namespaces, Scalar.given, bind, Except.bind, pure, Except.pure]

def document (s : Settings) : String :=
  Yaml.write s.value

/-- The settings that a text holds; a text without a value holds the defaults. -/
def ofDocument (path text : String) : Except SettingsError Settings :=
  match Yaml.read text with
  | .error fault => .error (.unreadable fault)
  | .ok v =>
    if !v.given then read (.map [])
    else
      match v with
      | .map entries => read (.map entries)
      | _ => .error (.notMapAtTop path)

/-- Whether the settings are the same when they are read from their own document. -/
def reloads (s : Settings) : Except SettingsError Bool := do
  let again ← ofDocument "" s.document
  return s.value.same again.value

end Ontogram.Settings
