import Ontogram.Encoding
import Ontogram.Settings
import Ontogram.Turtle

set_option autoImplicit false

namespace Ontogram

/-- The prefixes in force, in the order of first writing. -/
structure Prefixes where
  entries : List (Scalar × Value) := []

namespace Prefixes

/-- Writes one entry. -/
def insert (p : Prefixes) (key : Scalar) (space : Value) : Prefixes :=
  ⟨Value.putEntry key space p.entries⟩

/-- Writes entries one after the other. -/
def insertAll (p : Prefixes) (entries : List (Scalar × Value)) : Prefixes :=
  entries.foldl (fun p e => p.insert e.1 e.2) p

def textEntries (entries : List (String × String)) : List (Scalar × Value) :=
  entries.map fun e => (.text e.1, .text e.2)

def ofTable (t : Table String) : Prefixes :=
  ⟨textEntries t.entries⟩

/-- An entry in which both the name and the namespace are texts. -/
def textEntry? : Scalar × Value → Option (String × String)
  | (.text key, .scalar (.text space)) => some (key, space)
  | _ => none

/-- The table of the entries that are texts. -/
def texts (p : Prefixes) : Table String :=
  ⟨p.entries.filterMap textEntry?⟩

/-- The name in an entry that is of no use to it. A namespace that is null is passed by. -/
def unusableKey? : Scalar × Value → Option String
  | (.text _, .scalar .null) | (.text _, .scalar (.text _)) => none
  | (.text key, _) => some key
  | _ => none

/-- The names whose namespaces are of no use to them. -/
def unusable (p : Prefixes) : List String :=
  p.entries.filterMap unusableKey?

/-- What `f` makes of the texts, unless it depends on what an unusable name stands for: then it is
something else when these names stand for nothing. -/
def apply {α : Type} (p : Prefixes) (same : α → α → Bool) (f : Table String → α) :
    Except SettingsError α :=
  let made := f p.texts
  if p.unusable.isEmpty || same made (f (p.texts.insertAll (p.unusable.map fun key => (key, ""))))
  then .ok made
  else .error .wrongKind

def shortEntry? : Scalar × Value → Option (String × String)
  | (key, .scalar (.text space)) => some (key.written, space)
  | _ => none

/-- Whether an IRI cannot be tried against the namespace of an entry. -/
def isUntried (e : Scalar × Value) : Bool :=
  e.2.given && e.2.text?.isNone

/-- The text of a list of triples. -/
def turtle (p : Prefixes) (triples : List Triple) : Except SettingsError String :=
  if !triples.isEmpty && p.entries.any isUntried then .error .wrongKind
  else
    .ok (Turtle.formatBelow
      (p.entries.map fun e => Turtle.prefixLine (e.1.written, e.2.written))
      ⟨p.entries.filterMap shortEntry?⟩ triples)

theorem ofTable_insert (t : Table String) (key space : String) :
    ofTable (t.insert key space) = (ofTable t).insert (.text key) (.text space) := by
  obtain ⟨es⟩ := t
  simp only [ofTable, insert, Table.insert, textEntries, mk.injEq]
  induction es with
  | nil => rfl
  | cons e es ih =>
    obtain ⟨k, v⟩ := e
    by_cases h : key = k
    · simp [Table.put, Value.putEntry, Scalar.same, h]
    · simp [Table.put, Value.putEntry, Scalar.same, h, ih]

theorem ofTable_insertAll (t : Table String) (es : List (String × String)) :
    ofTable (t.insertAll es) = (ofTable t).insertAll (textEntries es) := by
  induction es generalizing t with
  | nil => rfl
  | cons e es ih =>
    have h := ih (t.insert e.1 e.2)
    rw [ofTable_insert] at h
    exact h

theorem ofTable_ofList (es : List (String × String)) :
    ofTable (Table.ofList es) = insertAll {} (textEntries es) :=
  ofTable_insertAll ⟨[]⟩ es

@[simp] theorem texts_ofTable (t : Table String) : (ofTable t).texts = t := by
  obtain ⟨es⟩ := t
  simp only [ofTable, texts, textEntries, List.filterMap_map, Table.mk.injEq]
  exact List.filterMap_some

@[simp] theorem unusable_ofTable (t : Table String) : (ofTable t).unusable = [] := by
  simp [ofTable, unusable, textEntries, unusableKey?, Value.text]

/-- Texts are used as they are. -/
theorem apply_ofTable {α : Type} (t : Table String) (same : α → α → Bool)
    (f : Table String → α) : (ofTable t).apply same f = .ok (f t) := by
  simp [apply]

/-- Texts shorten IRIs as they are. -/
theorem turtle_ofTable (t : Table String) (triples : List Triple) :
    (ofTable t).turtle triples = .ok (Turtle.format t triples) := by
  obtain ⟨es⟩ := t
  have untried : (textEntries es).any isUntried = false := by
    simp [textEntries, isUntried, Value.text, Value.text?]
  have short : (textEntries es).filterMap shortEntry? = es := by
    simp only [textEntries, List.filterMap_map]
    exact List.filterMap_some
  have lines : (textEntries es).map (fun e => Turtle.prefixLine (e.1.written, e.2.written)) =
      es.map Turtle.prefixLine := by
    simp [textEntries, Value.text, Value.written, Scalar.written]
  simp [turtle, ofTable, untried, short, lines, Turtle.format]

end Prefixes

/-- The base in force, its name, and the prefixes. -/
structure Names where
  base : String
  baseName : Scalar
  prefixes : Prefixes

/-- The resolver of names that reads a table of prefixes. -/
def Names.resolver (n : Names) (t : Table String) : Resolver :=
  ⟨n.base, n.baseName.written, t⟩

/-- An encoding with the prefixes and the language that it was made under. -/
structure SettledEncoding where
  encoding : Encoding
  prefixes : Prefixes
  language : Value

/-- The tag of a literal as it was given; one that reads like the language in force is that
language. -/
def SettledEncoding.tag (t : SettledEncoding) (language : String) : Value :=
  if t.language.written = language then t.language else .text language

namespace NamingSettings

/-- The base in force for an ontology that may have its own. What counts as not given is the empty
text. -/
def baseFor (s : NamingSettings) (own : Option String) : Except SettingsError String :=
  match own.bind Text.nonEmpty with
  | some base => .ok base
  | none =>
    if !s.base.given then .ok ""
    else
      match s.base.text? with
      | some base => .ok base
      | none => .error .notText

/-- The name of the base in force for an ontology that may have its own. -/
def baseNameFor (s : NamingSettings) (own : Option String) : Except SettingsError Scalar :=
  match own.bind Text.nonEmpty with
  | some key => .ok (.text key)
  | none =>
    if !s.baseName.given then .ok (.text Namespace.defaultName)
    else
      match s.baseName with
      | .scalar key => .ok key
      | _ => .error .wrongKind

/-- The name of the base by which a query is given it: an empty name stays empty. -/
def queryNameFor (s : NamingSettings) (own : Option String) : Except SettingsError Scalar :=
  match own.bind Text.nonEmpty, s.baseName with
  | some key, _ => .ok (.text key)
  | none, .scalar key => .ok key
  | none, _ => .error .wrongKind

/-- The language in force for an ontology that may have its own. -/
def languageFor (s : NamingSettings) (own : Option String) : Value :=
  match own.bind Text.nonEmpty with
  | some language => .text language
  | none => if s.language.given then s.language else .text ""

/-- The namespaces in force: those of the settings, and after them those of an ontology. -/
def namespacesFor (s : NamingSettings) : Option Metadata → List (Scalar × Value)
  | none => s.namespaces
  | some m =>
    (((Prefixes.insertAll {} s.namespaces).insertAll
      (Prefixes.textEntries m.namespaces.entries))).entries

/-- The names in force for a base and a name of it that may be given, and for namespaces. -/
def namesFor (s : NamingSettings) (base baseName : Option String)
    (namespaces : List (Scalar × Value)) : Except SettingsError Names := do
  let base := Namespace.closed (← s.baseFor base)
  let baseName ← s.baseNameFor baseName
  let standard := Prefixes.ofTable (Table.ofList Namespace.standard)
  return { base, baseName
           prefixes := (standard.insert baseName (.text base)).insertAll namespaces }

/-- Encodes entities and relations of an ontology that may have settings of its own. -/
def encode (s : NamingSettings) (entities : List Entity) (relations : List Relation)
    (own : Option Metadata) : Except SettingsError SettledEncoding := do
  let names ← s.namesFor (own.bind Metadata.baseIri) (own.bind Metadata.defaultPrefix)
    (s.namespacesFor own)
  let language := s.languageFor (own.bind Metadata.language)
  let encoding ← names.prefixes.apply (fun a b => a.triples == b.triples) fun t =>
    Encoding.withResolver (names.resolver t) language.written s.inferred entities relations own
  let settled : SettledEncoding := ⟨encoding, names.prefixes, language⟩
  match language with
  | .scalar _ => return settled
  | v => if encoding.isTagged v.written then throw .wrongKind else return settled

/-- Lowers a class expression for a base and a name of it that may be given. -/
def lower (s : NamingSettings) (base baseName : Option String) (expression : String) :
    Except SettingsError Lowered := do
  let names ← s.namesFor base baseName s.namespaces
  names.prefixes.apply (fun a b => a.ref == b.ref && a.triples == b.triples) fun t =>
    Expression.lowerText (names.resolver t) expression 0

def ofNaming (d : Naming) : NamingSettings :=
  { base := .text d.base
    baseName := .text d.baseName
    language := .text d.language
    inferred := d.inferred
    namespaces := Prefixes.textEntries d.namespaces }

theorem baseFor_ofNaming (d : Naming) (own : Option String) :
    (ofNaming d).baseFor own = .ok (Text.orElse own d.base) := by
  unfold baseFor Text.orElse
  cases own.bind Text.nonEmpty with
  | some _ => rfl
  | none =>
    by_cases h : d.base = "" <;>
      simp [ofNaming, Value.text, Value.given, Scalar.given, Value.text?, h]

theorem baseNameFor_ofNaming (d : Naming) (own : Option String) :
    (ofNaming d).baseNameFor own =
      .ok (.text (let key := Text.orElse own d.baseName
        if key = "" then Namespace.defaultName else key)) := by
  unfold baseNameFor Text.orElse
  cases h : own.bind Text.nonEmpty with
  | some key =>
    obtain ⟨o, -, ho⟩ := Option.bind_eq_some_iff.1 h
    have : key ≠ "" := by
      unfold Text.nonEmpty at ho
      split at ho
      · simp at ho
      · simp_all
    simp [this]
  | none =>
    by_cases h : d.baseName = "" <;>
      simp [ofNaming, Value.text, Value.given, Scalar.given, h]

theorem queryNameFor_ofNaming (d : Naming) (own : Option String) :
    (ofNaming d).queryNameFor own = .ok (.text (Text.orElse own d.baseName)) := by
  unfold queryNameFor Text.orElse
  cases own.bind Text.nonEmpty <;> rfl

theorem languageFor_ofNaming (d : Naming) (own : Option String) :
    (ofNaming d).languageFor own = .text (Text.orElse own d.language) := by
  unfold languageFor Text.orElse
  cases own.bind Text.nonEmpty with
  | some _ => rfl
  | none =>
    by_cases h : d.language = "" <;>
      simp [ofNaming, Value.text, Value.given, Scalar.given, h]

theorem namesFor_ofNaming (d : Naming) (base baseName : Option String)
    (namespaces : List (String × String)) :
    let r := Resolver.create (Text.orElse base d.base) (Text.orElse baseName d.baseName) namespaces
    (ofNaming d).namesFor base baseName (Prefixes.textEntries namespaces) =
      .ok ⟨r.base, .text r.baseName, .ofTable r.prefixes⟩ := by
  simp only [namesFor, baseFor_ofNaming, baseNameFor_ofNaming, Resolver.create,
    Prefixes.ofTable_insertAll, Prefixes.ofTable_insert]
  rfl

theorem namespacesFor_ofNaming (d : Naming) (own : Option Metadata) :
    (ofNaming d).namespacesFor own =
      Prefixes.textEntries ((own.map d.withMetadata).getD d).namespaces := by
  cases own with
  | none => rfl
  | some m =>
    simp only [namespacesFor, ofNaming, Option.map_some, Option.getD_some, Naming.withMetadata,
      ← Prefixes.ofTable_ofList, ← Prefixes.ofTable_insertAll]
    rfl

/-- Settings that are texts give the encoding of their naming defaults. -/
theorem encode_ofNaming (d : Naming) (entities : List Entity) (relations : List Relation)
    (own : Option Metadata) :
    let t := Encoding.build d entities relations own
    (ofNaming d).encode entities relations own =
      .ok ⟨t, .ofTable t.prefixes, .text ((own.map d.withMetadata).getD d).language⟩ := by
  simp only [encode, namespacesFor_ofNaming, namesFor_ofNaming, languageFor_ofNaming]
  cases own <;> simp only [Except.bind, bind, Prefixes.apply_ofTable] <;> rfl

end NamingSettings

end Ontogram
