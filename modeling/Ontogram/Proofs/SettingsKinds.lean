import Ontogram.Proofs.QueryReply

set_option autoImplicit false

namespace Ontogram

/-- Whether an error says that settings are not valid. -/
def SettingsError.isRefusal : SettingsError → Bool
  | .badBaseName _ | .emptyBase | .badTimeout | .badMaxSolutions | .unreadableTimeout _
  | .notMapAtTop _ => true
  | .notMap | .notText | .wrongKind | .wrongSize _ _ | .unreadable _ => false

namespace Value

/-- A number; a truth value is none. -/
inductive IsNumber : Value → Prop where
  | int (n : Int) : IsNumber (.scalar (.int n))
  | real (x : Float) : IsNumber (.scalar (.real x))

def IsTextTable (entries : List (Scalar × Value)) : Prop :=
  ∀ e ∈ entries, ∃ key s, e = (.text key, text s)

theorem isLimit_of_isNumber {v : Value} (h : v = .null ∨ v.IsNumber) : Budget.IsLimit v := by
  refine h.imp_right fun number => ?_
  cases number with
  | int n => exact ⟨.int n, rfl⟩
  | real x => exact ⟨.real x, rfl⟩

end Value

namespace Settings

/-- Settings of the right kinds. -/
structure IsTyped (s : Settings) : Prop where
  base : ∃ iri, s.naming.base = .text iri ∧ iri ≠ ""
  baseName : ∃ name, s.naming.baseName = .text name ∧ name ≠ ""
  namespaces : Value.IsTextTable s.naming.namespaces
  timeout : s.query.timeout = .null ∨ s.query.timeout.IsNumber
  maxSolutions : s.query.maxSolutions = .null ∨
    ∃ n : Int, s.query.maxSolutions = .scalar (.int n) ∧ 1 ≤ n

/-- A result of which something holds, or an error that says that settings are not valid. -/
def Settles {α : Type} (P : α → Prop) : Except SettingsError α → Prop
  | .ok a => P a
  | .error e => e.isRefusal = true

/-- A limit that is no number below a bound. -/
def Passes (admits : Scalar → Bool) (v : Value) : Prop :=
  ∀ n, Budget.number? v = some n → admits n = true

/-- Every check that is reached can deal with its value, and what passes all checks is of the right
kind. -/
def IsAnswered (s : Settings) : Prop :=
  ∃ name, s.naming.baseName = .text name ∧
    (isPlainName name = true → s.naming.base.given = true →
      Budget.IsLimit s.query.timeout ∧ (Passes isPositive s.query.timeout →
        Budget.IsLimit s.query.maxSolutions ∧ (Passes isAtLeastOne s.query.maxSolutions →
          s.IsTyped)))

/-! The checks. -/

section Checks

variable {α β : Type} {P : α → Prop} {Q : β → Prop}

theorem settles_bind (x : Except SettingsError α) (f : α → Except SettingsError β) :
    Settles Q (x.bind f) ↔ Settles (fun a => Settles Q (f a)) x := by
  cases x <;> rfl

/-- A step that never refuses has to succeed. -/
theorem settles_iff_exists {x : Except SettingsError α}
    (stray : ∀ e, x = .error e → e.isRefusal = false) : Settles P x ↔ ∃ a, x = .ok a ∧ P a := by
  cases x with
  | ok a => exact ⟨fun h => ⟨a, rfl, h⟩, fun ⟨_, same, h⟩ => Except.ok.inj same ▸ h⟩
  | error e =>
    refine ⟨fun h => ?_, fun ⟨_, same, _⟩ => by cases same⟩
    rw [Settles, stray e rfl] at h
    cases h

theorem settles_checkBaseName {P : Unit → Prop} (v : Value) : Settles P (checkBaseName v) ↔
    ∃ name, v = .text name ∧ (isPlainName name = true → P ()) := by
  have stray {e : SettingsError} (other : ∀ name, v ≠ .text name) (h : e.isRefusal = false) :
      Settles P (.error e) ↔ ∃ name, v = .text name ∧ (isPlainName name = true → P ()) := by
    rw [Settles, h]
    exact ⟨nofun, fun ⟨name, same, _⟩ => absurd same (other name)⟩
  cases v with
  | scalar n =>
    cases n with
    | text name =>
      have own : (∃ other, Value.scalar (.text name) = .text other ∧
          (isPlainName other = true → P ())) ↔ (isPlainName name = true → P ()) :=
        ⟨fun ⟨_, same, h⟩ => by cases same; exact h, fun h => ⟨name, rfl, h⟩⟩
      rw [own, checkBaseName]
      cases isPlainName name with
      | true => exact ⟨fun h _ => h, fun h => h rfl⟩
      | false => exact ⟨fun _ => nofun, fun _ => rfl⟩
    | null | bool | int | real | moment | octets => exact stray (fun _ => nofun) rfl
  | list | map => exact stray (fun _ => nofun) rfl

theorem settles_checkLimit {P : Unit → Prop} {fault : SettingsError}
    (refusal : fault.isRefusal = true) (admits : Scalar → Bool) (v : Value) :
    Settles P (checkLimit fault admits v) ↔ Budget.IsLimit v ∧ (Passes admits v → P ()) := by
  have stray {v : Value} (some : v ≠ .null) (none : Budget.number? v = none) :
      Settles P (.error .wrongKind) ↔ Budget.IsLimit v ∧ (Passes admits v → P ()) := by
    refine ⟨nofun, fun h => ?_⟩
    rcases h.1 with null | ⟨n, number⟩
    · exact absurd null some
    · rw [none] at number
      cases number
  have number {v : Value} {n : Scalar} (number : Budget.number? v = some n) :
      Settles P (if admits n then .ok () else .error fault) ↔
        Budget.IsLimit v ∧ (Passes admits v → P ()) := by
    have passes : Passes admits v ↔ admits n = true :=
      ⟨fun h => h n number, fun h m same => Option.some.inj (number.symm.trans same) ▸ h⟩
    have limit : Budget.IsLimit v := Or.inr ⟨n, number⟩
    rw [passes, and_iff_right limit]
    cases admits n with
    | true => exact ⟨fun h _ => h, fun h => h rfl⟩
    | false => exact ⟨fun _ => nofun, fun _ => refusal⟩
  cases v with
  | scalar n =>
    cases n with
    | null => exact ⟨fun h => ⟨Or.inl rfl, fun _ => h⟩, fun h => h.2 nofun⟩
    | bool | int | real => exact number rfl
    | text | moment | octets => exact stray nofun rfl
  | list | map => exact stray nofun rfl

/-- The checks, one after the other. -/
theorem checked_eq (s : Settings) : s.checked =
    (checkBaseName s.naming.baseName).bind fun _ =>
      if s.naming.base.given then
        (checkLimit .badTimeout isPositive s.query.timeout).bind fun _ =>
          (checkLimit .badMaxSolutions isAtLeastOne s.query.maxSolutions).bind fun _ => .ok s
      else .error .emptyBase := by
  simp only [checked, validate, bind, Except.bind]
  cases checkBaseName s.naming.baseName with
  | error e => rfl
  | ok _ =>
    cases s.naming.base.given with
    | false => rfl
    | true =>
      cases checkLimit .badTimeout isPositive s.query.timeout with
      | error e => rfl
      | ok _ =>
        cases checkLimit .badMaxSolutions isAtLeastOne s.query.maxSolutions <;> rfl

theorem settles_checked (s : Settings) : Settles IsTyped s.checked ↔ s.IsAnswered := by
  rw [checked_eq, settles_bind, settles_checkBaseName]
  refine exists_congr fun name => and_congr_right fun _ => imp_congr_right fun _ => ?_
  cases s.naming.base.given with
  | false => exact ⟨fun _ => nofun, fun _ => rfl⟩
  | true =>
    simp only [if_true, true_imp_iff]
    rw [settles_bind, settles_checkLimit rfl]
    refine and_congr_right fun _ => imp_congr_right fun _ => ?_
    rw [settles_bind, settles_checkLimit rfl]
    rfl

end Checks

/-! Documents. -/

/-- The entries of a section: none where it is absent or empty. -/
inductive HasSection (fields : Fields) (key : String) : Fields → Prop where
  | absent (none : fields.get? key = none) : HasSection fields key []
  | empty {v : Value} (found : fields.get? key = some v) (empty : v.given = false) :
      HasSection fields key []
  | map {entries : Fields} (found : fields.get? key = some (.map entries)) :
      HasSection fields key entries

/-- The settings that two sections hold, with a table of namespaces. -/
def ofSections (translation limits : Fields) (table : List (Scalar × Value)) : Settings where
  naming :=
    { base := (translation.get? "base_iri").getD (.text Namespace.defaultBase)
      baseName := (translation.get? "default_prefix").getD (.text Namespace.defaultName)
      language := (translation.get? "language").getD (.text "en")
      inferred := ((translation.get? "include_inferred").map Value.given).getD false
      namespaces := table }
  query :=
    { timeout := (limits.get? "timeout_seconds").getD .null
      maxSolutions := (limits.get? "max_solutions").getD .null }

/-- Sections in which each value that is there is of the kind that its place needs. -/
structure HaveKinds (translation limits : Fields) : Prop where
  base : ∀ v ∈ translation.get? "base_iri", ∃ iri, v = .text iri
  baseName : ∀ v ∈ translation.get? "default_prefix", ∃ name, v = .text name
  namespaces : ∀ v ∈ translation.get? "namespaces",
    v = .null ∨ ∃ entries, v = .map entries ∧ Value.IsTextTable entries
  timeout : ∀ v ∈ limits.get? "timeout_seconds", v = .null ∨ v.IsNumber
  maxSolutions : ∀ v ∈ limits.get? "max_solutions", v = .null ∨ ∃ n : Int, v = .scalar (.int n)

theorem section?_eq_ok_iff {fields entries : Fields} {key : String} :
    (section? fields key = .ok entries) ↔ HasSection fields key entries := by
  unfold section?
  constructor
  · intro h
    split at h
    · rename_i none
      cases h
      exact .absent none
    · rename_i v found
      split at h
      · rename_i empty
        cases h
        exact .empty found (by simpa using empty)
      · split at h
        · cases h
          exact .map found
        · cases h
  · intro h
    cases h with
    | absent none => rw [none]
    | empty found empty => simp [found, empty]
    | map found =>
      rw [found]
      cases entries with
      | nil => rfl
      | cons e es => rfl

theorem not_isRefusal_of_section? {fields : Fields} {key : String} {e : SettingsError}
    (h : section? fields key = .error e) : e.isRefusal = false := by
  unfold section? at h
  split at h
  · cases h
  · split at h
    · cases h
    · split at h
      · cases h
      · cases h
        rfl

theorem not_isRefusal_of_entryOf {index : Nat} {item : Value} {e : SettingsError}
    (h : entryOf index item = .error e) : e.isRefusal = false := by
  unfold entryOf at h
  split at h
  · cases h
    rfl
  · cases h
  · cases h
    rfl
  · cases h
    rfl

theorem not_isRefusal_of_entriesFrom {index : Nat} {items : List Value} {e : SettingsError}
    (h : entriesFrom index items = .error e) : e.isRefusal = false := by
  induction items generalizing index with
  | nil => cases h
  | cons item items ih =>
    simp only [entriesFrom, bind, Except.bind] at h
    split at h
    · rename_i first
      cases h
      exact not_isRefusal_of_entryOf first
    · split at h
      · rename_i others
        cases h
        exact ih others
      · cases h

theorem not_isRefusal_of_entriesOf {v : Value} {e : SettingsError}
    (h : entriesOf v = .error e) : e.isRefusal = false := by
  unfold entriesOf at h
  split at h
  · cases h
  · split at h
    · cases h
    · split at h
      · cases h
        rfl
      · simp only [bind, Except.bind] at h
        split at h
        · rename_i read
          cases h
          exact not_isRefusal_of_entriesFrom read
        · cases h

/-- The steps of reading. -/
theorem read_map (fields : Fields) : read (.map fields) =
    (section? fields "translation").bind fun translation =>
      (entriesOf ((translation.get? "namespaces").getD .null)).bind fun table =>
        (section? fields "query").bind fun limits =>
          (ofSections translation limits table).checked := by
  simp only [read, readNaming, bind, Except.bind, pure, Except.pure]
  cases section? fields "translation" with
  | error e => rfl
  | ok translation =>
    dsimp only
    cases entriesOf ((translation.get? "namespaces").getD .null) <;> rfl

theorem settles_read (fields : Fields) : Settles IsTyped (read (.map fields)) ↔
    ∃ translation, HasSection fields "translation" translation ∧
      ∃ table, entriesOf ((translation.get? "namespaces").getD .null) = .ok table ∧
        ∃ limits, HasSection fields "query" limits ∧
          (ofSections translation limits table).IsAnswered := by
  rw [read_map, settles_bind, settles_iff_exists fun _ => not_isRefusal_of_section?]
  refine exists_congr fun translation => and_congr section?_eq_ok_iff ?_
  rw [settles_bind, settles_iff_exists fun _ => not_isRefusal_of_entriesOf]
  refine exists_congr fun table => and_congr_right fun _ => ?_
  rw [settles_bind, settles_iff_exists fun _ => not_isRefusal_of_section?]
  exact exists_congr fun limits => and_congr section?_eq_ok_iff (settles_checked _)

/-- What holds of a value that is there and of the default holds of the value that is taken. -/
theorem getD_of_forall {P : Value → Prop} {found : Option Value} {plain : Value}
    (there : ∀ v ∈ found, P v) (absent : P plain) : P (found.getD plain) := by
  cases found with
  | none => exact absent
  | some v => exact there v rfl

theorem HaveKinds.exists_table {translation limits : Fields} (h : HaveKinds translation limits) :
    ∃ table, entriesOf ((translation.get? "namespaces").getD .null) = .ok table ∧
      Value.IsTextTable table := by
  have kind : (translation.get? "namespaces").getD .null = .null ∨
      ∃ entries, (translation.get? "namespaces").getD .null = .map entries ∧
        Value.IsTextTable entries := getD_of_forall h.namespaces (Or.inl rfl)
  rcases kind with null | ⟨entries, map, texts⟩
  · exact ⟨[], by rw [null]; rfl, List.forall_mem_nil _⟩
  · refine ⟨entries, ?_, texts⟩
    rw [map]
    cases entries <;> rfl

theorem isAnswered_ofSections {translation limits : Fields} (h : HaveKinds translation limits)
    {table : List (Scalar × Value)} (texts : Value.IsTextTable table) :
    (ofSections translation limits table).IsAnswered := by
  obtain ⟨iri, base⟩ : ∃ iri, (ofSections translation limits table).naming.base = .text iri :=
    getD_of_forall h.base ⟨_, rfl⟩
  obtain ⟨name, baseName⟩ :
      ∃ name, (ofSections translation limits table).naming.baseName = .text name :=
    getD_of_forall h.baseName ⟨_, rfl⟩
  have timeout : (ofSections translation limits table).query.timeout = .null ∨
      (ofSections translation limits table).query.timeout.IsNumber :=
    getD_of_forall h.timeout (Or.inl rfl)
  have maxSolutions : (ofSections translation limits table).query.maxSolutions = .null ∨
      ∃ n : Int, (ofSections translation limits table).query.maxSolutions = .scalar (.int n) :=
    getD_of_forall h.maxSolutions (Or.inl rfl)
  refine ⟨name, baseName, fun plain given =>
    ⟨Value.isLimit_of_isNumber timeout, fun _ => ⟨?_, fun passes => ?_⟩⟩⟩
  · exact maxSolutions.imp_right fun ⟨n, int⟩ => ⟨.int n, by rw [int]; rfl⟩
  -- What passes the checks is not empty, and a number of solutions is at least one.
  · refine ⟨⟨iri, base, ?_⟩, ⟨name, baseName, ?_⟩, texts, timeout, maxSolutions.imp_right ?_⟩
    · rintro rfl
      rw [base] at given
      cases given
    · rintro rfl
      cases plain
    · rintro ⟨n, int⟩
      exact ⟨n, int, of_decide_eq_true (passes (.int n) (by rw [int]; rfl))⟩

/-- A document is refused as not valid, or gives settings of the right kinds, exactly if its
sections are maps or hold nothing, its namespaces are a map or pairs, and every check that is
reached can deal with its value and leaves none of a wrong kind. Where each value that is there is
of its kind, this is so. -/
theorem settles_read_iff (fields : Fields) :
    (Settles IsTyped (read (.map fields)) ↔
      ∃ translation, HasSection fields "translation" translation ∧
        ∃ table, entriesOf ((translation.get? "namespaces").getD .null) = .ok table ∧
          ∃ limits, HasSection fields "query" limits ∧
            (ofSections translation limits table).IsAnswered) ∧
    ∀ translation limits, HasSection fields "translation" translation →
      HasSection fields "query" limits → HaveKinds translation limits →
        Settles IsTyped (read (.map fields)) := by
  refine ⟨settles_read fields, fun translation limits naming query kinds => ?_⟩
  obtain ⟨table, read, texts⟩ := kinds.exists_table
  exact (settles_read fields).2
    ⟨translation, naming, table, read, limits, query, isAnswered_ofSections kinds texts⟩

/-- A document with a name and a namespace, and with too few solutions. -/
theorem settles_read_zoo :
    let translation : Fields :=
      [(.text "default_prefix", .text "zoo"),
        (.text "namespaces", .map [(.text "a", .text "urn:a")])]
    let limits : Fields := [(.text "max_solutions", .scalar (.int 0))]
    let fields : Fields := [(.text "translation", .map translation), (.text "query", .map limits)]
    HasSection fields "translation" translation ∧ HasSection fields "query" limits ∧
      HaveKinds translation limits ∧ Settles IsTyped (read (.map fields)) ∧
      read (.map fields) = .error .badMaxSolutions := by
  intro translation limits fields
  have naming : HasSection fields "translation" translation := .map rfl
  have query : HasSection fields "query" limits := .map rfl
  have kinds : HaveKinds translation limits :=
    { base := nofun
      baseName := by
        rintro _ ⟨⟩
        exact ⟨"zoo", rfl⟩
      namespaces := by
        rintro _ ⟨⟩
        exact Or.inr ⟨_, rfl, List.forall_mem_singleton.2 ⟨"a", "urn:a", rfl⟩⟩
      timeout := nofun
      maxSolutions := by
        rintro _ ⟨⟩
        exact Or.inr ⟨0, rfl⟩ }
  exact ⟨naming, query, kinds,
    (settles_read_iff fields).2 translation limits naming query kinds, rfl⟩

/-- A number in the place of a name is not refused as such. -/
theorem not_settles_read : ¬ ∀ fields : Fields, Settles IsTyped (read (.map fields)) := fun all =>
  Bool.false_ne_true
    (all [(.text "translation", .map [(.text "default_prefix", .scalar (.int 5))])])

end Settings

end Ontogram
