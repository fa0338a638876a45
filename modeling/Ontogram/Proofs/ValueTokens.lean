import Ontogram.Proofs.EntryTokens

set_option autoImplicit false

namespace Ontogram

namespace Value

mutual

/-- Whether a value is made of visible scalars and of maps whose keys stand on one line, no two of
them equal. -/
def isVisible : Value → Bool
  | scalar s => s.isVisible
  | list _ => false
  | map es => areVisible es

/-- Whether the entries of a map are. -/
def areVisible : List (Scalar × Value) → Bool
  | [] => true
  | (k, v) :: es =>
    k.isVisible && (Yaml.Sheet.ofScalar k).isSimpleKey && v.isVisible &&
      es.all (fun e => !e.1.same k) && areVisible es

end

end Value

namespace Yaml

open Text (ne_of_class)

mutual

/-- The tokens of a value; lists are left out. -/
def tokensOf : Value → List Token
  | .scalar s => [(Sheet.ofScalar s).token]
  | .list _ => []
  | .map [] => [.flowMapping, .flowMappingEnd]
  | .map ((k, v) :: es) =>
    .blockMapping :: .key :: (Sheet.ofScalar k).token :: .value :: (tokensOf v ++ entryTokens es) ++
      [.blockEnd]

def entryTokens : List (Scalar × Value) → List Token
  | [] => []
  | (k, v) :: es => .key :: (Sheet.ofScalar k).token :: .value :: (tokensOf v ++ entryTokens es)

end

theorem entryTokens_cons (k : Scalar) (v : Value) (es : List (Scalar × Value)) :
    entryTokens ((k, v) :: es) =
      [.key, (Sheet.ofScalar k).token, .value] ++ tokensOf v ++ entryTokens es := by
  rw [entryTokens]
  rfl

theorem tokensOf_map (e : Scalar × Value) (es : List (Scalar × Value)) :
    tokensOf (.map (e :: es)) = .blockMapping :: (entryTokens (e :: es) ++ [.blockEnd]) := by
  rw [tokensOf, entryTokens]
  rfl

/-- What stands behind the colon of a key in some column; lists are left out. -/
def behindColon (indent : Nat) : Value → List Char
  | .scalar s => ' ' :: (Sheet.ofScalar s).written
  | .list _ => []
  | .map [] => [' ', '\x7b', '\x7d']
  | .map (e :: es) => entries (indent + 2) (e :: es)

/-- A line of a text and what follows it. -/
structure Line where
  column : Nat
  text : List Char

namespace Line

/-- A line behind another one. -/
def afterBreak (l : Line) : List Char :=
  '\n' :: (List.replicate l.column ' ' ++ l.text)

/-- The line behind an entry: that of the next one, if there is one. -/
def ofEntries (indent : Nat) (last : Line) : List (Scalar × Value) → Line
  | [] => last
  | (k, v) :: es => ⟨indent, entry indent k v ++ (entries indent es ++ last.afterBreak)⟩

theorem afterBreak_ofEntries (indent : Nat) (last : Line) (es : List (Scalar × Value)) :
    (ofEntries indent last es).afterBreak = entries indent es ++ last.afterBreak := by
  cases es with
  | nil => rw [entries, ofEntries, List.nil_append]
  | cons e es =>
    rw [entries, ofEntries, afterBreak, lineTo, Margins.newLine]
    simp only [List.cons_append, List.append_assoc]

theorem column_ofEntries {indent : Nat} {last : Line} (inner : last.column ≤ indent)
    (es : List (Scalar × Value)) : (ofEntries indent last es).column ≤ indent := by
  cases es with
  | nil => exact inner
  | cons e es => exact Nat.le_refl indent

end Line

/-- A colon is no part of a mark. -/
theorem atMark_append {cs : List Char} (unmarked : startsMark cs = false) (rest : List Char) :
    atMark (cs ++ ':' :: rest) = false := by
  rcases cs with _ | ⟨b, _ | ⟨c, _ | ⟨d, cs⟩⟩⟩
  · simp [atMark]
  · simp [atMark]
  · simp [atMark]
  · simp only [startsMark, List.cons_append] at unmarked ⊢
    unfold atMark
    split <;> simp_all

section Layout

variable {k : Scalar} (visible : k.isVisible = true)
  (simple : (Sheet.ofScalar k).isSimpleKey = true)
include visible simple

theorem entry_eq {v : Value} (inner : v.isVisible = true) (indent : Nat) :
    entry indent k v = (Sheet.ofScalar k).written ++ ':' :: behindColon indent v := by
  have key (m : Margins) : (Sheet.ofScalar k).form m indent = (Sheet.ofScalar k).written :=
    Sheet.form_eq (isVisible_text visible) m indent
  rw [entry]
  simp only [simple, key, if_true]
  cases v with
  | scalar s =>
    have value (m : Margins) (column : Nat) := Sheet.form_eq (isVisible_text inner) m column
    simp only [scalarForm, value, behindColon, List.append_assoc, List.singleton_append]
  | list items => cases inner
  | map es =>
    cases es with
    | nil => simp [behindColon]
    | cons e es =>
      rw [behindColon, entries]
      simp only [List.append_assoc, List.singleton_append]

theorem startsLine_entry {v : Value} (inner : v.isVisible = true) (indent : Nat)
    (rest : List Char) :
    StartsLine (entry indent k v ++ rest) := by
  obtain ⟨c, back, text⟩ := exists_cons_written visible
  rw [entry_eq visible simple inner, text]
  refine ⟨?_, ?_⟩
  · rintro _ ⟨⟩
    exact Lexer.isVisible_written visible text
  · rcases Lexer.written_cases visible text with ⟨-, rfl⟩ | ⟨-, word⟩
    · rfl
    · rw [List.append_assoc]
      exact atMark_append word.unmarked _

end Layout

theorem atGap_behindColon {v : Value} (visible : v.isVisible = true) (indent : Nat)
    (rest : List Char) : atGap (behindColon indent v ++ rest) = true := by
  cases v with
  | scalar s => rfl
  | list items => cases visible
  | map es =>
    cases es with
    | nil => rfl
    | cons e es =>
      rw [behindColon, entries]
      rfl

/-- What `Value.areVisible` says of the first of some entries. -/
theorem areVisible_cons {k : Scalar} {v : Value} {es : List (Scalar × Value)}
    (h : Value.areVisible ((k, v) :: es) = true) :
    k.isVisible = true ∧ (Sheet.ofScalar k).isSimpleKey = true ∧ v.isVisible = true ∧
      (∀ e ∈ es, e.1.same k = false) ∧ Value.areVisible es = true := by
  simpa [Value.areVisible, and_assoc] using h

theorem startsLine_ofEntries {indent : Nat} {last : Line} (starts : StartsLine last.text)
    {es : List (Scalar × Value)} (visible : Value.areVisible es = true) :
    StartsLine (Line.ofEntries indent last es).text := by
  cases es with
  | nil => exact starts
  | cons e es =>
    obtain ⟨key, simple, value, -, -⟩ := areVisible_cons visible
    exact startsLine_entry key simple value indent _

namespace Lexer

/-- A block that was opened in a column is closed again further out. -/
theorem unwind_opened {f : Found} {column : Nat} (inside : f.indent < column) {level : Int}
    (le : f.indent ≤ level) (further : level < column) (ts : List Token) :
    ((f.opened column).add ts).unwind level = f.add (.blockMapping :: (ts ++ [.blockEnd])) := by
  have stays : (f.add (.blockMapping :: (ts ++ [.blockEnd]))).unwind level = _ :=
    Found.unwind_of_le le
  rw [Found.opened_of_lt inside, Found.unwind, ← stays]
  simp [Found.add, Found.close, Found.unwind, further]

/-- An entry whose value is read is read. -/
theorem leads_entry {k : Scalar} {v : Value} (visible : k.isVisible = true)
    (simple : (Sheet.ofScalar k).isSimpleKey = true) (inner : v.isVisible = true) {indent : Nat}
    {line : Line} {s : Lexer} (inside : s.indent ≤ indent)
    (h : IsAt s indent (entry indent k v ++ line.afterBreak)) {ts : List Token}
    (next : ∀ t, IsBehindColon t (behindColon indent v ++ line.afterBreak)
      (s.found.enter indent (Sheet.ofScalar k).token) → Leads t ts) : Leads s ts := by
  have starts := startsLine_entry visible simple inner indent line.afterBreak
  rw [entry_eq visible simple inner, List.append_assoc, List.cons_append] at h starts
  exact leads_key visible (atGap_behindColon inner indent _) inside h starts simple next

mutual

/-- The value behind a colon is read up to the next line that is not further in. -/
theorem leads_value (v : Value) (visible : v.isVisible = true) {indent : Nat} {last : Line}
    (starts : StartsLine last.text) (inner : last.column ≤ indent) {s : Lexer} {f : Found}
    (fresh : f.pending = []) (here : f.indent = indent)
    (h : IsBehindColon s (behindColon indent v ++ last.afterBreak) f) {ts : List Token}
    (next : ∀ t, IsAt t last.column last.text → t.found = f.add (tokensOf v) → Leads t ts) :
    Leads s ts := by
  have outer : (last.column : Int) ≤ f.indent := by omega
  cases v with
  | scalar v =>
    rw [tokensOf] at next
    exact leads_scalar fresh starts outer visible h next
  | list items => cases visible
  | map es =>
    cases es with
    | nil =>
      rw [tokensOf] at next
      exact leads_braces fresh starts h next
    | cons e es =>
      have further : f.indent < (indent + 2 : Nat) := by omega
      have outer : last.column ≤ indent + 2 := Nat.le_add_right_of_le inner
      have pending : s.pending = [] := (congrArg Found.pending h.found_eq).trans fresh
      have found : s.found = f := h.found_eq
      have text := h.rest_eq
      rw [behindColon, ← Line.afterBreak_ofEntries] at text
      rw [tokensOf_map] at next
      refine leads_entries (e :: es) (List.cons_ne_nil e es) visible starts outer ?_
        (isAt_of_newLine (startsLine_ofEntries starts visible).head text h.depth pending)
        fun t ht after => ?_
      · rw [← found] at further
        exact Int.le_of_lt further
      · -- The next line stands further out, and its token closes the block.
        refine ht.leads_of_unwind (Int.ofNat_le.2 inner) (next _ (ht.unwind indent) ?_)
        rw [unwind_eq ht.depth, after, found]
        exact unwind_opened further (Int.le_of_eq here) (by omega) _

/-- The entries of a block, which the first of them opens unless it is open, are read up to the next
line that is not further in. -/
theorem leads_entries (es : List (Scalar × Value)) (filled : es ≠ [])
    (visible : Value.areVisible es = true) {indent : Nat} {last : Line}
    (starts : StartsLine last.text) (inner : last.column ≤ indent) {s : Lexer}
    (inside : s.indent ≤ indent)
    (h : IsAt s (Line.ofEntries indent last es).column (Line.ofEntries indent last es).text)
    {ts : List Token} (next : ∀ t, IsAt t last.column last.text →
      t.found = (s.found.opened indent).add (entryTokens es) → Leads t ts) : Leads s ts := by
  cases es with
  | nil => exact absurd rfl filled
  | cons e es =>
    obtain ⟨k, v⟩ := e
    obtain ⟨key, simple, value, -, rest⟩ := areVisible_cons visible
    have fresh : (s.found.opened indent).pending = [] :=
      (Found.pending_opened s.found indent).trans h.fresh
    have here : (s.found.opened indent).indent = indent := Found.indent_opened inside
    rw [Line.ofEntries, ← Line.afterBreak_ofEntries] at h
    refine leads_entry key simple value inside h fun t ht => ?_
    rw [Found.enter_eq h.fresh] at ht
    refine leads_value v value (startsLine_ofEntries starts rest) (Line.column_ofEntries inner es)
      (f := (s.found.opened indent).add _) fresh here ht fun u hu found => ?_
    rw [Found.add_add] at found
    -- The block is open from the first key on.
    have level : u.indent = indent := (congrArg Found.indent found).trans here
    cases es with
    | nil =>
      refine next u hu ?_
      rw [found, entryTokens_cons, entryTokens, List.append_nil]
    | cons e es =>
      refine leads_entries (e :: es) (List.cons_ne_nil e es) rest starts inner (Int.le_of_eq level)
        hu fun w hw after => next w hw ?_
      rw [after, Found.opened_of_le (f := u.found) (Int.le_of_eq level.symm), found, Found.add_add,
        entryTokens_cons k]

end

end Lexer

/-! Whole documents. -/

theorem normalBreaks_eq_self {cs : List Char} (plain : ∀ c ∈ cs, c ≠ '\r' ∧ c ≠ '\u0085') :
    normalBreaks cs = cs := by
  induction cs with
  | nil => rfl
  | cons c cs ih =>
    obtain ⟨carriage, line⟩ := plain c List.mem_cons_self
    rw [normalBreaks, ih fun d hd => plain d (List.mem_cons_of_mem c hd)]
    · exact fun _ same _ => carriage same
    · exact carriage
    · exact line

/-- A visible character, a blank or a line feed. -/
def IsOfSheet (c : Char) : Prop :=
  isVisible c = true ∨ c = ' ' ∨ c = '\n'

theorem isDirect_of_isOfSheet {c : Char} (h : IsOfSheet c) : isDirect c = true := by
  rcases h with visible | rfl | rfl
  · exact isDirect_of_isVisible visible
  · decide
  · decide

theorem isOfSheet_lineTo {indent : Nat} {c : Char} (h : c ∈ lineTo indent) : IsOfSheet c := by
  rcases List.mem_cons.1 h with rfl | blank
  · exact Or.inr (Or.inr rfl)
  · exact Or.inr (Or.inl (List.eq_of_mem_replicate blank))

mutual

theorem isOfSheet_behindColon (v : Value) (visible : v.isVisible = true) {indent : Nat} {c : Char}
    (h : c ∈ behindColon indent v) : IsOfSheet c := by
  cases v with
  | scalar s =>
    rcases List.mem_cons.1 h with rfl | written
    · exact Or.inr (Or.inl rfl)
    · exact Or.inl (isVisible_of_mem_written visible written)
  | list items => cases visible
  | map es =>
    cases es with
    | nil =>
      have braces : ∀ c ∈ [' ', '\x7b', '\x7d'], IsOfSheet c := by
        simp [IsOfSheet]
        decide
      exact braces c h
    | cons e es => exact isOfSheet_entries (e :: es) visible h

theorem isOfSheet_entries (es : List (Scalar × Value)) (visible : Value.areVisible es = true)
    {indent : Nat} {c : Char} (h : c ∈ entries indent es) : IsOfSheet c := by
  cases es with
  | nil =>
    rw [entries] at h
    cases h
  | cons e es =>
    obtain ⟨k, v⟩ := e
    obtain ⟨key, simple, value, -, rest⟩ := areVisible_cons visible
    rw [entries, entry_eq key simple value] at h
    simp only [List.mem_append, List.mem_cons] at h
    rcases h with (line | written | rfl | behind) | others
    · exact isOfSheet_lineTo line
    · exact Or.inl (isVisible_of_mem_written key written)
    · exact Or.inl (by decide)
    · exact isOfSheet_behindColon v value behind
    · exact isOfSheet_entries es rest others

end

section Written

variable {es : List (Scalar × Value)} (filled : es ≠ [])
include filled

/-- The lines of a written map. -/
theorem toList_write : (write (.map es)).toList = (Line.ofEntries 0 ⟨0, []⟩ es).text := by
  obtain ⟨⟨k, v⟩, es, rfl⟩ := List.exists_cons_of_ne_nil filled
  have lines : (entries 0 ((k, v) :: es)).tail = entry 0 k v ++ entries 0 es := by
    rw [entries]
    rfl
  simp only [write, String.toList_ofList, lines, Line.ofEntries, List.append_assoc]
  rfl

variable (visible : Value.areVisible es = true)
include visible

theorem isOfSheet_write {c : Char} (h : c ∈ (write (.map es)).toList) : IsOfSheet c := by
  have text := Line.afterBreak_ofEntries 0 ⟨0, []⟩ es
  rw [toList_write filled] at h
  have mem : c ∈ (Line.ofEntries 0 ⟨0, []⟩ es).afterBreak :=
    List.mem_cons_of_mem _ (List.mem_append_right _ h)
  rw [text] at mem
  rcases List.mem_append.1 mem with written | last
  · exact isOfSheet_entries es visible written
  · exact Or.inr (Or.inr (List.mem_singleton.1 last))

/-- A written map is cut into the tokens of its entries. -/
theorem tokens_write : tokens (write (.map es)) = tokensOf (.map es) ++ [.streamEnd] := by
  have plain : ∀ c ∈ (write (.map es)).toList, c ≠ '\r' ∧ c ≠ '\u0085' := fun c hc =>
    have direct := isDirect_of_isOfSheet (isOfSheet_write filled visible hc)
    ⟨ne_of_class direct (by decide), ne_of_class direct (by decide)⟩
  have starts : StartsLine (Line.ofEntries 0 ⟨0, []⟩ es).text :=
    startsLine_ofEntries ⟨by rintro _ ⟨⟩, rfl⟩ visible
  let s : Lexer := { rest := (write (.map es)).toList }
  rw [tokens, normalBreaks_eq_self plain]
  refine Lexer.Leads.run_eq (s := s) ?_ (Nat.lt_add_of_pos_right (by decide)) 0
  have text : s.rest = (Line.ofEntries 0 ⟨0, []⟩ es).text := toList_write filled
  have column : (Line.ofEntries 0 ⟨0, []⟩ es).column = s.column :=
    Nat.le_zero.1 (Line.column_ofEntries (Nat.le_refl 0) es)
  have here : Lexer.IsAt s s.column s.rest :=
    Lexer.isAt_of_atToken (by rw [text]; exact starts.head) rfl rfl rfl
  have outside : (-1 : Int) < (0 : Nat) := by decide
  rw [text, ← column] at here
  refine Lexer.leads_entries es filled visible ⟨by rintro _ ⟨⟩, rfl⟩ (Nat.le_refl 0)
    (Int.le_of_lt outside) here fun t ht found => ?_
  have closed : t.found.unwind (-1) = s.found.add (tokensOf (.map es)) := by
    obtain ⟨e, es, rfl⟩ := List.exists_cons_of_ne_nil filled
    rw [found, tokensOf_map]
    exact Lexer.unwind_opened outside (Int.le_refl _) outside _
  have done := Lexer.Leads.done ht.fresh ht.step_nil ht.finish_eq
  rw [closed] at done
  exact done

end Written

end Yaml

end Ontogram
