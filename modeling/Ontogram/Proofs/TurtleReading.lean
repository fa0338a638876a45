import Mathlib.Data.List.Basic
import Ontogram.Proofs.Ascii
import Ontogram.Text.Word
import Ontogram.Turtle

set_option autoImplicit false

namespace Ontogram.Turtle

open Text (span)

/-- A part of a text of statements. -/
inductive Token where
  | opening
  | closing
  /-- The end of a statement. -/
  | stop
  /-- A term that is no list. -/
  | term (t : Term)

/-- The character that a backslash and another one stand for. -/
def unescapeChar (c : Char) : Char :=
  if c = 'n' then '\n' else if c = 'r' then '\r' else c

/-- The value of a literal up to its closing quote, and what follows. -/
def value? : List Char → Option (List Char × List Char)
  | [] => none
  | '"' :: rest => some ([], rest)
  | '\\' :: c :: rest => (value? rest).map fun r => (unescapeChar c :: r.1, r.2)
  | c :: rest => (value? rest).map fun r => (c :: r.1, r.2)

/-- An IRI in angle brackets or with a prefix, and what follows. -/
def iri? (prefixes : Table String) : List Char → Option (String × List Char)
  | '<' :: cs =>
    match span (· ≠ '>') cs with
    | (iri, '>' :: rest) => some (String.ofList iri, rest)
    | _ => none
  | cs =>
    let (word, rest) := span (· ≠ ' ') cs
    let (name, rest') := span (· ≠ ':') word
    (prefixes.get? (String.ofList name)).map fun space =>
      (space ++ String.ofList rest'.tail, rest)

/-- A literal of which the opening quote was taken, and what follows. -/
def literal? (prefixes : Table String) (cs : List Char) : Option (Literal × List Char) := do
  let (value, rest) ← value? cs
  match rest with
  | '@' :: rest =>
    let (tag, rest) := span (· ≠ ' ') rest
    return (⟨String.ofList value, some (String.ofList tag), none⟩, rest)
  | '^' :: '^' :: rest =>
    let (datatype, rest) ← iri? prefixes rest
    return (⟨String.ofList value, none, some datatype⟩, rest)
  | rest => return (⟨String.ofList value, none, none⟩, rest)

/-- A term that is no list, and what follows. -/
def atom? (prefixes : Table String) : List Char → Option (Term × List Char)
  | '"' :: cs => (literal? prefixes cs).map fun r => (.literal r.1, r.2)
  | '_' :: ':' :: cs =>
    let (label, rest) := span (· ≠ ' ') cs
    some (.blank (String.ofList label), rest)
  | cs => (iri? prefixes cs).map fun r => (.iri r.1, r.2)

/-- The token at the front of a text that starts with `c`, and what follows. -/
def token? (prefixes : Table String) (c : Char) (cs : List Char) : Option (Token × List Char) :=
  if c = '(' then some (.opening, cs)
  else if c = ')' then some (.closing, cs)
  else if c = '.' then some (.stop, cs)
  else (atom? prefixes (c :: cs)).map fun r => (.term r.1, r.2)

/-- The tokens of a text. A token is never empty. -/
def tokens? (prefixes : Table String) : List Char → Option (List Token)
  | [] => some []
  | c :: cs =>
    if c = ' ' ∨ c = '\n' then tokens? prefixes cs
    else
      match token? prefixes c cs with
      | none => none
      | some (token, rest) =>
        if rest.length ≤ cs.length then (tokens? prefixes rest).map (token :: ·) else none
termination_by cs => cs.length

/-- How far a text has been read. -/
structure Progress where
  /-- The statements that are complete. -/
  done : List Triple
  /-- The terms of each list that is open, the innermost first; those of the statement that has
  begun are the last. -/
  pending : List (List Term)

/-- Reads a token. -/
def Progress.take (p : Progress) : Token → Option Progress
  | .opening => some { p with pending := [] :: p.pending }
  | .closing =>
    match p.pending with
    | items :: above :: outer => some { p with pending := (above ++ [.list items]) :: outer }
    | _ => none
  | .term t =>
    match p.pending with
    | items :: outer => some { p with pending := (items ++ [t]) :: outer }
    | [] => none
  | .stop =>
    match p.pending with
    | [[subject, predicate, object]] => some ⟨p.done ++ [⟨subject, predicate, object⟩], [[]]⟩
    | _ => none

/-- Reads tokens one after the other. -/
def Progress.takeAll (p : Progress) (tokens : List Token) : Option Progress :=
  tokens.foldlM Progress.take p

def statements? (tokens : List Token) : Option (List Triple) :=
  match Progress.takeAll ⟨[], [[]]⟩ tokens with
  | some ⟨done, [[]]⟩ => some done
  | _ => none

/-- Reads a text below the lines of known prefixes. -/
def read (prefixes : Table String) (text : String) : Option (List Triple) :=
  let front := (format prefixes []).toList
  if front.isPrefixOf text.toList then
    (tokens? prefixes (text.toList.drop front.length)).bind statements?
  else none

/-- Whether a text starts with a letter or a digit and goes on with letters, digits and some
marks. -/
def IsWord (marks : List Char) (cs : List Char) : Prop :=
  cs.head?.any Text.isAlnum = true ∧ ∀ c ∈ cs, Text.isAlnum c = true ∨ c ∈ marks

instance (marks cs : List Char) : Decidable (IsWord marks cs) :=
  @instDecidableAnd _ _ _ (List.decidableBAll _ cs)

/-- Whether every prefix has one namespace and a name that looks like nothing else. -/
structure IsReadableTable (prefixes : Table String) : Prop where
  once : prefixes.keys.Nodup
  names : ∀ name ∈ prefixes.keys, name = "" ∨ IsWord ['_', '-'] name.toList

/-- Whether a text may stand in angle brackets. -/
def IsIriText (iri : String) : Prop :=
  ∀ c ∈ iri.toList, Text.isBlank c = false ∧ c ≠ '<' ∧ c ≠ '>' ∧ c ≠ '"'

instance (iri : String) : Decidable (IsIriText iri) :=
  List.decidableBAll (fun c => Text.isBlank c = false ∧ c ≠ '<' ∧ c ≠ '>' ∧ c ≠ '"') iri.toList

/-- Whether a literal has at most one of a tag and a datatype, and neither is empty. -/
structure IsReadableLiteral (l : Literal) : Prop where
  single : l.language = none ∨ l.datatype = none
  language : ∀ tag ∈ l.language, IsWord ['-'] tag.toList
  datatype : ∀ iri ∈ l.datatype, iri ≠ "" ∧ IsIriText iri

/-- Whether the names in a term are made of characters that may stand in names. -/
inductive IsReadable : Term → Prop
  | iri {value : String} (h : IsIriText value) : IsReadable (.iri value)
  | blank {label : String} (h : label.toList.all Text.isAlnum = true) : IsReadable (.blank label)
  | literal {l : Literal} (h : IsReadableLiteral l) : IsReadable (.literal l)
  | list {items : List Term} (h : ∀ t ∈ items, IsReadable t) : IsReadable (.list items)

/-- Whether the three terms of a statement are readable. -/
structure IsReadableTriple (t : Triple) : Prop where
  subject : IsReadable t.subject
  predicate : IsReadable t.predicate
  object : IsReadable t.object

/-- A text up to the first of its stop signs. -/
theorem span_append_stop {cs : List Char} {stop : Char} (h : stop ∉ cs) (rest : List Char) :
    span (· ≠ stop) (cs ++ stop :: rest) = (cs, stop :: rest) := by
  have all : ∀ c ∈ cs, decide (c ≠ stop) = true := fun c mem =>
    decide_eq_true (ne_of_mem_of_not_mem mem h)
  exact Text.span_append_of_all all (by simp)

/-- The escaped value of a literal is read up to its closing quote. -/
theorem value?_escaped (cs rest : List Char) :
    value? (cs.flatMap escapeChar ++ '"' :: rest) = some (cs, rest) := by
  induction cs with
  | nil => rfl
  | cons c cs ih =>
    rw [List.flatMap_cons, List.append_assoc]
    by_cases newline : c = '\n'
    · subst newline
      simp [escapeChar, value?, ih, unescapeChar]
    by_cases ret : c = '\r'
    · subst ret
      simp [escapeChar, value?, ih, unescapeChar]
    by_cases backslash : c = '\\'
    · subst backslash
      simp [escapeChar, Text.escapeChar, value?, ih, unescapeChar]
    by_cases quote : c = '"'
    · subst quote
      simp [escapeChar, Text.escapeChar, value?, ih, unescapeChar]
    · simp [escapeChar, Text.escapeChar, newline, ret, backslash, quote, value?, ih]

theorem IsWord.notMem {marks cs : List Char} {c : Char} (h : IsWord marks cs)
    (other : Text.isAlnum c = false) (mark : c ∉ marks) : c ∉ cs := fun mem =>
  (h.2 c mem).elim (by simp [other]) mark

theorem IsReadableTable.notMem {prefixes : Table String} (table : IsReadableTable prefixes)
    {name : String} (mem : name ∈ prefixes.keys) {c : Char} (other : Text.isAlnum c = false)
    (mark : c ∉ ['_', '-']) : c ∉ name.toList := by
  obtain rfl | word := table.names name mem
  · simp
  · exact word.notMem other mark

theorem bestEntry?_eq_some {iri : String} {entries : List (String × String)}
    {entry : String × String} (h : bestEntry? iri entries = some entry) :
    entry ∈ entries ∧ ∃ rest, entry.2.toList ++ rest = iri.toList := by
  induction entries with
  | nil => simp [ bestEntry?] at h
  | cons first entries ih =>
    obtain ⟨name, space⟩ := first
    have fits {rest : List Char} (h : localName? space iri = some rest) :
        ∃ rest, space.toList ++ rest = iri.toList := ⟨rest, (localName?_eq_some h).1⟩
    simp only [ bestEntry?] at h
    split at h
    · exact ⟨List.mem_cons_of_mem _ (ih h).1, (ih h).2⟩
    · rename_i found _
      obtain rfl := Option.some.inj h
      exact ⟨List.mem_cons_self, fits found⟩
    · rename_i found best
      split at h
      · obtain rfl := Option.some.inj h
        exact ⟨List.mem_cons_of_mem _ (ih best).1, (ih best).2⟩
      · obtain rfl := Option.some.inj h
        exact ⟨List.mem_cons_self, fits found⟩

/-- An IRI is printed in brackets, or behind one of the prefixes. -/
theorem formatIri_cases (prefixes : Table String) (iri : String) :
    (formatIri prefixes iri).toList = '<' :: (iri.toList ++ ['>']) ∨
      ∃ entry ∈ prefixes.entries, ∃ rest, entry.2.toList ++ rest = iri.toList ∧
        (formatIri prefixes iri).toList = entry.1.toList ++ ':' :: rest := by
  unfold formatIri
  cases best : bestEntry? iri prefixes.entries with
  | none => left; simp
  | some entry =>
    obtain ⟨mem, rest, whole⟩ := bestEntry?_eq_some best
    refine .inr ⟨entry, mem, rest, whole, ?_⟩
    simp [← whole, ← String.length_toList]

theorem iri?_bracketed (prefixes : Table String) {cs : List Char} (inside : '>' ∉ cs)
    (rest : List Char) :
    iri? prefixes ('<' :: (cs ++ '>' :: rest)) = some (String.ofList cs, rest) := by
  unfold iri?
  simp only [span_append_stop inside]

theorem iri?_prefixed (prefixes : Table String) {name tail : List Char} (bracket : '<' ∉ name)
    (colon : ':' ∉ name) (blank : ' ' ∉ name ++ ':' :: tail) (rest : List Char) :
    iri? prefixes (name ++ ':' :: tail ++ ' ' :: rest) =
      (prefixes.get? (String.ofList name)).map fun space =>
        (space ++ String.ofList tail, ' ' :: rest) := by
  unfold iri?
  split
  · rename_i cs same
    cases name <;> simp_all
  · simp only [span_append_stop blank, span_append_stop colon, List.tail_cons]

theorem iri?_formatIri {prefixes : Table String} (table : IsReadableTable prefixes) {iri : String}
    (text : IsIriText iri) (rest : List Char) :
    iri? prefixes ((formatIri prefixes iri).toList ++ ' ' :: rest) = some (iri, ' ' :: rest) := by
  obtain printed | ⟨⟨name, space⟩, mem, tail, whole, printed⟩ := formatIri_cases prefixes iri
  · have inside : '>' ∉ iri.toList := fun h => (text '>' h).2.2.1 rfl
    simp only [printed, List.cons_append, List.append_assoc, List.nil_append,
      iri?_bracketed prefixes inside, String.ofList_toList]
  · have key : name ∈ prefixes.keys := List.mem_map_of_mem mem
    have apart {c : Char} (other : Text.isAlnum c = false) (mark : c ∉ ['_', '-']) :
        c ∉ name.toList := table.notMem key other mark
    have plain : ' ' ∉ tail := fun h =>
      absurd (text ' ' (whole ▸ List.mem_append_right _ h)).1 (by decide)
    have blank : ' ' ∉ name.toList ++ ':' :: tail := by
      simp [apart (show Text.isAlnum ' ' = false by decide) (by decide), plain]
    have space : prefixes.get? name = some space := Table.get?_of_mem table.once mem
    rw [printed, iri?_prefixed prefixes (apart (by decide) (by decide))
      (apart (by decide) (by decide)) blank]
    simp [space, ← String.toList_inj, whole]

/-- A printed IRI starts with a bracket, a colon, a letter or a digit. -/
theorem formatIri_front {prefixes : Table String} (table : IsReadableTable prefixes)
    (iri : String) : ∃ c cs, (formatIri prefixes iri).toList = c :: cs ∧
      (Text.isAlnum c || c ∈ ['<', ':']) = true := by
  obtain printed | ⟨⟨name, space⟩, mem, tail, -, printed⟩ := formatIri_cases prefixes iri
  · exact ⟨_, _, printed, by decide⟩
  · obtain rfl | word := table.names name (List.mem_map_of_mem mem)
    · exact ⟨_, _, printed, by decide⟩
    · obtain ⟨first, -⟩ := word
      cases letters : name.toList with
      | nil => simp [letters] at first
      | cons c cs =>
        simp only [letters, List.head?_cons, Option.any_some] at first
        exact ⟨c, cs ++ ':' :: tail, by simp [printed, letters], by simp [first]⟩

/-- A text that is read as a term, whatever follows it behind a blank. -/
structure Reads (prefixes : Table String) (text : List Char) (t : Term) : Prop where
  front : ∃ c ∈ text.head?, c ∉ [' ', '\n', '(', ')', '.']
  atom : ∀ rest, atom? prefixes (text ++ ' ' :: rest) = some (t, ' ' :: rest)

theorem reads_iri {prefixes : Table String} (table : IsReadableTable prefixes) {iri : String}
    (text : IsIriText iri) : Reads prefixes (formatIri prefixes iri).toList (.iri iri) := by
  obtain ⟨c, cs, printed, front⟩ := formatIri_front table iri
  have signs : [' ', '\n', '(', ')', '.', '"', '_'].any
      (fun d => Text.isAlnum d || decide (d ∈ ['<', ':'])) = false := by decide
  have other : c ∉ [' ', '\n', '(', ')', '.', '"', '_'] := fun mem =>
    List.any_eq_false.1 signs c mem front
  have read := iri?_formatIri table text
  rw [printed] at read ⊢
  refine ⟨⟨c, rfl, by simp_all⟩, fun rest => ?_⟩
  unfold atom?
  split
  · simp_all
  · simp_all
  · rw [read, Option.map_some]

theorem reads_blank (prefixes : Table String) {label : String} (blank : ' ' ∉ label.toList) :
    Reads prefixes ("_:" ++ label).toList (.blank label) := by
  refine ⟨⟨'_', by simp, by decide⟩, fun rest => ?_⟩
  have printed : ("_:" ++ label).toList = '_' :: ':' :: label.toList := by simp
  rw [printed, List.cons_append, List.cons_append, atom?]
  simp only [span_append_stop blank, String.ofList_toList]

theorem literal?_plain (prefixes : Table String) (value : String) (rest : List Char) :
    literal? prefixes (value.toList.flatMap escapeChar ++ '"' :: ' ' :: rest) =
      some (⟨value, none, none⟩, ' ' :: rest) := by
  simp [literal?, value?_escaped]

theorem literal?_tagged (prefixes : Table String) (value : String) {tag : String}
    (blank : ' ' ∉ tag.toList) (rest : List Char) :
    literal? prefixes (value.toList.flatMap escapeChar ++ '"' :: '@' :: tag.toList ++ ' ' :: rest) =
      some (⟨value, some tag, none⟩, ' ' :: rest) := by
  rw [List.append_assoc, List.cons_append, List.cons_append, literal?, value?_escaped]
  simp only [Option.bind_eq_bind, Option.bind_some, span_append_stop blank, String.ofList_toList,
    Option.pure_def]

theorem literal?_typed {prefixes : Table String} (table : IsReadableTable prefixes)
    (value : String) {iri : String} (text : IsIriText iri) (rest : List Char) :
    literal? prefixes (value.toList.flatMap escapeChar ++
        '"' :: '^' :: '^' :: (formatIri prefixes iri).toList ++ ' ' :: rest) =
      some (⟨value, none, some iri⟩, ' ' :: rest) := by
  rw [List.append_assoc, List.cons_append, List.cons_append, List.cons_append, literal?,
    value?_escaped]
  simp only [Option.bind_eq_bind, Option.bind_some, iri?_formatIri table text,
    String.ofList_toList, Option.pure_def]

theorem literal?_suffix {prefixes : Table String} (table : IsReadableTable prefixes)
    {l : Literal} (h : IsReadableLiteral l) (rest : List Char) :
    literal? prefixes (l.value.toList.flatMap escapeChar ++
        '"' :: (l.suffix (formatIri prefixes)).toList ++ ' ' :: rest) = some (l, ' ' :: rest) := by
  obtain ⟨value, language, datatype⟩ := l
  match language, datatype, h with
  | none, none, _ =>
    simpa [Literal.suffix] using literal?_plain prefixes value rest
  | some tag, none, h =>
    have word := h.language tag rfl
    have filled : tag ≠ "" := by rintro rfl; simpa using word.1
    simpa [Literal.suffix, Option.filter, filled] using
      literal?_tagged prefixes value (word.notMem (by decide) (by decide)) rest
  | none, some iri, h =>
    obtain ⟨filled, text⟩ := h.datatype iri rfl
    simpa [Literal.suffix, Option.filter, filled] using literal?_typed table value text rest
  | some _, some _, h => simpa using h.single

theorem reads_literal {prefixes : Table String} (table : IsReadableTable prefixes)
    {l : Literal} (h : IsReadableLiteral l) :
    Reads prefixes (formatLiteral prefixes l).toList (.literal l) := by
  have printed : (formatLiteral prefixes l).toList =
      '"' :: (l.value.toList.flatMap escapeChar ++
        '"' :: (l.suffix (formatIri prefixes)).toList) := by simp [formatLiteral]
  refine ⟨⟨'"', by simp [printed], by decide⟩, fun rest => ?_⟩
  rw [printed, List.cons_append, atom?, literal?_suffix table h, Option.map_some]

mutual

/-- The tokens of a printed term. -/
def tokensOf : Term → List Token
  | .list items => .opening :: (tokensOfAll items ++ [.closing])
  | t => [.term t]

/-- The tokens of printed terms one after the other. -/
def tokensOfAll : List Term → List Token
  | [] => []
  | t :: ts => tokensOf t ++ tokensOfAll ts

end

def statementTokens (t : Triple) : List Token :=
  tokensOf t.subject ++ tokensOf t.predicate ++ tokensOf t.object ++ [.stop]

section Tokens

variable (prefixes : Table String) (cs : List Char)

@[simp] theorem tokens?_blank : tokens? prefixes (' ' :: cs) = tokens? prefixes cs := by
  simp [tokens?]

@[simp] theorem tokens?_newline : tokens? prefixes ('\n' :: cs) = tokens? prefixes cs := by
  simp [tokens?]

@[simp] theorem tokens?_opening :
    tokens? prefixes ('(' :: cs) = (tokens? prefixes cs).map (.opening :: ·) := by
  simp [tokens?, token?]

@[simp] theorem tokens?_closing :
    tokens? prefixes (')' :: cs) = (tokens? prefixes cs).map (.closing :: ·) := by
  simp [tokens?, token?]

@[simp] theorem tokens?_stop :
    tokens? prefixes ('.' :: cs) = (tokens? prefixes cs).map (.stop :: ·) := by
  simp [tokens?, token?]

end Tokens

variable {prefixes : Table String}

theorem Reads.tokens? {text : List Char} {t : Term} (h : Reads prefixes text t)
    (rest : List Char) : Turtle.tokens? prefixes (text ++ ' ' :: rest) =
      (Turtle.tokens? prefixes rest).map (.term t :: ·) := by
  obtain ⟨c, head, other⟩ := h.front
  obtain ⟨cs, rfl⟩ := List.head?_eq_some_iff.1 head
  have read := h.atom rest
  simp only [List.mem_cons, List.not_mem_nil, or_false, not_or] at other
  rw [List.cons_append] at read ⊢
  rw [Turtle.tokens?, if_neg (by simp [other])]
  simp only [token?, other, if_false, read, Option.map_some]
  simp

/-- A separator behind a joined text is the separator behind every part. -/
theorem intercalate_separator (sep : String) {parts : List String} (some : parts ≠ []) :
    (sep.intercalate parts).toList ++ sep.toList =
      parts.flatMap fun part => part.toList ++ sep.toList := by
  induction parts with
  | nil => exact absurd rfl some
  | cons part parts ih =>
    by_cases last : parts = []
    · simp [last]
    · rw [String.intercalate_cons_of_ne_nil last, List.flatMap_cons, ← ih last]
      simp

theorem formatTerms_eq_map (items : List Term) :
    formatTerms prefixes items = items.map (formatTerm prefixes) := by
  induction items with
  | nil => rfl
  | cons t items ih => rw [formatTerms, ih, List.map_cons]

theorem tokens?_items {items : List Term}
    (each : ∀ t ∈ items, ∀ rest, tokens? prefixes ((formatTerm prefixes t).toList ++ ' ' :: rest) =
      (tokens? prefixes rest).map (tokensOf t ++ ·)) (rest : List Char) :
    tokens? prefixes ((items.flatMap fun t => (formatTerm prefixes t).toList ++ [' ']) ++ rest) =
      (tokens? prefixes rest).map (tokensOfAll items ++ ·) := by
  induction items with
  | nil => simp [tokensOfAll]
  | cons t items ih =>
    rw [List.flatMap_cons, List.append_assoc, List.append_assoc, List.singleton_append,
      each t List.mem_cons_self, ih fun u mem => each u (List.mem_cons_of_mem _ mem)]
    simp [tokensOfAll, Function.comp_def]

/-- A printed list is its items, each with a blank behind it, between two parentheses. -/
theorem formatTerm_list (t : Term) (items : List Term) :
    (formatTerm prefixes (.list (t :: items))).toList =
      '(' :: ' ' :: (((t :: items).flatMap fun u => (formatTerm prefixes u).toList ++ [' ']) ++
        [')']) := by
  have some : (t :: items).map (formatTerm prefixes) ≠ [] := by simp
  have joined := intercalate_separator " " some
  have blank : " ".toList = [' '] := rfl
  rw [List.flatMap_map, blank] at joined
  rw [formatTerm, formatTerms_eq_map, ← joined]
  simp

/-- A printed term is cut into its tokens, whatever follows it behind a blank. -/
theorem tokens?_formatTerm (table : IsReadableTable prefixes) {t : Term} (h : IsReadable t)
    (rest : List Char) : tokens? prefixes ((formatTerm prefixes t).toList ++ ' ' :: rest) =
      (tokens? prefixes rest).map (tokensOf t ++ ·) := by
  -- The induction is on what makes a term readable. Each item of a list has a blank behind it too,
  -- the last one that of the closing parenthesis.
  induction h generalizing rest with
  | iri text => simpa [formatTerm, tokensOf] using (reads_iri table text).tokens? rest
  | blank alnum =>
    have blank : ' ' ∉ _ := fun mem => absurd (List.all_eq_true.1 alnum _ mem) (by decide)
    simpa [formatTerm, tokensOf] using (reads_blank prefixes blank).tokens? rest
  | literal h => simpa [formatTerm, tokensOf] using (reads_literal table h).tokens? rest
  | @list items _ each =>
    cases items with
    | nil => simp [formatTerm, tokensOf, tokensOfAll, Function.comp_def]
    | cons t items =>
      rw [formatTerm_list, List.cons_append, List.cons_append, List.append_assoc,
        tokens?_opening, tokens?_blank, tokens?_items each]
      simp [tokensOf, Function.comp_def]

theorem tokens?_tripleLine (table : IsReadableTable prefixes) {t : Triple}
    (h : IsReadableTriple t) (rest : List Char) :
    tokens? prefixes ((tripleLine prefixes t).toList ++ '\n' :: rest) =
      (tokens? prefixes rest).map (statementTokens t ++ ·) := by
  have text : (tripleLine prefixes t).toList ++ '\n' :: rest =
      (formatTerm prefixes t.subject).toList ++ ' ' :: ((formatTerm prefixes t.predicate).toList ++
        ' ' :: ((formatTerm prefixes t.object).toList ++ ' ' :: '.' :: '\n' :: rest)) := by
    simp [tripleLine]
  rw [text, tokens?_formatTerm table h.subject, tokens?_formatTerm table h.predicate,
    tokens?_formatTerm table h.object, tokens?_stop, tokens?_newline]
  simp [statementTokens, Function.comp_def]

theorem tokens?_statements (table : IsReadableTable prefixes) {ts : List Triple}
    (h : ∀ t ∈ ts, IsReadableTriple t) :
    tokens? prefixes (ts.flatMap fun t => (tripleLine prefixes t).toList ++ ['\n']) =
      some (ts.flatMap statementTokens) := by
  induction ts with
  | nil => simp [tokens?]
  | cons t ts ih =>
    rw [List.flatMap_cons, List.append_assoc, List.singleton_append,
      tokens?_tripleLine table (h t List.mem_cons_self),
      ih fun u mem => h u (List.mem_cons_of_mem _ mem), Option.map_some, List.flatMap_cons]

theorem Progress.takeAll_append (p : Progress) (tokens more : List Token) :
    p.takeAll (tokens ++ more) = (p.takeAll tokens).bind (·.takeAll more) :=
  List.foldlM_append

theorem Progress.takeAll_cons (p : Progress) (token : Token) (tokens : List Token) :
    p.takeAll (token :: tokens) = (p.take token).bind (·.takeAll tokens) :=
  List.foldlM_cons

mutual

/-- The tokens of a term put it behind the terms that are pending. -/
theorem takeAll_tokensOf (done : List Triple) (items : List Term) (outer : List (List Term)) :
    (t : Term) → Progress.takeAll ⟨done, items :: outer⟩ (tokensOf t) =
      some ⟨done, (items ++ [t]) :: outer⟩
  | .iri _ | .blank _ | .literal _ => rfl
  | .list ts => by
    simp only [tokensOf, Progress.takeAll_cons, Progress.take, Option.bind_some,
      Progress.takeAll_append, takeAll_tokensOfAll done [] (items :: outer) ts]
    rfl

/-- The tokens of terms put them behind the terms that are pending. -/
theorem takeAll_tokensOfAll (done : List Triple) (items : List Term) (outer : List (List Term)) :
    (ts : List Term) → Progress.takeAll ⟨done, items :: outer⟩ (tokensOfAll ts) =
      some ⟨done, (items ++ ts) :: outer⟩
  | [] => by rw [List.append_nil]; rfl
  | t :: ts => by
    rw [tokensOfAll, Progress.takeAll_append, takeAll_tokensOf done items outer t,
      Option.bind_some, takeAll_tokensOfAll done (items ++ [t]) outer ts, List.append_assoc]
    rfl

end

theorem takeAll_statementTokens (done : List Triple) (t : Triple) :
    Progress.takeAll ⟨done, [[]]⟩ (statementTokens t) = some ⟨done ++ [t], [[]]⟩ := by
  simp only [statementTokens, Progress.takeAll_append, takeAll_tokensOf, Option.bind_some]
  rfl

theorem takeAll_statements (done ts : List Triple) :
    Progress.takeAll ⟨done, [[]]⟩ (ts.flatMap statementTokens) = some ⟨done ++ ts, [[]]⟩ := by
  induction ts generalizing done with
  | nil => rw [List.append_nil]; rfl
  | cons t ts ih =>
    rw [List.flatMap_cons, Progress.takeAll_append, takeAll_statementTokens, Option.bind_some, ih,
      List.append_assoc, List.singleton_append]

/-- A text is its lines: one for each prefix, an empty one, and one for each statement. -/
theorem format_eq_flatMap (prefixes : Table String) (ts : List Triple) :
    (format prefixes ts).toList =
      (prefixes.entries.map prefixLine ++ [""] ++ ts.map (tripleLine prefixes)).flatMap
        fun line => line.toList ++ ['\n'] := by
  have newline : "\n".toList = ['\n'] := rfl
  rw [format, formatBelow, String.toList_append, intercalate_separator _ (by simp), newline]

/-- A text is the text of no statements with a line for each statement behind it. -/
theorem format_eq_append (prefixes : Table String) (ts : List Triple) :
    (format prefixes ts).toList = (format prefixes []).toList ++
      ts.flatMap fun t => (tripleLine prefixes t).toList ++ ['\n'] := by
  simp [format_eq_flatMap, List.flatMap_map]

/-- A printed list of statements is read back. -/
theorem read_format (table : IsReadableTable prefixes) {ts : List Triple}
    (h : ∀ t ∈ ts, IsReadableTriple t) : read prefixes (format prefixes ts) = some ts := by
  unfold read
  simp only
  rw [format_eq_append prefixes ts, if_pos (List.isPrefixOf_iff_prefix.2 ⟨_, rfl⟩),
    List.drop_left, tokens?_statements table h, Option.bind_some, statements?, takeAll_statements]
  rfl

/-- Statements in a text can be read in one way only. -/
theorem format_uniquely_readable (prefixes : Table String) (table : IsReadableTable prefixes) :
    (∀ ts : List Triple, (∀ t ∈ ts, IsReadableTriple t) →
      read prefixes (format prefixes ts) = some ts) ∧
    ∀ ts us : List Triple, (∀ t ∈ ts, IsReadableTriple t) → (∀ u ∈ us, IsReadableTriple u) →
      format prefixes ts = format prefixes us → ts = us := by
  refine ⟨fun ts h => read_format table h, fun ts us readable readable' same => ?_⟩
  have back := read_format table readable
  rw [same, read_format table readable'] at back
  exact (Option.some.inj back).symm

/-- Two prefixes, the namespace of one of which starts with that of the other. -/
def nested : Table String :=
  ⟨[("", "http://e.org/"), ("ex-1", "http://e.org/a_")]⟩

/-- A statement about a list that holds a tagged text, an empty list, a typed text and an anonymous
node. -/
def listing : Triple :=
  ⟨.iri "http://e.org/a_b", .iri "http://e.org/a_",
    .list [.literal ⟨"( \"a\\\n . ", some "en-GB", none⟩, .list [],
      .literal ⟨"1", none, some "http://e.org/a_c"⟩, .blank "n1"]⟩

theorem format_uniquely_readable_listing :
    IsReadableTable nested ∧ (∀ t ∈ [listing], IsReadableTriple t) ∧
      read nested (format nested [listing]) = some [listing] := by
  have table : IsReadableTable nested := ⟨by decide, by decide⟩
  have readable : IsReadableTriple listing := by
    refine ⟨.iri (by decide), .iri (by decide), .list ?_⟩
    simp only [List.forall_mem_cons]
    exact ⟨.literal ⟨by decide, by decide, by decide⟩, .list (by simp),
      .literal ⟨by decide, by decide, by decide⟩, .blank (by decide), by simp⟩
  have all : ∀ t ∈ [listing], IsReadableTriple t := by simpa using readable
  exact ⟨table, all, (format_uniquely_readable nested table).1 [listing] all⟩

end Ontogram.Turtle
