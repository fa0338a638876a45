import Ontogram.Proofs.ClauseWidening
import Ontogram.Proofs.LiteralMark

set_option autoImplicit false

namespace Ontogram

namespace Text

theorem escape_cons (c : Char) (cs : List Char) : escape (c :: cs) = escapeChar c ++ escape cs :=
  rfl

theorem escapeChar_of_mark {c : Char} (h : c = '\\' ∨ c = '"') : escapeChar c = ['\\', c] :=
  if_pos h

theorem escapeChar_of_ne {c : Char} (slash : c ≠ '\\') (quote : c ≠ '"') : escapeChar c = [c] :=
  if_neg (not_or.2 ⟨slash, quote⟩)

/-- No escaped text starts with a quote. -/
theorem head?_escape (cs : List Char) : (escape cs).head? ≠ some '"' := by
  cases cs with
  | nil => nofun
  | cons c cs =>
    rw [escape_cons]
    by_cases mark : c = '\\' ∨ c = '"'
    · simp [escapeChar_of_mark mark]
    · obtain ⟨slash, quote⟩ := not_or.1 mark
      simpa [escapeChar_of_ne slash quote] using quote

/-- An escaped text is read up to the quote behind it. -/
theorem quotedTail?_escape_append (cs rest : List Char) :
    quotedTail? (escape cs ++ '"' :: rest) = some (escape cs ++ ['"'], rest) := by
  induction cs with
  | nil => rfl
  | cons c cs ih =>
    rw [escape_cons]
    by_cases mark : c = '\\' ∨ c = '"'
    · have line : c ≠ '\n' := by
        rcases mark with rfl | rfl <;> decide
      rw [escapeChar_of_mark mark, List.cons_append, List.cons_append, List.cons_append,
        List.cons_append, List.nil_append, Query.quotedTail?_escape line, ih]
      rfl
    · obtain ⟨slash, quote⟩ := not_or.1 mark
      rw [escapeChar_of_ne slash quote, List.append_assoc,
        Query.quotedTail?_append_plain [c] (by simp [slash, quote]), ih]
      rfl

theorem quotedText?_escape_append (cs rest : List Char) :
    quotedText? ('"' :: (escape cs ++ '"' :: rest)) = some ('"' :: (escape cs ++ ['"']), rest) := by
  rw [quotedText?, quotedTail?_escape_append]
  rfl

def double (cs : List Char) : List Char :=
  cs.flatMap fun c => if c = '\\' then ['\\', '\\'] else [c]

theorem double_cons (c : Char) (cs : List Char) :
    double (c :: cs) = (if c = '\\' then ['\\', '\\'] else [c]) ++ double cs :=
  rfl

theorem double_eq_self {cs : List Char} (h : '\\' ∉ cs) : double cs = cs := by
  induction cs with
  | nil => rfl
  | cons c cs ih =>
    obtain ⟨first, rest⟩ := not_or.1 (List.mem_cons.not.1 h)
    rw [double_cons, if_neg (Ne.symm first), ih rest]
    rfl

theorem unescapeQuotes_of_head {c : Char} {cs : List Char}
    (h : c ≠ '\\' ∨ cs.head? ≠ some '"') : unescapeQuotes (c :: cs) = c :: unescapeQuotes cs := by
  rw [unescapeQuotes]
  rintro rest rfl rfl
  simp at h

/-- Undoing the escapes of the quotes leaves those of the backslashes. -/
theorem unescapeQuotes_escape (cs : List Char) : unescapeQuotes (escape cs) = double cs := by
  induction cs with
  | nil => rfl
  | cons c cs ih =>
    rw [escape_cons, double_cons]
    by_cases slash : c = '\\'
    · subst slash
      rw [escapeChar_of_mark (Or.inl rfl), if_pos rfl, List.cons_append, List.cons_append,
        List.nil_append, unescapeQuotes_of_head (Or.inr (by simp)),
        unescapeQuotes_of_head (Or.inr (head?_escape cs)), ih]
      rfl
    · by_cases quote : c = '"'
      · subst quote
        rw [escapeChar_of_mark (Or.inr rfl), if_neg slash, List.cons_append, List.cons_append,
          List.nil_append, unescapeQuotes, ih]
        rfl
      · rw [escapeChar_of_ne slash quote, if_neg slash, List.singleton_append,
          unescapeQuotes_of_head (Or.inl slash), ih]
        rfl

theorem unescapeBackslashes_double (cs : List Char) : unescapeBackslashes (double cs) = cs := by
  induction cs with
  | nil => rfl
  | cons c cs ih =>
    rw [double_cons]
    by_cases slash : c = '\\'
    · rw [if_pos slash, List.cons_append, List.cons_append, List.nil_append, unescapeBackslashes,
        ih, slash]
    · rw [if_neg slash, List.singleton_append, unescapeBackslashes, ih]
      exact fun _ same _ => slash same

theorem length_escape_double (cs : List Char) :
    (escape (double cs)).length = (escape cs).length + 2 * cs.count '\\' := by
  induction cs with
  | nil => rfl
  | cons c cs ih =>
    rw [double_cons]
    by_cases slash : c = '\\'
    · subst slash
      have first := escapeChar_of_mark (c := '\\') (Or.inl rfl)
      simp only [if_true, List.cons_append, List.nil_append, escape_cons, first, List.length_cons,
        ih, List.count_cons_self]
      omega
    · simp only [if_neg slash, List.singleton_append, escape_cons, List.length_append, ih,
        List.count_cons_of_ne slash]
      omega

theorem length_le_length_escape (cs : List Char) : cs.length ≤ (escape cs).length := by
  induction cs with
  | nil => exact Nat.le_refl 0
  | cons c cs ih =>
    have first : 1 ≤ (escapeChar c).length := by
      unfold escapeChar
      split <;> simp
    rw [escape_cons, List.length_append, List.length_cons]
    omega

theorem closeQuote_eq_none {α : Type} {suffix? : List Char → Option α} {cs : List Char}
    (h : '"' ∉ cs) : closeQuote suffix? cs = none := by
  cases found : closeQuote suffix? cs with
  | none => rfl
  | some closed =>
    obtain ⟨value, last⟩ := closed
    obtain ⟨rest, rfl, _⟩ := closeQuote_eq_some found
    exact absurd (List.mem_append_right _ List.mem_cons_self) h

/-- The last quote closes a text if an allowed suffix without quotes follows it. -/
theorem closeQuote_append {α : Type} {suffix? : List Char → Option α} {mark : List Char} {a : α}
    (quote : '"' ∉ mark) (allowed : suffix? mark = some a) (front : List Char) :
    closeQuote suffix? (front ++ '"' :: mark) = some (front, a) := by
  induction front with
  | nil => simp [closeQuote, closeQuote_eq_none quote, allowed]
  | cons c front ih => rw [List.cons_append, closeQuote, ih]

end Text

theorem PatternTerm.expand_of_isAbsolute (prefixes : Table String) {text : String}
    (h : Resolver.isAbsolute text.toList = true) : expand prefixes text = text := by
  simp [expand, h]

/-- A quoted text without the quotes at its ends is no shorter than what its first quote and some
other enclose. -/
theorem TriplePattern.length_le_length_unquoted {text : String} {body mark : List Char}
    (h : text.toList = '"' :: (body ++ '"' :: mark)) :
    body.length ≤ (unquoted text).toList.length := by
  rw [unquoted, h, dropOpeningQuote, String.toList_ofList]
  split
  · simp
  · simp

open Text (escape double escapeChar_of_mark escapeChar_of_ne)

namespace Query

/-- The search for the closing brace takes an escaped text up to the quote behind it. -/
theorem quotedRest?_escape_append {cs rest : List Char} (line : ∀ c ∈ cs, c ≠ '\n' ∧ c ≠ '\r')
    (single : ∀ c ∈ rest.head?, c ≠ '"') :
    quotedRest? ('"' :: (escape cs ++ '"' :: rest)) = some rest := by
  have run : quoteRun '"' (escape cs ++ '"' :: rest) = '"' :: rest := by
    induction cs with
    | nil =>
      cases rest with
      | nil => rfl
      | cons d rest => exact (quoteRun_quote (by decide) d rest).trans (if_neg (single d rfl))
    | cons c cs ih =>
      obtain ⟨⟨feed, turn⟩, line⟩ := List.forall_mem_cons.1 line
      rw [Text.escape_cons]
      by_cases mark : c = '\\' ∨ c = '"'
      · have hexadecimal : c ≠ 'x' := by
          rcases mark with rfl | rfl <;> decide
        rw [escapeChar_of_mark mark]
        exact (quoteRun_escape hexadecimal _).trans (ih line)
      · obtain ⟨slash, quote⟩ := not_or.1 mark
        rw [escapeChar_of_ne slash quote]
        exact (quoteRun_plain quote slash feed turn _).trans (ih line)
  rw [quotedRest?, if_pos (Or.inl rfl), run]
  exact if_pos rfl

end Query

namespace Literal

/-- What the display text of a literal has behind its closing quote. -/
def mark (l : Literal) : List Char :=
  (l.suffix fun datatype => "<" ++ datatype ++ ">").toList

theorem toList_display (l : Literal) :
    l.display.toList = '"' :: (escape l.value.toList ++ '"' :: l.mark) := by
  simp [display, mark]

/-- The marks with which a literal can be asked for: none, a language, or the absolute IRI of a
datatype. -/
inductive PlainMark : Option String → Option String → Prop where
  | bare : PlainMark none none
  | language {tag : String} (h : Resolver.isLanguageTag tag.toList = true) :
      PlainMark (some tag) none
  | datatype {iri : String} (absolute : Resolver.isAbsolute iri.toList = true)
      (chars : iri.toList.all Query.isIriText = true) : PlainMark none (some iri)

/-- The marks behind which the store finds the closing quote of a literal: none, a language, or a
datatype without the characters that end it or the literal. -/
inductive LexicalMark : Option String → Option String → Prop where
  | bare : LexicalMark none none
  | language {tag : String} (h : Resolver.isLanguageTag tag.toList = true) :
      LexicalMark (some tag) none
  | datatype {iri : String} (inner : ∀ c ∈ iri.toList, c ≠ '>' ∧ c ≠ '"') :
      LexicalMark none (some iri)

theorem PlainMark.lexicalMark {language datatype : Option String}
    (h : PlainMark language datatype) : LexicalMark language datatype := by
  cases h with
  | bare => exact .bare
  | language h => exact .language h
  | datatype _ chars =>
    exact .datatype fun c hc =>
      have inner := List.all_eq_true.1 chars c hc
      ⟨Text.ne_of_class inner (by decide), Text.ne_of_class inner (by decide)⟩

theorem filter_ne_empty {s : String} (h : s ≠ "") : (some s).filter (· ≠ "") = some s := by
  simp [Option.filter, h]

theorem ne_empty_of_isAbsolute {iri : String} (h : Resolver.isAbsolute iri.toList = true) :
    iri ≠ "" := by
  rintro rfl
  simp [Resolver.isAbsolute, Resolver.schemes] at h

@[simp] theorem mark_bare (value : String) : (⟨value, none, none⟩ : Literal).mark = [] := by
  simp [mark, suffix]

/-- An empty datatype is none. -/
@[simp] theorem mark_emptyDatatype (value : String) :
    (⟨value, none, some ""⟩ : Literal).mark = [] := by
  have none : (some "").filter (fun s : String => decide (s ≠ "")) = none := rfl
  simp only [mark, suffix, none]
  simp

theorem mark_language (value : String) {tag : String} (filled : tag ≠ "") :
    (⟨value, some tag, none⟩ : Literal).mark = '@' :: tag.toList := by
  simp only [mark, suffix, filter_ne_empty filled]
  simp

theorem mark_datatype (value : String) {iri : String} (filled : iri ≠ "") :
    (⟨value, none, some iri⟩ : Literal).mark = '^' :: '^' :: Query.bracket iri.toList := by
  simp only [mark, suffix, filter_ne_empty filled]
  simp [Query.bracket]

theorem exists_cons_of_isLanguageTag {tag : String}
    (h : Resolver.isLanguageTag tag.toList = true) :
    ∃ c cs, tag = String.ofList (c :: cs) ∧ c.isAlpha = true ∧
      (cs.all fun d => d.isAlphanum || d == '-') = true := by
  cases shape : tag.toList with
  | nil => simp [shape, Resolver.isLanguageTag] at h
  | cons c cs =>
    rw [shape, Resolver.isLanguageTag, Bool.and_eq_true] at h
    exact ⟨c, cs, by rw [← shape, String.ofList_toList], h.1, h.2⟩

theorem ne_empty_of_isLanguageTag {tag : String} (h : Resolver.isLanguageTag tag.toList = true) :
    tag ≠ "" := by
  rintro rfl
  simp [Resolver.isLanguageTag] at h

theorem PlainMark.markText {l : Literal} (h : PlainMark l.language l.datatype) :
    Query.MarkText l.language l.datatype l.mark := by
  obtain ⟨value, language, datatype⟩ := l
  simp only at h
  cases h with
  | bare => exact .none
  | language h =>
    rw [mark_language value (ne_empty_of_isLanguageTag h)]
    obtain ⟨c, cs, rfl, letter, chars⟩ := exists_cons_of_isLanguageTag h
    rw [String.toList_ofList]
    exact .language letter chars
  | @datatype iri absolute chars =>
    rw [mark_datatype value (ne_empty_of_isAbsolute absolute)]
    have found := Query.MarkText.iri chars
    rwa [String.ofList_toList] at found

section Lexical

variable {l : Literal} (marked : LexicalMark l.language l.datatype)
include marked

theorem quote_notMem_mark : '"' ∉ l.mark := by
  obtain ⟨value, language, datatype⟩ := l
  simp only at marked
  cases marked with
  | bare => simp
  | @language tag h =>
    have outside : '"' ∉ tag.toList :=
      Text.notMem_of_all (Resolver.all_of_isLanguageTag h) (by decide)
    rw [mark_language value (ne_empty_of_isLanguageTag h)]
    simp [outside]
  | @datatype iri inner =>
    have outside : '"' ∉ iri.toList := fun found => (inner _ found).2 rfl
    by_cases filled : iri = ""
    · simp [filled]
    · rw [mark_datatype value filled, Query.bracket]
      simp [outside]

theorem literalEnd?_mark : Fact.literalEnd? l.mark = some () := by
  obtain ⟨value, language, datatype⟩ := l
  simp only at marked
  cases marked with
  | bare => rfl
  | @language tag h =>
    have filled := ne_empty_of_isLanguageTag h
    have line : '\n' ∉ tag.toList :=
      Text.notMem_of_all (Resolver.all_of_isLanguageTag h) (by decide)
    rw [mark_language value filled, Fact.literalEnd?_language_iff (by simpa using filled),
      Text.dropFinalNewline_eq_self line]
    exact h
  | @datatype iri inner =>
    by_cases filled : iri = ""
    · rw [filled, mark_emptyDatatype]
      rfl
    · have outside : '>' ∉ iri.toList := fun found => (inner _ found).1 rfl
      rw [mark_datatype value filled]
      exact Fact.literalEnd?_concat_iff.2 ⟨iri.toList, rfl, outside⟩

/-- The store takes the value of a literal from its display text. -/
theorem lexicalValue_display : Fact.lexicalValue l.display = l.value := by
  have closed := Text.closeQuote_append (quote_notMem_mark marked) (literalEnd?_mark marked)
    (escape l.value.toList)
  rw [Fact.lexicalValue, toList_display]
  simp only [closed, Text.unescapeQuotes_escape, Text.unescapeBackslashes_double,
    String.ofList_toList]

end Lexical

section Marked

variable {l : Literal} (plain : PlainMark l.language l.datatype)
include plain

/-- The token of a literal is its display text. -/
theorem literal?_display {rest : List Char} (ends : Query.Ends Query.isStop rest) :
    Query.literal? (l.display.toList ++ rest) = some (l.display.toList, rest) := by
  have text : l.display.toList ++ rest =
      '"' :: (escape l.value.toList ++ '"' :: (l.mark ++ rest)) := by
    simp [toList_display]
  have body := Text.quotedText?_escape_append l.value.toList (l.mark ++ rest)
  rw [text, Query.literal?_of_quotedText? body plain.markText ends]
  simp [toList_display]

theorem stripComments_display {rest : List Char} (ends : Query.Ends Query.isStop rest) :
    Query.stripComments (l.display.toList ++ rest) =
      l.display.toList ++ Query.stripComments rest := by
  refine Query.stripComments_kept ?_
  rw [literal?_display plain ends, toList_display, List.cons_append,
    Text.bracketed?_eq_none (by decide), Option.none_or]

theorem tokensOf_display {rest : List Char} (ends : Query.Ends Query.isStop rest) :
    Query.tokensOf (l.display.toList ++ rest) = l.display.toList :: Query.tokensOf rest := by
  have found := literal?_display plain ends
  rw [toList_display, List.cons_append] at found ⊢
  refine Query.tokenizes.cons_of_cut (by decide) ?_
  simp only [Query.cut, Text.bracketed?_eq_none (show '"' ≠ '<' by decide), found, Option.none_or,
    Option.some_or]

/-- The display text is read as the literal whose value has every backslash twice. -/
theorem termOf_display : Query.termOf l.display.toList =
    .literal { l with value := String.ofList (double l.value.toList) } := by
  have body := Text.quotedText?_escape_append l.value.toList l.mark
  rw [toList_display, Query.termOf, Query.literalOf_of_quotedText? body plain.markText,
    Text.unescapeQuotes_escape]

theorem isInert_mark : ∀ c ∈ l.mark, Query.isInert c = true :=
  Query.isInert_of_all_isTermChar plain.markText.all_isTermChar

/-- The search for the closing brace passes over a display text. -/
theorem closeBraces_display (line : ∀ c ∈ l.value.toList, c ≠ '\n' ∧ c ≠ '\r') {rest : List Char}
    (single : ∀ c ∈ rest.head?, c ≠ '"') (depth : Nat) :
    Query.closeBraces depth (l.display.toList ++ rest) = Query.closeBraces depth rest := by
  have inert := isInert_mark plain
  have next : ∀ c ∈ (l.mark ++ rest).head?, c ≠ '"' := by
    cases shape : l.mark with
    | nil => exact single
    | cons d mark =>
      have apart : d ≠ '"' :=
        Text.ne_of_class (inert d (shape ▸ List.mem_cons_self)) (by decide)
      exact Text.forall_head?_cons (p := fun c => c ≠ '"') apart (mark ++ rest)
  rw [toList_display, List.cons_append, List.append_assoc, List.cons_append,
    Query.closeBraces_quoted (Query.quotedRest?_escape_append line next)]
  exact Query.closeBraces_append inert depth rest

/-- Prefixes change nothing about a literal with a plain mark. -/
theorem constant?_literal (prefixes : Table String) :
    (PatternTerm.literal l).constant? prefixes = some l.display := by
  obtain ⟨value, language, datatype⟩ := l
  simp only at plain
  cases plain with
  | bare => rfl
  | language _ => rfl
  | @datatype iri absolute _ =>
    have filled := ne_empty_of_isAbsolute absolute
    simp only [PatternTerm.constant?, filter_ne_empty filled, Option.map_some]
    rw [PatternTerm.expand_of_isAbsolute prefixes absolute]

/-- What is read from the display text of a literal asks for this literal exactly when its value
holds no backslash. -/
theorem meetsObject_display_iff (subject predicate : Term) :
    TriplePattern.meetsObject
        (some { l with value := String.ofList (double l.value.toList) : Literal }.display)
        (Fact.ofTriple ⟨subject, predicate, .literal l⟩) = true ↔
      '\\' ∉ l.value.toList := by
  have lexical : (Fact.ofTriple ⟨subject, predicate, .literal l⟩).lexical = l.value := by
    simp only [Fact.ofTriple, Fact.ofTexts, Term.display, lexicalValue_display plain.lexicalMark]
  have object : (Fact.ofTriple ⟨subject, predicate, .literal l⟩).object = l.display := rfl
  rw [TriplePattern.meetsObject, lexical, object]
  constructor
  · intro met slash
    have more : 0 < l.value.toList.count '\\' := List.count_pos_iff.2 slash
    have longer := Text.length_escape_double l.value.toList
    have long := Text.length_le_length_escape l.value.toList
    generalize hc : ({ l with value := String.ofList (double l.value.toList) } : Literal) = asked
      at met
    have text := toList_display asked
    have same : asked.mark = l.mark := by rw [← hc]; rfl
    have value : asked.value.toList = double l.value.toList := by
      rw [← hc, String.toList_ofList]
    rw [same, value] at text
    rcases Bool.or_eq_true_iff.1 met with met | met
    · have equal := congrArg (fun s => s.toList.length) (eq_of_beq met)
      simp only [text, toList_display, List.length_cons, List.length_append] at equal
      omega
    · have equal := congrArg (fun s => s.toList.length) (eq_of_beq met)
      have rest := TriplePattern.length_le_length_unquoted text
      omega
  · intro slash
    rw [Text.double_eq_self slash, String.ofList_toList]
    simp

end Marked

end Literal

end Ontogram
