import Ontogram.Proofs.LiteralData
import Ontogram.Proofs.LiteralReading
import Ontogram.Proofs.PrivateNames

set_option autoImplicit false

namespace Ontogram

namespace Query

open Text

/-- A name with which a variable is read: a word, or a run of anything whose start is no word. -/
inductive IsVariableName : List Char → Prop where
  | word {name : List Char} (nonempty : name ≠ []) (chars : name.all isVariableChar = true) :
      IsVariableName name
  | run {name : List Char} (other : name.head?.any isVariableChar = false)
      (whole : dottedSpan isBareChar name = (name, [])) : IsVariableName name

/-- A language and a datatype with which a literal is read: not both, the language a tag, the
datatype without blanks and angle brackets. -/
inductive IsTokenMark : Option String → Option String → Prop where
  | bare : IsTokenMark none none
  | language {tag : String} (h : Resolver.isLanguageTag tag.toList = true) :
      IsTokenMark (some tag) none
  | datatype {name : String} (chars : ∀ c ∈ name.toList, isBracketChar c = true) :
      IsTokenMark none (some name)

end Query

namespace PatternTerm

open Query (IsVariableName IsTokenMark IsQuotable)

/-- The terms that are read from the text of a block. -/
inductive IsToken : PatternTerm → Prop where
  | var {name : String} (h : IsVariableName name.toList) : IsToken (.var name)
  | iri {text : String} (solid : ∀ c ∈ text.toList, Text.isBlank c = false) : IsToken (.iri text)
  | literal {l : Literal} (tab : '\t' ∉ l.value.toList)
      (mark : IsTokenMark l.language l.datatype) : IsToken (.literal l)

/-- The terms whose text says what they are. No angle bracket, quote, hash sign or colon stands in
the name of a variable, where it would start something else. An IRI holds no angle bracket. The
value of a literal has no quote, ends with no open escape and declares no prefix, and its datatype
is not empty. -/
inductive IsLegible : PatternTerm → Prop where
  | var {name : String} (plain : ∀ c ∈ name.toList, c ∉ ['<', '"', '#', ':']) :
    IsLegible (.var name)
  | iri {text : String} (inner : ∀ c ∈ text.toList, c ≠ '<' ∧ c ≠ '>') : IsLegible (.iri text)
  | literal {l : Literal} (quote : '"' ∉ l.value.toList) (quotable : IsQuotable l.value.toList)
      (undeclared : Query.prefixClauses l.value.toList = []) (typed : l.datatype ≠ some "") :
      IsLegible (.literal l)

instance : DecidablePred IsQuotable := fun value =>
  inferInstanceAs (Decidable (Text.quotedTail? (value ++ ['"']) = some (value ++ ['"'], [])))

instance : DecidablePred IsLegible
  | .var name => decidable_of_iff (name.toList.all fun c => c ∉ ['<', '"', '#', ':'])
      ⟨fun h => .var (by simpa using h), fun | .var plain => by simpa using plain⟩
  | .iri text => decidable_of_iff (text.toList.all fun c => c ≠ '<' ∧ c ≠ '>')
      ⟨fun h => .iri (by simpa using h), fun | .iri inner => by simpa using inner⟩
  | .literal l => decidable_of_iff
      ('"' ∉ l.value.toList ∧ IsQuotable l.value.toList ∧
        Query.prefixClauses l.value.toList = [] ∧ l.datatype ≠ some "")
      ⟨fun h => .literal h.1 h.2.1 h.2.2.1 h.2.2.2,
        fun | .literal quote quotable undeclared typed => ⟨quote, quotable, undeclared, typed⟩⟩

end PatternTerm

namespace Query

open Text
open PatternTerm (IsToken IsLegible)

theorem not_isBlank_of_isBracketChar {c : Char} (h : isBracketChar c = true) :
    isBlank c = false := by
  simp only [isBracketChar, Bool.and_eq_true, Bool.not_eq_true'] at h
  exact h.1.1

theorem of_mem_dottedSpan {p : Char → Bool} {cs : List Char} {c : Char}
    (h : c ∈ (dottedSpan p cs).1) : p c = true ∨ c = '.' := by
  induction cs with
  | nil => cases h
  | cons d cs ih =>
    rw [dottedSpan] at h
    split at h
    · rename_i taken
      rcases List.mem_cons.1 h with rfl | h
      · exact (Bool.or_eq_true_iff.1 taken).imp_right fun dot =>
          eq_of_beq (Bool.and_eq_true_iff.1 dot).1
      · exact ih h
    · cases h

/-- A run of anything holds no blank. -/
theorem not_isBlank_of_mem_run {cs : List Char} {c : Char}
    (h : c ∈ (dottedSpan isBareChar cs).1) : isBlank c = false := by
  rcases of_mem_dottedSpan h with bare | rfl
  · simpa using (Bool.and_eq_true_iff.1 bare).1
  · decide

theorem isBracketChar_of_solid {cs : List Char} (solid : ∀ c ∈ cs, isBlank c = false)
    (inner : ∀ c ∈ cs, c ≠ '<' ∧ c ≠ '>') : ∀ c ∈ cs, isBracketChar c = true := by
  intro c hc
  obtain ⟨left, right⟩ := inner c hc
  simp [isBracketChar, solid c hc, left, right]

/-! Marks of literals. -/

section Mark

variable {l : Literal} (marked : IsTokenMark l.language l.datatype) (typed : l.datatype ≠ some "")
include marked typed

/-- What is written behind the closing quote is read there. -/
theorem markAt_mark (rest : List Char) :
    markAt (l.mark ++ ' ' :: rest) = (l.mark, ' ' :: rest) := by
  obtain ⟨value, language, datatype⟩ := l
  simp only at marked typed
  cases marked with
  | bare => rw [Literal.mark_bare]; rfl
  | @language tag valid =>
    have filled := Literal.ne_empty_of_isLanguageTag valid
    rw [Literal.mark_language value filled]
    obtain ⟨c, cs, rfl, letter, chars⟩ := Literal.exists_cons_of_isLanguageTag valid
    have cut : span (fun d => d.isAlphanum || d == '-') (cs ++ ' ' :: rest) = (cs, ' ' :: rest) :=
      span_append_of_all (List.all_eq_true.1 chars) (forall_head?_cons (by decide) rest)
    have found : languageMark? ('@' :: c :: (cs ++ ' ' :: rest)) =
        some ('@' :: c :: cs, ' ' :: rest) := by
      rw [languageMark?, if_pos letter, cut]
    rw [String.toList_ofList, List.cons_append, List.cons_append, markAt, found]
    rfl
  | @datatype name chars =>
    have filled : name ≠ "" := fun empty => typed (congrArg some empty)
    rw [Literal.mark_datatype value filled]
    have found : typeMark? ('^' :: '^' :: (bracket name.toList ++ ' ' :: rest)) =
        some ('^' :: '^' :: bracket name.toList, ' ' :: rest) := by
      rw [typeMark?, bracketed?_bracket_append chars]
    rw [List.cons_append, List.cons_append, markAt, found]
    rfl

/-- What is written behind the closing quote says the language and the datatype. -/
theorem literalOf_mark : literalOf (inQuotes [] l.mark) = ⟨"", l.language, l.datatype⟩ := by
  have empty : quotedText? (inQuotes [] l.mark) = some (['"', '"'], l.mark) := rfl
  rw [literalOf, empty]
  obtain ⟨value, language, datatype⟩ := l
  simp only at marked typed
  cases marked with
  | bare => rw [Literal.mark_bare]; rfl
  | @language tag valid =>
    rw [Literal.mark_language value (Literal.ne_empty_of_isLanguageTag valid)]
    simp [unescapeQuotes]
  | @datatype name chars =>
    rw [Literal.mark_datatype value fun empty => typed (congrArg some empty)]
    simp [unescapeQuotes, isBracketed_bracket, tail_dropLast_bracket]

/-- Behind the closing quote stands a datatype in brackets, or nothing that a bracket or a colon is
part of. -/
theorem mark_forms : (':' ∉ l.mark ∧ ∀ c ∈ l.mark, isBracketChar c = true) ∨
    ∃ name, l.mark = '^' :: '^' :: bracket name ∧ ∀ c ∈ name, isBracketChar c = true := by
  obtain ⟨value, language, datatype⟩ := l
  simp only at marked typed
  cases marked with
  | bare => exact Or.inl (by simp)
  | @language tag valid =>
    left
    rw [Literal.mark_language value (Literal.ne_empty_of_isLanguageTag valid)]
    have chars := Resolver.all_of_isLanguageTag valid
    have colon : ':' ∉ tag.toList := notMem_of_all chars (by decide)
    refine ⟨List.not_mem_cons_of_ne_of_not_mem (by decide) colon,
      List.forall_mem_cons.2 ⟨by decide, fun d hd => ?_⟩⟩
    refine isBracketChar_of_isIriText ?_
    rcases Bool.or_eq_true_iff.1 (List.all_eq_true.1 chars d hd) with ascii | hyphen
    · simp [isIriText, ascii]
    · rw [eq_of_beq hyphen]
      decide
  | @datatype name chars =>
    right
    exact ⟨name.toList, Literal.mark_datatype value fun empty => typed (congrArg some empty), chars⟩

theorem not_isBlank_of_mem_mark : ∀ c ∈ l.mark, isBlank c = false := by
  rcases mark_forms marked typed with ⟨-, chars⟩ | ⟨name, shape, chars⟩
  · exact fun c hc => not_isBlank_of_isBracketChar (chars c hc)
  · have inside : ∀ c ∈ name, isBlank c = false := fun c hc =>
      not_isBlank_of_isBracketChar (chars c hc)
    simp only [shape, bracket, List.forall_mem_cons, List.forall_mem_append]
    exact ⟨by decide, by decide, by decide, inside, by decide, List.forall_mem_nil _⟩

end Mark

/-! Names of variables. -/

theorem IsVariableName.not_isBlank {name : List Char} (h : IsVariableName name) :
    ∀ c ∈ name, isBlank c = false := by
  cases h with
  | word _ chars =>
    intro c hc
    have range := toNat_of_isPlainChar (List.all_eq_true.1 chars c hc)
    exact isBlank_eq_false (by omega) (by omega)
  | run _ whole =>
    intro c hc
    have taken : c ∈ (dottedSpan isBareChar name).1 := by rwa [whole]
    exact not_isBlank_of_mem_run taken

/-- The mark of a variable and its name are one token. -/
theorem IsVariableName.cut_eq {name : List Char} (h : IsVariableName name) (rest : List Char) :
    cut '?' (name ++ ' ' :: rest) = ('?' :: name, ' ' :: rest) := by
  cases h with
  | word nonempty chars =>
    have text : TermText (.var (String.ofList name)) ('?' :: name) :=
      .var (.var (Or.inl rfl) nonempty chars)
    exact text.cut_eq (forall_head?_cons (Or.inl (by decide)) rest)
  | run other whole =>
    have token : variableToken? ('?' :: (name ++ ' ' :: rest)) = none := by
      have first : ((name ++ ' ' :: rest).head?.any isVariableChar) = false := by
        rwa [head?_any_stop (by decide)]
      cases shape : name ++ ' ' :: rest with
      | nil => rfl
      | cons c cs =>
        rw [shape] at first
        rw [variableToken?, if_neg fun found => Bool.eq_false_iff.1 first found.2]
    have absolute := absoluteIri?_eq_none (c := '?') (name ++ ' ' :: rest) (by decide) (by decide)
    have named := prefixedName?_eq_none (c := '?') (name ++ ' ' :: rest) (by decide) (by decide)
    have number := number?_eq_none (numeral?_eq_none (c := '?') (name ++ ' ' :: rest) (by decide)
      (by decide) (by decide))
    have run : dottedSpan isBareChar (name ++ ' ' :: rest) = (name, ' ' :: rest) := by
      rw [dottedSpan_stop (by decide) (by decide), whole]
      rfl
    simp only [cut, bracketed?_eq_none (show '?' ≠ '<' by decide),
      literal?_eq_none (show '?' ≠ '"' by decide), token, absolute, named, number, Option.none_or,
      run]
    rfl

theorem unescapeQuotes_of_notMem {cs : List Char} (quote : '"' ∉ cs) : unescapeQuotes cs = cs := by
  induction cs with
  | nil => rfl
  | cons c cs ih =>
    obtain ⟨_, rest⟩ := not_or.1 (List.mem_cons.not.1 quote)
    have next : cs.head? ≠ some '"' := fun h => rest (List.mem_of_mem_head? h)
    rw [unescapeQuotes_of_head (Or.inr next), ih rest]

/-! Terms. -/

theorem stripComments_bracket {iri : List Char} (chars : ∀ c ∈ iri, isBracketChar c = true)
    (rest : List Char) :
    stripComments (bracket iri ++ rest) = bracket iri ++ stripComments rest :=
  stripComments_kept (by rw [bracketed?_bracket_append chars, Option.some_or])

theorem toList_text_var (name : String) :
    (PatternTerm.var name).text.toList = '?' :: name.toList := by
  simp [PatternTerm.text]

theorem toList_text_iri (text : String) :
    (PatternTerm.iri text).text.toList = bracket text.toList := by
  simp [PatternTerm.text, bracket]

theorem toList_text_literal (l : Literal) :
    (PatternTerm.literal l).text.toList = inQuotes l.value.toList l.mark := by
  simp [PatternTerm.text, inQuotes, Literal.mark]

theorem text_ne_dot (t : PatternTerm) : t.text.toList ≠ ['.'] := by
  cases t with
  | var name => simp [toList_text_var]
  | iri text => simp [toList_text_iri, bracket]
  | literal l => simp [toList_text_literal, inQuotes]

section Terms

variable {t : PatternTerm} (token : t.IsToken) (legible : t.IsLegible)
include token legible

/-- The text of a term has no comment in it. -/
theorem stripComments_text (rest : List Char) :
    stripComments (t.text.toList ++ ' ' :: rest) =
      t.text.toList ++ stripComments (' ' :: rest) := by
  cases token with
  | @var name _ =>
    cases legible with
    | var plain =>
      rw [toList_text_var]
      refine stripComments_append (List.forall_mem_cons.2 ⟨by decide, fun c hc => ?_⟩) (' ' :: rest)
      have apart (d : Char) (hd : d ∈ ['<', '"', '#', ':']) : c ≠ d := fun same =>
        plain c hc (same ▸ hd)
      exact ⟨apart '<' (by decide), apart '"' (by decide), apart '#' (by decide)⟩
  | @iri text solid =>
    cases legible with
    | iri inner =>
      rw [toList_text_iri, stripComments_bracket (isBracketChar_of_solid solid inner)]
  | @literal l _ mark =>
    cases legible with
    | literal _ quotable _ typed =>
      rw [toList_text_literal, ← inQuotes_append, stripComments_inQuotes quotable,
        markAt_mark mark typed, inQuotes_append]

/-- The text of a term is one token. -/
theorem tokensOf_text (rest : List Char) :
    tokensOf (t.text.toList ++ ' ' :: rest) = t.text.toList :: tokensOf (' ' :: rest) := by
  cases token with
  | @var name named =>
    rw [toList_text_var]
    exact tokenizes.cons_of_cut (by decide) (named.cut_eq rest)
  | @iri text solid =>
    cases legible with
    | iri inner =>
      have found := bracketed?_bracket_append (isBracketChar_of_solid solid inner) (' ' :: rest)
      rw [toList_text_iri]
      rw [bracket, List.cons_append] at found ⊢
      refine tokenizes.cons_of_cut (by decide) ?_
      simp only [cut, found, Option.some_or]
  | @literal l _ mark =>
    cases legible with
    | literal _ quotable _ typed =>
      rw [toList_text_literal, ← inQuotes_append, tokensOf_inQuotes quotable,
        markAt_mark mark typed]

/-- The text of a term stands for the term. -/
theorem termOf_text : termOf t.text.toList = t := by
  cases token with
  | @var name _ => exact termOf_eq_var_iff.2 ⟨'?', Or.inl rfl, toList_text_var name⟩
  | @iri text _ =>
    rw [toList_text_iri, termOf_eq_run (show bracket text.toList = '<' :: _ from rfl) (by decide)
      (by decide) (by decide) (by simp [bracket]), if_pos (isBracketed_bracket _),
      tail_dropLast_bracket, String.ofList_toList]
  | @literal l _ mark =>
    cases legible with
    | literal quote quotable _ typed =>
      rw [toList_text_literal, termOf_inQuotes quotable, literalOf_mark mark typed,
        unescapeQuotes_of_notMem quote, String.ofList_toList]

theorem tab_notMem_text : '\t' ∉ t.text.toList := by
  have clean {cs : List Char} (solid : ∀ c ∈ cs, isBlank c = false) : '\t' ∉ cs := fun tab =>
    absurd (solid '\t' tab) (by decide)
  cases token with
  | @var name named =>
    have inside := clean named.not_isBlank
    simp [toList_text_var, inside]
  | @iri text solid =>
    have inside := clean solid
    simp [toList_text_iri, bracket, inside]
  | @literal l tab mark =>
    cases legible with
    | literal _ _ _ typed =>
      have behind := clean (not_isBlank_of_mem_mark mark typed)
      simp [toList_text_literal, inQuotes, tab, behind]

end Terms

end Query

end Ontogram
