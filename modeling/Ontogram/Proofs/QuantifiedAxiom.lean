import Ontogram.Proofs.ImplicitRestriction
import Ontogram.Proofs.Respacing

set_option autoImplicit false

namespace Ontogram

namespace Expression

open Text (isBlank words wordsOf IsIdentifier)

/-- A quantifier is one token, in any case. -/
theorem tokensOf_quantifier {u : List Char} {quantifier : Quantifier}
    (spelled : Text.lowerOf u = quantifier.word.toList) (solid : ∀ c ∈ u, isBlank c = false)
    {rest : List Char} (blank : ∀ c ∈ rest.head?, isBlank c = true) :
    tokensOf (u ++ rest) = u :: tokensOf rest := by
  have self : ∀ d ∈ ['(', ')', '"', '<'], Text.lowerChar d = [d] := by
    simp [Text.lowerChar]
  have other : ∀ d ∈ ['(', ')', '"', '<'], d ∉ quantifier.word.toList := by
    cases quantifier <;> simp [Quantifier.word]
  have marks : ∀ d ∈ ['(', ')', '"', '<'], d ∉ u := fun d mark mem =>
    other d mark (spelled ▸ List.mem_flatMap.2 ⟨d, mem, by simp [self d mark]⟩)
  have chars : ∀ c ∈ u, isWordChar c = true := by
    intro c hc
    have apart (d : Char) (mark : d ∈ ['(', ')', '"', '<']) : c ≠ d := by
      rintro rfl
      exact marks c mark hc
    simp [isWordChar, solid c hc, apart '(' (by decide), apart ')' (by decide),
      apart '"' (by decide)]
  cases u with
  | nil =>
    have nonempty : quantifier.word.toList ≠ [] := by cases quantifier <;> decide
    exact absurd spelled.symm nonempty
  | cons c cs =>
    obtain ⟨first, others⟩ := List.forall_mem_cons.1 chars
    exact tokensOf_word first (fun same => marks '<' (by decide) (same ▸ List.mem_cons_self)) others
      blank

/-- A value whose first word is a quantifier. -/
structure StartsWith (quantifier : Quantifier) (word : String) (value : String) : Prop where
  first : word ∈ (words value).head?
  spelled : Text.lower word = quantifier.word

section Value

variable {name value word : String} {quantifier : Quantifier} (named : IsIdentifier name)
  (starts : StartsWith quantifier word value)

include starts in
/-- The value is its quantifier, with blanks in front of it, and what stands behind it. -/
theorem StartsWith.exists_rest : ∃ rest, rest <:+ value.toList ∧ rest.head?.all isBlank = true ∧
    words value = word :: (wordsOf rest).map String.ofList ∧
    tokensOf value.toList = word.toList :: tokensOf rest := by
  obtain ⟨ws, all⟩ := List.head?_eq_some_iff.1 (Option.mem_def.1 starts.first)
  rw [words] at all
  obtain ⟨w, others, split, rfl, rfl⟩ := List.map_eq_cons_iff.1 all
  obtain ⟨gap, rest, text, blanks, ends, behind⟩ := Text.exists_firstWord split
  have solid (c : Char) (hc : c ∈ w) : isBlank c = false :=
    Text.not_isBlank_of_mem_wordsOf (split ▸ List.mem_cons_self) hc
  have spelled : Text.lowerOf w = quantifier.word.toList := by
    rw [← starts.spelled, Text.lower, String.toList_ofList, String.toList_ofList]
  refine ⟨rest, ⟨gap ++ w, by rw [text, List.append_assoc]⟩, ends, ?_, ?_⟩
  · rw [words, all, behind]
  · rw [text, tokenizes.blanks blanks,
      tokensOf_quantifier spelled solid (by simpa [Option.all_eq_true] using ends),
      String.toList_ofList]

/-- A property, a quantifier and the words of a value behind its first, with single spaces. -/
def respaced (name : String) (quantifier : Quantifier) (value : String) : String :=
  String.intercalate " " (name :: quantifier.word :: (words value).tail)

include named starts

theorem StartsWith.tokens_respaced (safe : IsQuoteSafe value.toList) :
    tokens (respaced name quantifier value) =
      name :: quantifier.word :: ((tokensOf value.toList).tail.map squeeze).map String.ofList := by
  obtain ⟨rest, suffix, ends, split, tokenized⟩ := starts.exists_rest
  have spelled : Text.lowerOf quantifier.word.toList = quantifier.word.toList := by
    cases quantifier <;> decide
  have solid (c : Char) (hc : c ∈ quantifier.word.toList) : isBlank c = false := by
    have letters : (quantifier.word.toList.all fun c => !isBlank c) = true := by
      cases quantifier <;> decide
    simpa using List.all_eq_true.1 letters c hc
  have behind : IsQuoteSafe rest := fun quote infix_ =>
    safe (tokenized ▸ List.mem_cons_of_mem _ quote) (infix_.trans suffix.isInfix)
  have text : (respaced name quantifier value).toList =
      name.toList ++ ' ' :: (quantifier.word.toList ++ squeeze rest) := by
    have chars : ((words value).tail.map String.toList) = wordsOf rest := by
      simp [split, Function.comp_def]
    have spaced := (intercalate_wordsOf rest).2 ends quantifier.word.toList
    rw [respaced, String.toList_intercalate, List.map_cons, List.map_cons, chars, ← spaced]
    simp
  have all : tokensOf (respaced name quantifier value).toList =
      name.toList :: quantifier.word.toList :: (tokensOf value.toList).tail.map squeeze := by
    rw [text, tokensOf_identifier named (by simp [Text.isBlank_space]),
      tokenizes.blank ' ' _ Text.isBlank_space,
      tokensOf_quantifier spelled solid (head?_squeeze ends), tokensOf_squeeze behind, tokenized,
      List.tail_cons]
  rw [tokens_eq_tokensOf, all]
  · simp
  · rw [all]
    refine List.forall_mem_cons.2 ⟨named.notMem (by decide), List.forall_mem_cons.2 ⟨?_, ?_⟩⟩
    · exact fun tab => absurd (solid _ tab) (by decide)
    · exact List.forall_mem_map.2 fun token _ => tab_notMem_squeeze token

/-- What is read from the name and the respaced value. -/
theorem StartsWith.parse_respaced (safe : IsQuoteSafe value.toList) :
    parse (respaced name quantifier value) =
      parseTokens (name :: quantifier.word ::
        balance (((tokensOf value.toList).tail.map squeeze).map String.ofList)) := by
  have front : Balanced [name, quantifier.word] :=
    .token (isParen_of_isIdentifier named) (.token (by cases quantifier <;> decide) .nil)
  rw [parse, starts.tokens_respaced named safe]
  exact congrArg parseTokens (front.balance_append _)

/-- What is read from the name and the value as they are. -/
theorem StartsWith.parse_behind (clean : ∀ token ∈ tokensOf value.toList, '\t' ∉ token) :
    parse (name ++ " " ++ value) =
      parseTokens (name :: word :: balance ((tokensOf value.toList).tail.map String.ofList)) := by
  obtain ⟨rest, -, -, -, tokenized⟩ := starts.exists_rest
  have front : Balanced [name, word] :=
    .token (isParen_of_isIdentifier named) (.token (isParen_of_quantifier starts.spelled) .nil)
  rw [parse, tokens_behind named clean, tokens_eq_tokensOf clean, tokenized, List.map_cons,
    String.ofList_toList]
  exact congrArg parseTokens (front.balance_append _)

end Value

end Expression

namespace Encoding

open Expression (tokensOf squeeze StartsWith IsQuoteSafe)

theorem restrictionText_quantified {quantifier : Quantifier} {property value word : String}
    (starts : StartsWith quantifier word value) :
    restrictionText property value = Expression.respaced property quantifier value := by
  have known : quantifierOf? word = some quantifier := by
    rw [quantifierOf?, starts.spelled]
    cases quantifier <;> decide
  obtain ⟨ws, all⟩ := List.head?_eq_some_iff.1 (Option.mem_def.1 starts.first)
  rw [restrictionText, all]
  simp only [known, Expression.respaced, all, List.tail_cons]

/-- An axiom on a class or an individual that is named after a property, by one word, and whose
value starts with a quantifier. It is in lower case where the name is a keyword. -/
structure IsQuantified (e : Entity) (a : Axiom) (quantifier : Quantifier) (word : String) :
    Prop where
  thing : e.isProperty = false
  named : Text.IsIdentifier a.name
  implicit : AxiomKind.ofName a.name = .implicitRestriction
  starts : StartsWith quantifier word a.expression
  plain : word = quantifier.word ∨ Text.lower a.name ∉ ["or", "and", "not"]

section Quantified

variable (r : Resolver) {e : Entity} (subject : Term) {a : Axiom} (n : Int)
  {quantifier : Quantifier} {word : String}

theorem emitAxiom_subClassOf (thing : e.isProperty = false) {expression : String}
    (visible : Text.strip expression ≠ "") :
    emitAxiom r e subject ⟨"SubClassOf", expression⟩ n =
      emitLink r subject Vocabulary.subClassOf expression n := by
  have kind : AxiomKind.ofName "SubClassOf" = .subClassOf := by decide +kernel
  rw [emitAxiom, if_neg visible]
  simp [kind, AxiomKind.isPropertyOnly, AxiomKind.isClassOnly, emitKind, thing]

theorem IsQuantified.emitAxiom_eq (h : IsQuantified e a quantifier word) :
    emitAxiom r e subject a n =
      emitLink r subject Vocabulary.subClassOf
        (Expression.respaced a.name quantifier a.expression) n := by
  obtain ⟨rest, -, -, -, tokenized⟩ := h.starts.exists_rest
  have visible : Text.strip a.expression ≠ "" := Expression.strip_ne_empty (by simp [tokenized])
  rw [emitAxiom, if_neg visible]
  simp only [h.implicit, AxiomKind.isPropertyOnly, AxiomKind.isClassOnly, emitKind,
    emitRestriction, h.thing, h.named.underscored_eq, h.named.ne_empty,
    restrictionText_quantified h.starts, Bool.false_and, Bool.false_eq_true, if_false]

/-- An axiom that is named after a property, with a quantifier in front of its value, says the same
as a superclass of its name and its value, where the tokens of the value hold no blanks but single
spaces. -/
theorem emitAxiom_quantified (h : IsQuantified e a quantifier word)
    (spaced : ∀ token ∈ tokensOf a.expression.toList, squeeze token = token)
    (safe : IsQuoteSafe a.expression.toList) :
    emitAxiom r e subject a n =
      emitAxiom r e subject ⟨"SubClassOf", a.name ++ " " ++ a.expression⟩ n := by
  have clean : ∀ token ∈ tokensOf a.expression.toList, '\t' ∉ token := fun token mem =>
    spaced token mem ▸ Expression.tab_notMem_squeeze token
  have visible : Text.strip (a.name ++ " " ++ a.expression) ≠ "" := by
    apply Expression.strip_ne_empty
    rw [Expression.tokensOf_behind h.named]
    exact List.cons_ne_nil _ _
  have same : (tokensOf a.expression.toList).tail.map squeeze =
      (tokensOf a.expression.toList).tail := by
    rw [List.map_tail, (List.map_congr_left spaced).trans (List.map_id _)]
  have read : Expression.parse (Expression.respaced a.name quantifier a.expression) =
      Expression.parse (a.name ++ " " ++ a.expression) := by
    rw [h.starts.parse_respaced h.named safe, h.starts.parse_behind h.named clean, same]
    rcases h.plain with rfl | free
    · rfl
    · have lower : Text.lower quantifier.word = quantifier.word := by
        cases quantifier <;> decide
      exact Expression.parseTokens_quantifier (Expression.isParen_of_isIdentifier h.named) free
        lower h.starts.spelled _
  rw [h.emitAxiom_eq, emitAxiom_subClassOf r subject n h.thing visible, emitLink, emitLink,
    Expression.lowerText, Expression.lowerText, read]

end Quantified

theorem isQuantified_eats {quantifier : Quantifier} {value : String}
    (first : quantifier.word ∈ (Text.words value).head?) :
    IsQuantified eater ⟨"eats", value⟩ quantifier quantifier.word where
  thing := rfl
  named := isIdentifier_eats
  implicit := implicit_eats
  starts := ⟨first, by cases quantifier <;> decide⟩
  plain := Or.inl rfl

theorem emitAxiom_quantified_onlyDogOrCat :
    let r := Resolver.default
    let subject := subjectOf r eater
    let value := " only  ( Dog\tor \"a b\" )"
    IsQuantified eater ⟨"eats", value⟩ .only "only" ∧
      (∀ token ∈ tokensOf value.toList, squeeze token = token) ∧ IsQuoteSafe value.toList ∧
      emitAxiom r eater subject ⟨"eats", value⟩ 0 =
        emitAxiom r eater subject ⟨"SubClassOf", "eats" ++ " " ++ value⟩ 0 := by
  intro r subject value
  have quantified : IsQuantified eater ⟨"eats", value⟩ .only "only" :=
    isQuantified_eats (by decide)
  have spaced : ∀ token ∈ tokensOf value.toList, squeeze token = token := by decide +kernel
  have unquoted : ['"'] ∉ tokensOf value.toList := by decide +kernel
  have safe : IsQuoteSafe value.toList := fun quote => absurd quote unquoted
  exact ⟨quantified, spaced, safe, emitAxiom_quantified r subject 0 quantified spaced safe⟩

/-- A literal with two spaces is another one than the same text as a superclass has. -/
theorem not_quantified_wideLiteral :
    let r := Resolver.default
    let subject := subjectOf r eater
    let value := "value \"a  b\""
    IsQuantified eater ⟨"eats", value⟩ .value "value" ∧
      (emitAxiom r eater subject ⟨"eats", value⟩ 0).triples ≠
        (emitAxiom r eater subject ⟨"SubClassOf", "eats" ++ " " ++ value⟩ 0).triples := by
  exact ⟨isQuantified_eats (by decide), by decide +kernel⟩

end Encoding

end Ontogram
