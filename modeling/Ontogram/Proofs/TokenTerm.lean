import Ontogram.Proofs.Identifier
import Ontogram.Proofs.PrintedTerm

set_option autoImplicit false

namespace Ontogram.Query

open Text
open PatternTerm (IsToken)

theorem not_isBlank_of_isDigit {c : Char} (h : isDigit c = true) : isBlank c = false := by
  have apart : ∀ z ∈ zeroPoints, ∀ r ∈ (9, 13) :: (28, 32) :: wideBlanks,
      r.2 < z ∨ z + 9 < r.1 := by decide +kernel
  rw [isDigit, digitValue?, Option.isSome_map, List.find?_isSome] at h
  obtain ⟨z, digits, within⟩ := h
  simp only [Bool.and_eq_true, decide_eq_true_eq] at within
  have outside := apart z digits
  simp only [List.forall_mem_cons] at outside
  obtain ⟨first, second, wide⟩ := outside
  refine Bool.eq_false_iff.2 fun blank => ?_
  unfold isBlank at blank
  split at blank
  · simp only [Bool.or_eq_true, Bool.and_eq_true, decide_eq_true_eq] at blank
    omega
  · obtain ⟨r, hr, lower, upper⟩ := inRanges_iff.1 blank
    have := wide r hr
    omega

theorem isBracketChar_of_isNameChar {c : Char} (h : isNameChar c = true) :
    isBracketChar c = true := by
  rcases Bool.or_eq_true_iff.1 h with word | hyphen
  · have apart (d : Char) (hd : isWord d = false) : c ≠ d := ne_of_class word hd
    simp [isBracketChar, isBlank_eq_false_of_isWord word, apart '<' (by decide),
      apart '>' (by decide)]
  · rw [eq_of_beq hyphen]
    decide

theorem isBracketChar_of_mem_dottedSpan {cs : List Char} {c : Char}
    (h : c ∈ (dottedSpan isNameChar cs).1) : isBracketChar c = true := by
  rcases of_mem_dottedSpan h with named | rfl
  · exact isBracketChar_of_isNameChar named
  · decide

theorem isBracketChar_of_prefixMark? {cs mark rest : List Char}
    (h : prefixMark? cs = some (mark, rest)) : ∀ c ∈ mark, isBracketChar c = true := by
  unfold prefixMark? at h
  dsimp only at h
  split at h
  · obtain ⟨rfl, -⟩ := Prod.mk.inj (Option.some.inj h)
    refine List.forall_mem_append.2 ⟨?_, List.forall_mem_singleton.2 (by decide)⟩
    split
    · split
      · exact fun c hc => isBracketChar_of_isNameChar (List.mem_takeWhile_imp hc)
      · exact List.forall_mem_nil _
    · exact List.forall_mem_nil _
  · cases h

theorem isBracketChar_of_prefixedName? {cs text rest : List Char}
    (h : prefixedName? cs = some (text, rest)) : ∀ c ∈ text, isBracketChar c = true := by
  obtain ⟨⟨mark, back⟩, found, read⟩ := Option.bind_eq_some_iff.1 h
  have front := isBracketChar_of_prefixMark? found
  simp only at read
  split at read
  · obtain ⟨rfl, -⟩ := Prod.mk.inj (Option.some.inj read)
    exact List.forall_mem_append.2 ⟨front, fun c => isBracketChar_of_mem_dottedSpan⟩
  · obtain ⟨rfl, -⟩ := Prod.mk.inj (Option.some.inj read)
    exact front

theorem not_isBlank_of_absoluteIri? {cs text rest : List Char}
    (h : absoluteIri? cs = some (text, rest)) : ∀ c ∈ text, isBlank c = false := by
  obtain ⟨scheme, known, read⟩ := Option.bind_eq_some_iff.1 h
  simp only at read
  split at read
  · cases read
  · obtain ⟨rfl, -⟩ := Prod.mk.inj (Option.some.inj read)
    have solid : (schemes.all fun scheme => scheme.all fun c => !isBlank c) = true := by decide
    refine List.forall_mem_append.2 ⟨fun c hc => ?_, fun c hc => ?_⟩
    · have letters := List.all_eq_true.1 solid scheme (List.mem_of_find?_eq_some known)
      simpa using List.all_eq_true.1 letters c hc
    · have inside := List.mem_takeWhile_imp ((stripRight_isPrefix _ _).subset hc)
      simp only [isIriChar, Bool.and_eq_true, Bool.not_eq_true'] at inside
      exact inside.1.1.1.1.1

theorem not_isBlank_of_number? {cs text rest : List Char} (h : number? cs = some (text, rest)) :
    ∀ c ∈ text, isBlank c = false := by
  intro c hc
  unfold number? at h
  split at h
  · rename_i found
    split at h
    · cases h
    · cases h
      rcases mem_of_numeral? found c hc with digit | mark
      · exact not_isBlank_of_isDigit digit
      · simp only [List.mem_cons, List.not_mem_nil, or_false] at mark
        rcases mark with rfl | rfl | rfl <;> decide
  · cases h

/-- Text that is read as a variable is a mark and a word. -/
theorem exists_of_variableToken? {cs token rest : List Char}
    (h : variableToken? cs = some (token, rest)) :
    ∃ mark name, (mark = '?' ∨ mark = '$') ∧ token = mark :: name ∧ name ≠ [] ∧
      name.all isVariableChar = true := by
  unfold variableToken? at h
  split at h
  · split at h
    · rename_i c d back shape
      obtain ⟨rfl, -⟩ := Prod.mk.inj (Option.some.inj h)
      refine ⟨c, d :: (span isVariableChar back).1, shape.1, rfl, List.cons_ne_nil _ _, ?_⟩
      exact List.all_eq_true.2 (List.forall_mem_cons.2 ⟨shape.2, fun e => List.mem_takeWhile_imp⟩)
    · cases h
  · cases h

/-- A token that starts with no quote holds no blank. -/
theorem not_isBlank_of_mem_cut {c : Char} (visible : isBlank c = false) (quote : c ≠ '"')
    (cs : List Char) : ∀ d ∈ (cut c cs).1, isBlank d = false := by
  unfold cut
  dsimp only
  split
  · rename_i found read
    rw [literal?_eq_none quote, Option.none_or] at read
    rcases Option.or_eq_some_iff.1 read with read | ⟨-, read⟩
    · exact not_isBlank_of_bracketed? read
    rcases Option.or_eq_some_iff.1 read with read | ⟨-, read⟩
    · obtain ⟨mark, name, marked, token, nonempty, chars⟩ := exists_of_variableToken? read
      rw [token]
      refine List.forall_mem_cons.2 ⟨?_, (IsVariableName.word nonempty chars).not_isBlank⟩
      rcases marked with rfl | rfl <;> decide
    rcases Option.or_eq_some_iff.1 read with read | ⟨-, read⟩
    · exact not_isBlank_of_absoluteIri? read
    rcases Option.or_eq_some_iff.1 read with read | ⟨-, read⟩
    · exact fun d hd => not_isBlank_of_isBracketChar (isBracketChar_of_prefixedName? read d hd)
    · exact not_isBlank_of_number? read
  · split
    · exact List.forall_mem_singleton.2 visible
    · exact List.forall_mem_cons.2 ⟨visible, fun d => not_isBlank_of_mem_run⟩

/-! Variables. -/

/-- The front that is taken is taken again. -/
theorem dottedSpan_dottedSpan (p : Char → Bool) (cs : List Char) :
    dottedSpan p (dottedSpan p cs).1 = ((dottedSpan p cs).1, []) := by
  induction cs with
  | nil => rfl
  | cons c cs ih =>
    by_cases taken : (p c || (c == '.' && cs.head?.any p)) = true
    · have whole : dottedSpan p (c :: cs) = (c :: (dottedSpan p cs).1, (dottedSpan p cs).2) := by
        rw [dottedSpan, if_pos taken]
      have again : (p c || (c == '.' && (dottedSpan p cs).1.head?.any p)) = true := by
        rcases Bool.or_eq_true_iff.1 taken with here | dot
        · rw [here, Bool.true_or]
        · obtain ⟨point, next⟩ := Bool.and_eq_true_iff.1 dot
          cases cs with
          | nil => cases next
          | cons d cs =>
            have first : p d = true := by simpa using next
            simp [point, dottedSpan, first]
      rw [whole]
      simp only
      rw [dottedSpan, if_pos again, ih]
    · rw [dottedSpan, if_neg taken]
      rfl

theorem isVariableName_of_cut {mark : Char} (marked : mark = '?' ∨ mark = '$') (cs : List Char) :
    ∃ name, (cut mark cs).1 = mark :: name ∧ IsVariableName name := by
  have outside : mark ≠ '<' ∧ mark ≠ '"' ∧ mark ≠ 'h' ∧ mark ≠ 'u' ∧ isPrefixStart mark = false ∧
      mark ≠ ':' ∧ mark ≠ '+' ∧ mark ≠ '-' ∧ isDigit mark = false ∧ mark ≠ '.' := by
    rcases marked with rfl | rfl <;> decide
  obtain ⟨left, quote, h, u, start, colon, plus, minus, digit, dot⟩ := outside
  have others : (absoluteIri? (mark :: cs)).or ((prefixedName? (mark :: cs)).or
      (number? (mark :: cs))) = none := by
    rw [absoluteIri?_eq_none cs h u, prefixedName?_eq_none cs start colon,
      number?_eq_none (numeral?_eq_none cs plus minus digit)]
    rfl
  cases read : variableToken? (mark :: cs) with
  | some found =>
    obtain ⟨token, rest⟩ := found
    obtain ⟨other, name, -, shape, nonempty, chars⟩ := exists_of_variableToken? read
    obtain ⟨text, -⟩ := takes_variableToken _ _ _ read
    have same : other = mark := by
      rw [shape] at text
      exact (List.cons.inj text).1
    refine ⟨name, ?_, .word nonempty chars⟩
    simp only [cut, bracketed?_eq_none left, literal?_eq_none quote, read, Option.none_or,
      Option.some_or]
    rw [shape, same]
  | none =>
    refine ⟨(dottedSpan isBareChar cs).1, ?_, .run ?_ (dottedSpan_dottedSpan isBareChar cs)⟩
    · simp only [cut, bracketed?_eq_none left, literal?_eq_none quote, read, others, Option.none_or,
        if_neg dot]
    · cases cs with
      | nil => rfl
      | cons d cs =>
        have first : isVariableChar d = false := by
          rw [variableToken?] at read
          split at read
          · cases read
          · rename_i other
            exact Bool.eq_false_iff.2 fun word => other ⟨marked, word⟩
        rw [dottedSpan]
        split
        · simpa using first
        · rfl

/-! Literals. -/

/-- What is read behind a closing quote: nothing, a language tag, or a datatype in brackets or as a
name. -/
inductive IsReadMark : List Char → Prop where
  | bare : IsReadMark []
  | language {tag : List Char} (h : Resolver.isLanguageTag tag = true) : IsReadMark ('@' :: tag)
  | bracket {name : List Char} (chars : ∀ c ∈ name, isBracketChar c = true) :
      IsReadMark ('^' :: '^' :: bracket name)
  | name {name : List Char} (chars : ∀ c ∈ name, isBracketChar c = true) :
      IsReadMark ('^' :: '^' :: name)

theorem isReadMark_of_languageMark? {cs mark rest : List Char}
    (h : languageMark? cs = some (mark, rest)) : IsReadMark mark := by
  unfold languageMark? at h
  split at h
  · split at h
    · rename_i c back letter
      obtain ⟨rfl, -⟩ := Prod.mk.inj (Option.some.inj h)
      refine .language ?_
      rw [Resolver.isLanguageTag, letter, Bool.true_and]
      exact List.all_eq_true.2 fun d => List.mem_takeWhile_imp
    · cases h
  · cases h

theorem isReadMark_of_typeMark? {cs mark rest : List Char}
    (h : typeMark? cs = some (mark, rest)) : IsReadMark mark := by
  unfold typeMark? at h
  split at h
  · split at h
    · rename_i found
      obtain ⟨rfl, -⟩ := Prod.mk.inj (Option.some.inj h)
      obtain ⟨name, rfl, chars⟩ := exists_name_of_bracketed? found
      exact .bracket chars
    · obtain ⟨⟨space, back⟩, found, read⟩ := Option.bind_eq_some_iff.1 h
      obtain ⟨rfl, -⟩ := Prod.mk.inj (Option.some.inj read)
      exact .name (List.forall_mem_append.2
        ⟨isBracketChar_of_prefixMark? found, fun c => isBracketChar_of_mem_dottedSpan⟩)
  · cases h

theorem isTokenMark_literalOf {token body mark : List Char}
    (h : quotedText? token = some (body, mark)) (read : IsReadMark mark) :
    IsTokenMark (literalOf token).language (literalOf token).datatype := by
  rw [literalOf, h]
  cases read with
  | bare => exact .bare
  | @language tag valid =>
    refine .language ?_
    rwa [String.toList_ofList]
  | @bracket name chars =>
    refine .datatype ?_
    rw [isBracketed_bracket, if_pos rfl, tail_dropLast_bracket, String.toList_ofList]
    exact chars
  | @name name chars =>
    refine .datatype fun c hc => ?_
    rw [String.toList_ofList] at hc
    split at hc
    · exact chars c (List.mem_of_mem_tail (List.mem_of_mem_dropLast hc))
    · exact chars c hc

/-- A quoted text ends where it ends when nothing follows it. -/
theorem quotedTail?_body {cs body rest : List Char} (h : quotedTail? cs = some (body, rest)) :
    quotedTail? body = some (body, []) := by
  fun_induction quotedTail? cs generalizing body rest with
  | case1 => cases h
  | case2 => cases h
  | case3 => cases h
  | case4 d cs line ih =>
    obtain ⟨found, inner, same⟩ := Option.map_eq_some_iff.1 h
    cases same
    rw [quotedTail?_escape line, ih inner]
    rfl
  | case5 cs =>
    cases h
    rfl
  | case6 c cs last escape quote ih =>
    obtain ⟨found, inner, same⟩ := Option.map_eq_some_iff.1 h
    cases same
    have slash : c ≠ '\\' := by
      rintro rfl
      cases cs with
      | nil => exact last rfl rfl
      | cons d cs => exact escape d cs rfl rfl
    have plain := quotedTail?_append_plain [c] (by simp [quote, slash]) found.1
    refine plain.trans ?_
    rw [ih inner]
    rfl

theorem quotedText?_body_append {cs body rest : List Char}
    (h : quotedText? cs = some (body, rest)) (back : List Char) :
    quotedText? (body ++ back) = some (body, back) := by
  unfold quotedText? at h
  split at h
  · obtain ⟨found, inner, same⟩ := Option.map_eq_some_iff.1 h
    obtain ⟨rfl, -⟩ := Prod.mk.inj same
    have again := quotedTail?_append_of_some (quotedTail?_body inner) back
    rw [List.cons_append, quotedText?, again]
    rfl
  · cases h

/-- A literal is a quoted text with its mark. -/
theorem exists_mark_of_literal? {cs token rest : List Char}
    (h : literal? cs = some (token, rest)) :
    ∃ body mark, quotedText? token = some (body, mark) ∧ IsReadMark mark := by
  obtain ⟨⟨body, back⟩, quoted, read⟩ := Option.bind_eq_some_iff.1 h
  simp only at read
  split at read
  · rename_i mark left found
    obtain ⟨rfl, -⟩ := Prod.mk.inj (Option.some.inj read)
    refine ⟨body, mark, quotedText?_body_append quoted mark, ?_⟩
    rcases Option.or_eq_some_iff.1 found with found | ⟨-, found⟩
    · exact isReadMark_of_languageMark? found
    · exact isReadMark_of_typeMark? found
  · obtain ⟨rfl, -⟩ := Prod.mk.inj (Option.some.inj read)
    refine ⟨body, [], ?_, .bare⟩
    have alone := quotedText?_body_append quoted []
    rwa [List.append_nil] at alone

/-- Without a closing quote, a token that starts with a quote is a run of anything. -/
theorem quotedText?_cut {cs : List Char} (h : literal? ('"' :: cs) = none) :
    quotedText? (cut '"' cs).1 = none := by
  have unclosed : quotedText? ('"' :: cs) = none := by
    cases quoted : quotedText? ('"' :: cs) with
    | none => rfl
    | some found =>
      rw [literal?, marked?, quoted] at h
      simp only [Option.bind_eq_bind, Option.bind_some] at h
      split at h <;> cases h
  have run : (cut '"' cs).1 = '"' :: (dottedSpan isBareChar cs).1 := by
    have number := number?_eq_none (numeral?_eq_none (c := '"') cs (by decide) (by decide)
      (by decide))
    simp only [cut, bracketed?_eq_none (show '"' ≠ '<' by decide), h,
      variableToken?_eq_none cs (show '"' ≠ '?' by decide) (show '"' ≠ '$' by decide),
      absoluteIri?_eq_none (c := '"') cs (by decide) (by decide),
      prefixedName?_eq_none (c := '"') cs (by decide) (by decide), number, Option.none_or]
    rfl
  rw [run]
  cases quoted : quotedTail? (dottedSpan isBareChar cs).1 with
  | none => rw [quotedText?, quoted]; rfl
  | some found =>
    have whole := quotedTail?_append_of_some quoted (dottedSpan isBareChar cs).2
    rw [dottedSpan_append] at whole
    rw [quotedText?, whole] at unclosed
    cases unclosed

theorem mem_of_mem_unescapeQuotes {cs : List Char} {c : Char} (h : c ∈ unescapeQuotes cs) :
    c ∈ cs := by
  fun_induction unescapeQuotes cs with
  | case1 cs ih =>
    rcases List.mem_cons.1 h with rfl | h
    · simp
    · simp [ih h]
  | case2 d cs _ ih =>
    rcases List.mem_cons.1 h with rfl | h
    · simp
    · simp [ih h]
  | case3 => exact h

theorem mem_of_mem_literalOf {token : List Char} {c : Char}
    (h : c ∈ (literalOf token).value.toList) : c ∈ token := by
  cases quoted : quotedText? token with
  | none =>
    rw [literalOf, quoted, String.toList_ofList] at h
    exact mem_of_mem_stripBoth h
  | some found =>
    obtain ⟨body, mark⟩ := found
    have value : (literalOf token).value = String.ofList (unescapeQuotes body.tail.dropLast) := by
      rw [literalOf, quoted]
      dsimp only
      split <;> rfl
    rw [value, String.toList_ofList] at h
    have inside := List.mem_of_mem_tail (List.mem_of_mem_dropLast (mem_of_mem_unescapeQuotes h))
    rw [← (takes_quotedText _ _ _ quoted).1]
    exact List.mem_append_left mark inside

/-! Terms. -/

/-- What a token stands for is a term that can be read. -/
theorem isToken_termOf_cut {c : Char} {cs : List Char} (visible : isBlank c = false)
    (tab : '\t' ∉ (cut c cs).1) : (termOf (cut c cs).1).IsToken := by
  obtain ⟨text, nonempty⟩ := cut_append c cs
  obtain ⟨d, rest, shape⟩ := List.exists_cons_of_ne_nil nonempty
  obtain rfl : d = c := by
    rw [shape] at text
    exact (List.cons.inj text).1
  by_cases marked : d = '?' ∨ d = '$'
  · obtain ⟨name, token, read⟩ := isVariableName_of_cut marked cs
    have var : termOf (d :: name) = .var (String.ofList name) := by
      rcases marked with rfl | rfl <;> rfl
    rw [token, var]
    refine .var ?_
    rwa [String.toList_ofList]
  by_cases quote : d = '"'
  · subst quote
    have literal : termOf (cut '"' cs).1 = .literal (literalOf (cut '"' cs).1) := by
      rw [shape]
      rfl
    rw [literal]
    refine .literal (fun inside => tab (mem_of_mem_literalOf inside)) ?_
    cases found : literal? ('"' :: cs) with
    | none =>
      rw [literalOf, quotedText?_cut found]
      exact .bare
    | some read =>
      obtain ⟨token, back⟩ := read
      have whole : (cut '"' cs).1 = token := by
        simp only [cut, bracketed?_eq_none (show '"' ≠ '<' by decide), found, Option.none_or,
          Option.some_or]
      obtain ⟨body, mark, quoted, read⟩ := exists_mark_of_literal? found
      rw [whole]
      exact isTokenMark_literalOf quoted read
  · obtain ⟨question, dollar⟩ := not_or.1 marked
    have solid := not_isBlank_of_mem_cut visible quote cs
    by_cases type : (cut d cs).1 = ['a']
    · have rdf : ((Namespace.rdf ++ "type").toList.all fun c => !isBlank c) = true := by
        decide +kernel
      rw [type]
      exact .iri fun e he => by simpa using List.all_eq_true.1 rdf e he
    rw [termOf_eq_run shape question dollar quote type]
    split
    · refine .iri fun e he => solid e ?_
      rw [String.toList_ofList] at he
      exact List.mem_of_mem_tail (List.mem_of_mem_dropLast he)
    · split
      · refine .literal (fun inside => tab ?_) .bare
        rwa [String.toList_ofList] at inside
      · refine .iri fun e he => solid e ?_
        rwa [String.toList_ofList] at he

/-- The terms of a text without tabs can be read. -/
theorem isToken_termOf {cs token : List Char} (tab : '\t' ∉ cs) (h : token ∈ tokensOf cs) :
    (termOf token).IsToken := by
  induction cs using tokenizes.induction with
  | nil =>
    rw [tokenizes.nil] at h
    cases h
  | blank c cs blank ih =>
    rw [tokenizes.blank c cs blank] at h
    exact ih (fun inside => tab (List.mem_cons_of_mem c inside)) h
  | visible c cs visible ih =>
    obtain ⟨text, -⟩ := cut_append c cs
    rw [← text] at tab
    rw [tokenizes.visible c cs visible] at h
    rcases List.mem_cons.1 h with rfl | h
    · exact isToken_termOf_cut visible
        fun inside => tab (List.mem_append_left _ inside)
    · exact ih (fun inside => tab (List.mem_append_right _ inside)) h

end Ontogram.Query
