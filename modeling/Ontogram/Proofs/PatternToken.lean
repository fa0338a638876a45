import Ontogram.Proofs.QueryItem

set_option autoImplicit false

namespace Ontogram.Query

open Text

/-- A character that ends a term of a pattern. -/
def isSpace (c : Char) : Bool :=
  [' ', '\n'].contains c

theorem eq_false_of_isSpace {p : Char → Bool} (apart : ([' ', '\n'].all fun c => !p c) = true)
    {c : Char} (h : isSpace c = true) : p c = false := by
  apply eq_false_of_mem apart
  simpa [isSpace] using h

theorem Ends.stop {rest : List Char} (h : Ends isSpace rest) : Ends isStop rest := by
  apply h.mono
  intro c hc
  have stopped : (!isStop c) = false := eq_false_of_isSpace (p := fun c => !isStop c) (by decide) hc
  simpa using stopped

theorem variableToken?_append {name : String} {text rest : List Char}
    (h : VariableText name text) (ends : Ends isStop rest) :
    variableToken? (text ++ rest) = some (text, rest) := by
  cases h with
  | @var mark name marked nonempty chars =>
    obtain ⟨d, ds, rfl⟩ := List.exists_cons_of_ne_nil nonempty
    have plain (c : Char) (hc : c ∈ d :: ds) : isVariableChar c = true :=
      List.all_eq_true.1 chars c hc
    have first := plain d List.mem_cons_self
    have cut : span isVariableChar (ds ++ rest) = (ds, rest) :=
      span_append_of_ends (fun c hc => plain c (List.mem_cons_of_mem d hc)) ends (by decide)
    rw [List.cons_append, List.cons_append, variableToken?, if_pos ⟨marked, first⟩, cut]

theorem variableToken?_eq_none {c : Char} (cs : List Char) (question : c ≠ '?')
    (dollar : c ≠ '$') : variableToken? (c :: cs) = none := by
  cases cs with
  | nil => rfl
  | cons d cs => simp [variableToken?, question, dollar]

theorem absoluteIri?_eq_none {c : Char} (cs : List Char) (h : c ≠ 'h') (u : c ≠ 'u') :
    absoluteIri? (c :: cs) = none := by
  have letters :
      (schemes.all fun scheme => scheme.head?.any fun d => d == 'h' || d == 'u') = true := by
    decide
  have missing : (schemes.find? fun scheme => scheme.isPrefixOf (c :: cs)) = none := by
    rw [List.find?_eq_none]
    intro scheme hs
    have known := List.all_eq_true.1 letters scheme hs
    cases scheme with
    | nil => contradiction
    | cons d scheme =>
      have apart : d ≠ c := by
        rintro rfl
        simp [h, u] at known
      simp [List.isPrefixOf, apart]
  rw [absoluteIri?, missing]
  rfl

theorem prefixedName?_eq_none {c : Char} (cs : List Char) (start : isPrefixStart c = false)
    (colon : c ≠ ':') : prefixedName? (c :: cs) = none := by
  have mark : prefixMark? (c :: cs) = none := by
    simp [prefixMark?, start, colon]
  rw [prefixedName?, mark]
  rfl

theorem numeral?_eq_none {c : Char} (cs : List Char) (plus : c ≠ '+') (minus : c ≠ '-')
    (digit : isDigit c = false) : numeral? (c :: cs) = none := by
  simp [numeral?, signSpan, plus, minus, span, digit]

theorem number?_eq_none {cs : List Char} (h : numeral? cs = none) : number? cs = none := by
  rw [number?, h]

theorem cut_eq {c : Char} {cs : List Char} {found : List Char × List Char}
    (bracket : c ≠ '<') (quote : c ≠ '"') (question : c ≠ '?') (dollar : c ≠ '$')
    (h : (absoluteIri? (c :: cs)).or ((prefixedName? (c :: cs)).or (number? (c :: cs))) =
      some found) : cut c cs = found := by
  simp only [cut, bracketed?_eq_none bracket, literal?_eq_none quote,
    variableToken?_eq_none cs question dollar, Option.none_or, h]

theorem cut_eq_run {c : Char} {cs : List Char} (bracket : c ≠ '<') (quote : c ≠ '"')
    (question : c ≠ '?') (dollar : c ≠ '$') (absolute : absoluteIri? (c :: cs) = none)
    (named : prefixedName? (c :: cs) = none) (number : number? (c :: cs) = none) :
    cut c cs = if c = '.' then ([c], cs)
      else (c :: (dottedSpan isBareChar cs).1, (dottedSpan isBareChar cs).2) := by
  simp only [cut, bracketed?_eq_none bracket, literal?_eq_none quote,
    variableToken?_eq_none cs question dollar, absolute, named, number, Option.none_or]

theorem cut_dot (rest : List Char) : cut '.' rest = (['.'], rest) := by
  have absolute := absoluteIri?_eq_none rest (show '.' ≠ 'h' by decide) (by decide)
  have named := prefixedName?_eq_none rest (show isPrefixStart '.' = false by decide) (by decide)
  have number := number?_eq_none
    (numeral?_eq_none rest (show '.' ≠ '+' by decide) (by decide) (by decide))
  rw [cut_eq_run (by decide) (by decide) (by decide) (by decide) absolute named number, if_pos rfl]

theorem cut_type {rest : List Char} (ends : Ends isSpace rest) : cut 'a' rest = (['a'], rest) := by
  have absolute := absoluteIri?_eq_none rest (show 'a' ≠ 'h' by decide) (by decide)
  have number := number?_eq_none
    (numeral?_eq_none rest (show 'a' ≠ '+' by decide) (by decide) (by decide))
  have name : span isNameChar ('a' :: rest) = (['a'], rest) := by
    have only : ∀ c ∈ ['a'], isNameChar c = true := by
      simp only [List.forall_mem_singleton]
      decide
    exact span_append_of_ends only ends.stop (by decide)
  have start : isPrefixStart 'a' = true := by decide
  have apart : ∀ c ∈ rest.head?, (c == ':') = false :=
    ends.stop.head_eq_false (p := fun c => c == ':') (by decide)
  have mark : prefixMark? ('a' :: rest) = none := by
    simp only [prefixMark?, start, name, if_true]
    split
    · exact absurd (apart ':' rfl) (by decide)
    · rfl
  have named : prefixedName? ('a' :: rest) = none := by
    rw [prefixedName?, mark]
    rfl
  have run : dottedSpan isBareChar rest = ([], rest) :=
    ends.dottedSpan_eq (by decide) (fun c => eq_false_of_isSpace (by decide)) (by decide)
  rw [cut_eq_run (by decide) (by decide) (by decide) (by decide) absolute named number,
    if_neg (by decide), run]

/-! Names with a prefix. -/

theorem stripRight_append {p : Char → Bool} {front back : List Char}
    (outside : ∀ c ∈ front, p c = false) (inside : ∀ c ∈ back, p c = true) :
    stripRight p (front ++ back) = front := by
  have kept : front.reverse.dropWhile p = front.reverse := by
    cases turned : front.reverse with
    | nil => rfl
    | cons c cs =>
      have member : c ∈ front := by
        rw [← List.mem_reverse, turned]
        exact List.mem_cons_self
      rw [List.dropWhile_cons_of_neg]
      simp [outside c member]
  rw [stripRight, List.reverse_append, List.dropWhile_append_of_pos, kept, List.reverse_reverse]
  intro c hc
  exact inside c (List.mem_reverse.1 hc)

theorem takeWhile_iriChar {name rest : List Char} (plain : ∀ c ∈ name, isPlainChar c = true)
    (ends : Ends isSpace rest) :
    ∃ dots, (∀ c ∈ dots, c = '.') ∧ (name ++ rest).takeWhile isIriChar = name ++ dots := by
  have inside (c : Char) (hc : c ∈ name) : isIriChar c = true := by
    have range := toNat_of_isPlainChar (plain c hc)
    have blank : isBlank c = false := isBlank_eq_false (by omega) (by omega)
    have apart (d : Char) (hd : isPlainChar d = false) : c ≠ d := ne_of_class (plain c hc) hd
    simp [isIriChar, blank, apart '<' (by decide), apart '>' (by decide), apart '"' (by decide),
      apart '\x7b' (by decide), apart '\x7d' (by decide)]
  have outside (c : Char) (hc : isSpace c = true) : isIriChar c = false :=
    eq_false_of_isSpace (by decide) hc
  have dot : isIriChar '.' = true := by decide
  rw [List.takeWhile_append_of_pos inside]
  rcases ends.forms with rfl | ⟨c, cs, rfl, stopped⟩ | rfl | ⟨d, ds, rfl, stopped⟩
  · exact ⟨[], by simp, by simp⟩
  · exact ⟨[], by simp, by simp [outside c stopped]⟩
  · exact ⟨['.'], by simp, by simp [dot]⟩
  · exact ⟨['.'], by simp, by simp [dot, outside d stopped]⟩

theorem exists_word_of_mem_schemes {scheme : List Char} (h : scheme ∈ schemes) :
    ∃ word, scheme = word ++ [':'] ∧ ':' ∉ word := by
  have known : (schemes.all fun scheme =>
      scheme == scheme.dropLast ++ [':'] && !scheme.dropLast.contains ':') = true := by
    decide
  have found := List.all_eq_true.1 known scheme h
  simp only [Bool.and_eq_true, beq_iff_eq, Bool.not_eq_true', List.contains_eq_mem,
    decide_eq_false_iff_not] at found
  exact ⟨scheme.dropLast, found⟩

theorem eq_of_append_colon {front other back rest : List Char} (hf : ':' ∉ front)
    (ho : ':' ∉ other) (h : front ++ ':' :: back = other ++ ':' :: rest) :
    front = other ∧ back = rest := by
  have cut (cs more : List Char) (hc : ':' ∉ cs) :
      span (fun c => c != ':') (cs ++ ':' :: more) = (cs, ':' :: more) := by
    apply span_append_of_all
    · intro c inside
      have apart : c ≠ ':' := fun same => hc (same ▸ inside)
      simp [apart]
    · simp
  have left := cut front back hf
  rw [h, cut other rest ho] at left
  obtain ⟨names, tails⟩ := Prod.mk.inj left
  exact ⟨names.symm, (List.cons.inj tails).2.symm⟩

/-- A name whose prefix is a scheme is an absolute IRI too, and of the same text. -/
theorem absoluteIri?_qualified {space name rest : List Char} (hs : IsIdentifier space)
    (hn : IsIdentifier name) (ends : Ends isSpace rest) {found : List Char × List Char}
    (h : absoluteIri? (qualified space name ++ rest) = some found) :
    found = (qualified space name, rest) := by
  obtain ⟨scheme, hf, h⟩ := Option.bind_eq_some_iff.1 h
  obtain ⟨word, rfl, plain⟩ := exists_word_of_mem_schemes (List.mem_of_find?_eq_some hf)
  have starts := List.find?_some hf
  obtain ⟨tail, ht⟩ := List.isPrefixOf_iff_prefix.1 starts
  have text : word ++ ':' :: tail = space ++ ':' :: (name ++ rest) := by
    simpa [qualified] using ht
  obtain ⟨rfl, rfl⟩ := eq_of_append_colon plain (hs.notMem (by decide)) text
  obtain ⟨dots, dotted, taken⟩ := takeWhile_iriChar hn.plain ends
  have name_ne : ∀ c ∈ name, (c == '.') = false := by
    intro c hc
    have apart : c ≠ '.' := ne_of_class (hn.plain c hc) (by decide)
    simpa using apart
  have body : stripRight (· == '.') (name ++ dots) = name :=
    stripRight_append name_ne fun c hc => by simp [dotted c hc]
  have rest_eq :
      (qualified word name ++ rest).drop ((word ++ [':']).length + name.length) = rest := by
    have front : (word ++ [':']).length + name.length = (qualified word name).length := by
      simp [qualified]
      omega
    rw [front, List.drop_left]
  have filled : name.isEmpty = false := by
    simpa using hn.ne_nil
  rw [← ht, List.drop_left, taken, body, ht] at h
  simp only [filled, rest_eq, Bool.false_eq_true, if_false, Option.some.injEq] at h
  rw [← h]
  simp [qualified]

theorem cut_qualified {space name rest : List Char} (hs : IsIdentifier space)
    (hn : IsIdentifier name) (ends : Ends isSpace rest) {c : Char} {cs : List Char}
    (hc : qualified space name = c :: cs) : cut c (cs ++ rest) = (c :: cs, rest) := by
  have letter : c.isAlpha = true := by
    obtain ⟨d, ds, rfl, letter⟩ := hs.exists_cons
    rw [qualified, List.cons_append] at hc
    rwa [← (List.cons.inj hc).1]
  have apart (d : Char) (hd : d.isAlpha = false) : c ≠ d := ne_of_class letter hd
  have named :
      prefixedName? (qualified space name ++ rest) = some (qualified space name, rest) := by
    have mark := prefixMark?_append hs (name ++ rest)
    have tail : dottedSpan isNameChar (name ++ rest) = (name, rest) :=
      dottedSpan_append_of_ends (fun d hd => isNameChar_of_isPlainChar (hn.plain d hd)) ends.stop
        (by decide)
    have first : (name ++ rest).head?.any isNameChar = true := by
      obtain ⟨d, ds, rfl, letter⟩ := hn.exists_cons
      simp [isNameChar_of_isPlainChar (isPlainChar_of_isAlpha letter)]
    simp only [qualified, prefixedName?, List.append_assoc, List.cons_append, mark,
      Option.bind_eq_bind, Option.bind_some, first, if_true, tail]
    simp
  rw [← hc]
  apply cut_eq (apart '<' (by decide)) (apart '"' (by decide)) (apart '?' (by decide))
    (apart '$' (by decide))
  rw [← List.cons_append, ← hc]
  cases absolute : absoluteIri? (qualified space name ++ rest) with
  | none => rw [Option.none_or, named, Option.some_or]
  | some found =>
    have same := absoluteIri?_qualified hs hn ends absolute
    rw [Option.some_or, same]

/-! Numbers. -/

theorem isDigit_of_all {digits : List Char} (hd : digits.all Char.isDigit = true) :
    ∀ c ∈ digits, isDigit c = true := by
  intro c hc
  have ascii := List.all_eq_true.1 hd c hc
  have range := toNat_of_isDigit ascii
  rwa [isDigit_eq (by omega)]

theorem signSpan_append_digits {sign digits : List Char}
    (signed : sign = [] ∨ sign = ['+'] ∨ sign = ['-']) (nonempty : digits ≠ [])
    (hd : digits.all Char.isDigit = true) (rest : List Char) :
    signSpan (sign ++ (digits ++ rest)) = (sign, digits ++ rest) := by
  rcases signed with rfl | rfl | rfl
  · obtain ⟨c, cs, rfl⟩ := List.exists_cons_of_ne_nil nonempty
    have digit : c.isDigit = true := List.all_eq_true.1 hd c List.mem_cons_self
    have unsigned : ¬(c = '+' ∨ c = '-') := by
      rintro (rfl | rfl) <;> contradiction
    simp [signSpan, unsigned]
  · simp [signSpan]
  · simp [signSpan]

theorem numeral?_append {sign digits rest : List Char}
    (signed : sign = [] ∨ sign = ['+'] ∨ sign = ['-']) (nonempty : digits ≠ [])
    (hd : digits.all Char.isDigit = true) (ends : Ends isSpace rest) :
    numeral? (sign ++ (digits ++ rest)) = some (sign ++ digits, rest) := by
  have front := signSpan_append_digits signed nonempty hd rest
  have whole : span isDigit (digits ++ rest) = (digits, rest) :=
    span_append_of_ends (isDigit_of_all hd) ends.stop (by decide)
  have filled : digits.isEmpty = false := by
    simpa using nonempty
  simp only [numeral?, front, whole, filled, Bool.false_eq_true, if_false]
  rcases ends.forms with rfl | ⟨c, cs, rfl, stopped⟩ | rfl | ⟨d, ds, rfl, stopped⟩
  · rfl
  · have dotless : c ≠ '.' := ne_of_class stopped (by decide)
    simp [dotless]
  · rfl
  · have digit : isDigit d = false := eq_false_of_isSpace (by decide) stopped
    simp [digit]

theorem number?_append {sign digits rest : List Char}
    (signed : sign = [] ∨ sign = ['+'] ∨ sign = ['-']) (nonempty : digits ≠ [])
    (hd : digits.all Char.isDigit = true) (ends : Ends isSpace rest) :
    number? (sign ++ (digits ++ rest)) = some (sign ++ digits, rest) := by
  have outside (c : Char) (hc : isSpace c = true) : (isWord c || c == '.') = false :=
    eq_false_of_isSpace (p := fun c => isWord c || c == '.') (by decide) hc
  have dot : isWord '.' = false := by decide
  have free : (rest.takeWhile fun c => isWord c || c == '.').any isWord = false := by
    rcases ends.forms with rfl | ⟨c, cs, rfl, stopped⟩ | rfl | ⟨d, ds, rfl, stopped⟩
    · rfl
    · rw [List.takeWhile_cons_of_neg (by simp [outside c stopped])]
      rfl
    · simp [dot]
    · rw [List.takeWhile_cons_of_pos (by simp),
        List.takeWhile_cons_of_neg (by simp [outside d stopped])]
      simp [dot]
  simp only [number?, numeral?_append signed nonempty hd ends, free]
  simp

/-- The first character of an integer. -/
def startsInteger (c : Char) : Bool :=
  c.isDigit || c == '+' || c == '-'

theorem startsInteger_of_append {sign digits cs : List Char} {c : Char}
    (signed : sign = [] ∨ sign = ['+'] ∨ sign = ['-']) (hd : digits.all Char.isDigit = true)
    (hc : sign ++ digits = c :: cs) : startsInteger c = true := by
  rcases signed with rfl | rfl | rfl
  · have member : c ∈ digits := by
      rw [List.nil_append] at hc
      simp [hc]
    have digit : c.isDigit = true := List.all_eq_true.1 hd c member
    simp [startsInteger, digit]
  · rw [← (List.cons.inj hc).1]
    decide
  · rw [← (List.cons.inj hc).1]
    decide

theorem cut_integer {sign digits rest : List Char}
    (signed : sign = [] ∨ sign = ['+'] ∨ sign = ['-']) (nonempty : digits ≠ [])
    (hd : digits.all Char.isDigit = true) (ends : Ends isSpace rest) {c : Char} {cs : List Char}
    (hc : sign ++ digits = c :: cs) : cut c (cs ++ rest) = (c :: cs, rest) := by
  have first := startsInteger_of_append signed hd hc
  have apart (d : Char) (hd : startsInteger d = false) : c ≠ d := ne_of_class first hd
  have start : isPrefixStart c = false := by
    have letter : c.isAlpha = false := by
      cases letter : c.isAlpha with
      | false => rfl
      | true =>
        have plus : c ≠ '+' := ne_of_class letter (by decide)
        have minus : c ≠ '-' := ne_of_class letter (by decide)
        simp [startsInteger, isDigit_eq_false letter, plus, minus] at first
    simp [isPrefixStart, letter, apart '_' (by decide)]
  apply cut_eq (apart '<' (by decide)) (apart '"' (by decide)) (apart '?' (by decide))
    (apart '$' (by decide))
  have absolute := absoluteIri?_eq_none (cs ++ rest) (apart 'h' (by decide)) (apart 'u' (by decide))
  have named := prefixedName?_eq_none (cs ++ rest) start (apart ':' (by decide))
  rw [absolute, named, Option.none_or, Option.none_or, ← List.cons_append, ← hc, List.append_assoc]
  exact number?_append signed nonempty hd ends

/-! All tokens. -/

theorem Blank.tokensOf_append {gap : List Char} (blank : Blank gap) (rest : List Char) :
    tokensOf (gap ++ rest) = tokensOf rest := by
  induction gap with
  | nil => rfl
  | cons c gap ih =>
    have hc : isBlank c = true := by
      rcases blank c List.mem_cons_self with rfl | rfl <;> decide
    rw [List.cons_append, tokenizes.blank c _ hc]
    exact ih fun d hd => blank d (List.mem_cons_of_mem c hd)

/-- The front of a term: a character that is visible, no brace and no full stop. -/
def OpensTerm (c : Char) : Prop :=
  33 ≤ c.toNat ∧ c.toNat ≤ 122 ∧ c ≠ '.'

theorem opensTerm_of_isPlainChar {c : Char} (h : isPlainChar c = true) : OpensTerm c := by
  have range := toNat_of_isPlainChar h
  have dot : c ≠ '.' := by
    rintro rfl
    contradiction
  exact ⟨by omega, by omega, dot⟩

theorem TermText.opens {term : PatternTerm} {text : List Char} (h : TermText term text) :
    ∃ c cs, text = c :: cs ∧ OpensTerm c := by
  cases h with
  | var h =>
    cases h with
    | @var mark name marked _ _ =>
      refine ⟨mark, name, rfl, ?_⟩
      rcases marked with rfl | rfl
      · exact ⟨by decide, by decide, by decide⟩
      · exact ⟨by decide, by decide, by decide⟩
  | @iri iri _ => exact ⟨'<', iri ++ ['>'], rfl, by decide, by decide, by decide⟩
  | @qualified space name hs _ =>
    obtain ⟨c, cs, rfl, letter⟩ := hs.exists_cons
    exact ⟨c, cs ++ ':' :: name, rfl, opensTerm_of_isPlainChar (isPlainChar_of_isAlpha letter)⟩
  | type => exact ⟨'a', [], rfl, by decide, by decide, by decide⟩
  | @integer sign digits signed nonempty hd =>
    rcases signed with rfl | rfl | rfl
    · obtain ⟨c, cs, rfl⟩ := List.exists_cons_of_ne_nil nonempty
      have digit : c.isDigit = true := List.all_eq_true.1 hd c List.mem_cons_self
      exact ⟨c, cs, rfl, opensTerm_of_isPlainChar (isPlainChar_of_isDigit digit)⟩
    · exact ⟨'+', digits, rfl, by decide, by decide, by decide⟩
    · exact ⟨'-', digits, rfl, by decide, by decide, by decide⟩
  | @literal text mark _ _ _ _ =>
    exact ⟨'"', text ++ '"' :: mark, rfl, by decide, by decide, by decide⟩

theorem OpensTerm.visible {c : Char} (h : OpensTerm c) : isBlank c = false := by
  obtain ⟨lower, upper, _⟩ := h
  exact isBlank_eq_false lower (by omega)

theorem TermText.cut_eq {term : PatternTerm} {c : Char} {cs rest : List Char}
    (h : TermText term (c :: cs)) (ends : Ends isSpace rest) :
    cut c (cs ++ rest) = (c :: cs, rest) := by
  generalize ht : c :: cs = text at h
  cases h with
  | var h =>
    subst ht
    have found := variableToken?_append h ends.stop
    have marked : c = '?' ∨ c = '$' := by
      cases h with
      | var marked _ _ => exact marked
    rw [List.cons_append] at found
    have bracket : c ≠ '<' := by
      rcases marked with rfl | rfl <;> decide
    have quote : c ≠ '"' := by
      rcases marked with rfl | rfl <;> decide
    simp only [cut, bracketed?_eq_none bracket, literal?_eq_none quote, found, Option.none_or,
      Option.some_or]
  | @iri iri chars =>
    have found := bracketed?_bracket chars rest
    rw [← ht, List.cons_append] at found
    simp only [cut, found, Option.some_or, ht]
  | qualified hs hn =>
    have found := cut_qualified hs hn ends ht.symm
    rw [found, ht]
  | type =>
    obtain ⟨rfl, rfl⟩ := List.cons.inj ht
    exact cut_type ends
  | integer signed nonempty hd =>
    have found := cut_integer signed nonempty hd ends ht.symm
    rw [found, ht]
  | @literal text mark _ _ chars marked =>
    obtain ⟨rfl, rfl⟩ := List.cons.inj ht
    have found := literal?_append chars marked ends.stop
    have same : '"' :: (text ++ '"' :: mark ++ rest) = '"' :: (text ++ '"' :: (mark ++ rest)) := by
      simp
    simp only [cut, bracketed?_eq_none (show '"' ≠ '<' by decide), same, found, Option.none_or,
      Option.some_or]

/-- A term is the first token of what starts with it. -/
theorem TermText.tokensOf_append {term : PatternTerm} {text rest : List Char}
    (h : TermText term text) (ends : Ends isSpace rest) :
    tokensOf (text ++ rest) = text :: tokensOf rest := by
  obtain ⟨c, cs, rfl, opens⟩ := h.opens
  exact tokenizes.cons_of_cut opens.visible (h.cut_eq ends)

end Ontogram.Query
