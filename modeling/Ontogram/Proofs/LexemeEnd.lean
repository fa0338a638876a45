import Ontogram.Proofs.Lexeme
import Ontogram.Query.Clause

set_option autoImplicit false

namespace Ontogram.Query

open Text

def isSpacing (c : Char) : Bool :=
  c == ' ' || c == '\t'

/-- A character at which lexemes end: a space, a tab or a double quote. -/
def isDelimiter (c : Char) : Bool :=
  isSpacing c || c == '"'

/-- A reader ends in front of a character as it does at the end of the text. -/
def EndsAt {α : Type} (c : Char) (reader : List Char → Option (α × List Char)) : Prop :=
  ∀ front rest,
    reader (front ++ c :: rest) = (reader front).map fun found => (found.1, found.2 ++ c :: rest)

/-- A reader ends in front of a space or a tab as it does at the end of the text. -/
def EndsAtSpacing {α : Type} (reader : List Char → Option (α × List Char)) : Prop :=
  ∀ front c rest, isSpacing c = true →
    reader (front ++ c :: rest) = (reader front).map fun found => (found.1, found.2 ++ c :: rest)

theorem isDelimiter_of_isSpacing {c : Char} (h : isSpacing c = true) : isDelimiter c = true :=
  Bool.or_eq_true_iff.2 (Or.inl h)

theorem eq_of_isSpacing {c : Char} (h : isSpacing c = true) : c = ' ' ∨ c = '\t' := by
  simpa [isSpacing] using h

/-- What fails for a space and for a tab fails for either. -/
theorem eq_false_of_isSpacing {p : Char → Bool} (solid : (p ' ' || p '\t') = false) {c : Char}
    (h : isSpacing c = true) : p c = false := by
  obtain ⟨space, tab⟩ := Bool.or_eq_false_iff.1 solid
  rcases eq_of_isSpacing h with rfl | rfl
  · exact space
  · exact tab

theorem ne_of_isSpacing {c d : Char} (hd : isSpacing d = false) (h : isSpacing c = true) : c ≠ d :=
  ne_of_class h hd

/-- What fails for a space, for a tab and for a double quote fails for each delimiter. -/
theorem eq_false_of_isDelimiter {p : Char → Bool} (solid : (p ' ' || p '\t' || p '"') = false)
    {c : Char} (h : isDelimiter c = true) : p c = false := by
  obtain ⟨spacing, quote⟩ := Bool.or_eq_false_iff.1 solid
  rcases Bool.or_eq_true_iff.1 h with h | h
  · exact eq_false_of_isSpacing spacing h
  · rw [eq_of_beq h]
    exact quote

theorem ne_of_isDelimiter {c d : Char} (hd : isDelimiter d = false) (h : isDelimiter c = true) :
    c ≠ d :=
  ne_of_class h hd

section Spans

variable {p : Char → Bool} {c : Char}

theorem span_stop (stop : p c = false) (front rest : List Char) :
    span p (front ++ c :: rest) = ((span p front).1, (span p front).2 ++ c :: rest) := by
  induction front with
  | nil => simp [span, stop]
  | cons d front ih =>
    obtain ⟨taken, left⟩ := Prod.mk.inj ih
    by_cases hd : p d = true
    · simp [span, hd] at taken left ⊢
      exact ⟨taken, left⟩
    · simp [span, hd]

theorem span_spacing (solid : (p ' ' || p '\t') = false) (h : isSpacing c = true)
    (front rest : List Char) :
    span p (front ++ c :: rest) = ((span p front).1, (span p front).2 ++ c :: rest) :=
  span_stop (eq_false_of_isSpacing solid h) front rest

theorem head?_any_stop (stop : p c = false) (front rest : List Char) :
    (front ++ c :: rest).head?.any p = front.head?.any p := by
  cases front with
  | nil => simp [stop]
  | cons d front => rfl

theorem dottedSpan_stop (stop : p c = false) (dotless : c ≠ '.') (front rest : List Char) :
    dottedSpan p (front ++ c :: rest) =
      ((dottedSpan p front).1, (dottedSpan p front).2 ++ c :: rest) := by
  induction front with
  | nil => simp [dottedSpan, stop, dotless]
  | cons d front ih =>
    have behind := head?_any_stop stop front rest
    rw [List.cons_append, dottedSpan, dottedSpan, behind]
    split
    · rw [ih]
    · rfl

theorem dottedSpan_spacing (solid : (p ' ' || p '\t') = false) (h : isSpacing c = true)
    (front rest : List Char) : dottedSpan p (front ++ c :: rest) =
      ((dottedSpan p front).1, (dottedSpan p front).2 ++ c :: rest) :=
  dottedSpan_stop (eq_false_of_isSpacing solid h) (ne_of_isSpacing (by decide) h) front rest

end Spans

/-! The readers. -/

theorem EndsAt.or {c : Char} {f g : List Char → Option (List Char × List Char)}
    (hf : EndsAt c f) (hg : EndsAt c g) : EndsAt c fun cs => (f cs).or (g cs) := by
  intro front rest
  change (f (front ++ c :: rest)).or (g (front ++ c :: rest)) = ((f front).or (g front)).map _
  rw [hf front rest, hg front rest]
  cases f front <;> rfl

theorem bracketed?_stop {c : Char} (left : c ≠ '<') (right : c ≠ '>')
    (stop : isBracketChar c = false) : EndsAt c bracketed? := by
  intro front rest
  cases front with
  | nil =>
    rw [List.nil_append, bracketed?_eq_none left]
    rfl
  | cons d front =>
    by_cases opens : d = '<'
    · subst opens
      rcases cut : span isBracketChar front with ⟨name, back⟩
      rw [List.cons_append, bracketed?, span_stop stop, bracketed?, cut]
      cases back with
      | nil => simp [right]
      | cons e back => by_cases closes : e = '>' <;> simp [closes]
    · rw [List.cons_append, bracketed?_eq_none opens, bracketed?_eq_none opens]
      rfl

theorem endsAtSpacing_bracketed : EndsAtSpacing bracketed? := fun front _ rest h =>
  bracketed?_stop (ne_of_isSpacing (by decide) h) (ne_of_isSpacing (by decide) h)
    (eq_false_of_isSpacing (by decide) h) front rest

theorem languageMark?_stop {c : Char} (tagged : c ≠ '@')
    (stop : (c.isAlphanum || c == '-') = false) : EndsAt c languageMark? := by
  intro front rest
  have letter : c.isAlpha = false := by
    rw [Char.isAlphanum, Bool.or_assoc] at stop
    exact (Bool.or_eq_false_iff.1 stop).1
  rcases front with _ | ⟨d, _ | ⟨e, front⟩⟩
  · simp [languageMark?, tagged]
  · by_cases at_ : d = '@' <;> simp [languageMark?, at_, letter]
  · by_cases at_ : d = '@'
    · subst at_
      simp only [List.cons_append, languageMark?,
        span_stop (p := fun d => d.isAlphanum || d == '-') stop]
      split <;> rfl
    · simp [languageMark?, at_]

theorem isPrefixOf_stop {word : List Char} {c : Char} (outside : c ∉ word)
    (front rest : List Char) : word.isPrefixOf (front ++ c :: rest) = word.isPrefixOf front := by
  induction word generalizing front with
  | nil => simp
  | cons w word ih =>
    have other : (w == c) = false := by
      rw [beq_eq_false_iff_ne]
      rintro rfl
      exact outside List.mem_cons_self
    cases front with
    | nil => simp [List.isPrefixOf, other]
    | cons d front =>
      have tail := ih (fun inside => outside (List.mem_cons_of_mem w inside)) front
      simp [List.isPrefixOf, tail]

theorem variableToken?_stop {c : Char} (mark : ¬(c = '?' ∨ c = '$'))
    (letter : isVariableChar c = false) : EndsAt c variableToken? := by
  intro front rest
  rcases front with _ | ⟨d, _ | ⟨e, front⟩⟩
  · cases rest <;> simp [variableToken?, mark]
  · simp [variableToken?, letter]
  · simp only [List.cons_append, variableToken?, span_stop letter]
    split <;> rfl

/-- A keyword ends at a character that does not touch it, and is in no case a part of it. -/
theorem keyword?_stop {word : String} {c : Char} (touches : touchesKeyword c = false)
    (same : upperChar c = c) (outside : c ∉ word.toList) (before : Option Char)
    (front rest : List Char) : keyword? word before (front ++ c :: rest) =
      (keyword? word before front).map (· ++ c :: rest) := by
  by_cases long : word.length ≤ front.length
  · simp only [keyword?, List.take_append_of_le_length long, List.drop_append_of_le_length long,
      head?_any_stop touches]
    split <;> rfl
  · -- The keyword would reach over the character, which is none of it.
    have beyond : ((front ++ c :: rest).take word.length).map upperChar ≠ word.toList := by
      intro spelled
      refine outside (spelled ▸ List.mem_map.2 ⟨c, ?_, same⟩)
      rw [List.take_append, List.mem_append]
      right
      obtain ⟨n, hn⟩ := Nat.exists_eq_succ_of_ne_zero (show word.length - front.length ≠ 0 by omega)
      rw [hn, List.take_succ_cons]
      exact List.mem_cons_self
    have short : (front.take word.length).map upperChar ≠ word.toList := by
      intro spelled
      have length := congrArg List.length spelled
      rw [List.length_map, List.length_take, String.length_toList] at length
      omega
    simp [keyword?, -List.map_take, -List.map_append, beyond, short]

section Delimiters

variable {c : Char} (h : isDelimiter c = true)
include h

theorem endsAt_languageMark : EndsAt c languageMark? :=
  languageMark?_stop (ne_of_isDelimiter (by decide) h)
    (eq_false_of_isDelimiter (p := fun d => d.isAlphanum || d == '-') (by decide) h)

theorem endsAt_prefixMark : EndsAt c prefixMark? := by
  intro front rest
  have colon : c ≠ ':' := ne_of_isDelimiter (by decide) h
  have start : isPrefixStart c = false := eq_false_of_isDelimiter (by decide) h
  have named : isNameChar c = false := eq_false_of_isDelimiter (by decide) h
  cases front with
  | nil => simp [prefixMark?, start, colon]
  | cons d front =>
    rw [List.cons_append]
    by_cases hd : isPrefixStart d = true
    · have cut := span_stop named (d :: front) rest
      rw [List.cons_append] at cut
      rcases front_eq : span isNameChar (d :: front) with ⟨name, back⟩
      simp only [prefixMark?, hd, cut, front_eq, if_true]
      cases back with
      | nil => simp [colon]
      | cons e back => by_cases he : e = ':' <;> simp [he]
    · simp only [prefixMark?, hd, if_false, Bool.false_eq_true]
      by_cases he : d = ':' <;> simp [he]

theorem endsAt_prefixedName : EndsAt c prefixedName? := by
  intro front rest
  have dotless : c ≠ '.' := ne_of_isDelimiter (by decide) h
  have named : isNameChar c = false := eq_false_of_isDelimiter (by decide) h
  rw [prefixedName?, prefixedName?, endsAt_prefixMark h front rest]
  cases prefixMark? front with
  | none => rfl
  | some found =>
    simp only [Option.map_some, Option.bind_eq_bind, Option.bind_some, head?_any_stop named,
      dottedSpan_stop named dotless]
    split <;> rfl

/-- The mark of a datatype ends so where its angle brackets do. -/
theorem typeMark?_stop {front rest : List Char}
    (bracket : ∀ back, back <:+ front → bracketed? (back ++ c :: rest) =
      (bracketed? back).map fun found => (found.1, found.2 ++ c :: rest)) :
    typeMark? (front ++ c :: rest) =
      (typeMark? front).map fun found => (found.1, found.2 ++ c :: rest) := by
  have caret : c ≠ '^' := ne_of_isDelimiter (by decide) h
  have dotless : c ≠ '.' := ne_of_isDelimiter (by decide) h
  have named : isNameChar c = false := eq_false_of_isDelimiter (by decide) h
  rcases front with _ | ⟨d, _ | ⟨e, front⟩⟩
  · simp [typeMark?, caret]
  · by_cases hd : d = '^' <;> simp [typeMark?, hd, caret]
  · by_cases carets : d = '^' ∧ e = '^'
    · obtain ⟨rfl, rfl⟩ := carets
      simp only [List.cons_append, typeMark?, bracket front ⟨['^', '^'], rfl⟩]
      cases bracketed? front with
      | some found => rfl
      | none =>
        simp only [Option.map_none, endsAt_prefixMark h front rest]
        cases prefixMark? front with
        | none => rfl
        | some found =>
          simp only [Option.map_some, Option.bind_eq_bind, Option.bind_some,
            dottedSpan_stop named dotless]
          rfl
    · have none (cs : List Char) : typeMark? (d :: e :: cs) = none := by
        unfold typeMark?
        split
        · rename_i same
          obtain ⟨first, same⟩ := List.cons.inj same
          exact absurd ⟨first, (List.cons.inj same).1⟩ carets
        · rfl
      rw [List.cons_append, List.cons_append, none, none]
      rfl

theorem endsAt_variableToken : EndsAt c variableToken? :=
  variableToken?_stop
    (not_or.2 ⟨ne_of_isDelimiter (by decide) h, ne_of_isDelimiter (by decide) h⟩)
    (eq_false_of_isDelimiter (by decide) h)

theorem endsAt_absoluteIri : EndsAt c absoluteIri? := by
  intro front rest
  have outside (scheme : List Char) (hs : scheme ∈ schemes) : c ∉ scheme := by
    have solid : (schemes.all fun scheme => !scheme.any isDelimiter) = true := by decide
    have clean := List.all_eq_true.1 solid scheme hs
    intro inside
    simp only [Bool.not_eq_true', List.any_eq_false] at clean
    exact clean c inside h
  have same : (schemes.find? fun scheme => scheme.isPrefixOf (front ++ c :: rest)) =
      schemes.find? fun scheme => scheme.isPrefixOf front := by
    have each (scheme : List Char) (hs : scheme ∈ schemes) :=
      isPrefixOf_stop (outside scheme hs) front rest
    simp only [schemes, List.forall_mem_cons] at each
    simp only [schemes, List.find?_cons, List.find?_nil, each.1, each.2.1, each.2.2.1]
  rw [absoluteIri?, absoluteIri?, same]
  cases found : schemes.find? fun scheme => scheme.isPrefixOf front with
  | none => rfl
  | some scheme =>
    have inFront := List.find?_some found
    rw [List.isPrefixOf_iff_prefix] at inFront
    obtain ⟨back, rfl⟩ := inFront
    have stop : isIriChar c = false := eq_false_of_isDelimiter (by decide) h
    have body : (back ++ c :: rest).takeWhile isIriChar = back.takeWhile isIriChar :=
      congrArg Prod.fst (span_stop stop back rest)
    have within : (stripRight (· == '.') (back.takeWhile isIriChar)).length ≤ back.length :=
      ((stripRight_isPrefix _ _).trans (List.takeWhile_prefix _)).length_le
    simp only [Option.bind_eq_bind, Option.bind_some, List.append_assoc, List.drop_left, body,
      List.drop_length_add_append, List.drop_append_of_le_length within]
    split <;> rfl

theorem signSpan_stop (front rest : List Char) :
    signSpan (front ++ c :: rest) = ((signSpan front).1, (signSpan front).2 ++ c :: rest) := by
  cases front with
  | nil =>
    have plus : c ≠ '+' := ne_of_isDelimiter (by decide) h
    have minus : c ≠ '-' := ne_of_isDelimiter (by decide) h
    simp [signSpan, plus, minus]
  | cons d front =>
    rw [List.cons_append, signSpan, signSpan]
    split <;> rfl

theorem endsAt_numeral : EndsAt c numeral? := by
  intro front rest
  have dot : c ≠ '.' := ne_of_isDelimiter (by decide) h
  have digit : isDigit c = false := eq_false_of_isDelimiter (by decide) h
  simp only [numeral?, signSpan_stop h, span_stop digit]
  rcases span isDigit (signSpan front).2 with ⟨whole, back⟩
  split
  · rfl
  · rcases back with _ | ⟨d, _ | ⟨e, back⟩⟩
    · simp [dot]
    · by_cases hd : d = '.' <;> simp [hd, digit]
    · by_cases hd : d = '.'
      · subst hd
        simp only [List.cons_append, span_stop digit]
        split <;> rfl
      · simp [hd]

theorem endsAt_number : EndsAt c number? := by
  intro front rest
  rw [number?, number?, endsAt_numeral h front rest]
  cases numeral? front with
  | none => rfl
  | some found =>
    have stop : (isWord c || c == '.') = false :=
      eq_false_of_isDelimiter (p := fun c => isWord c || c == '.') (by decide) h
    have same : (found.2 ++ c :: rest).takeWhile (fun c => isWord c || c == '.') =
        found.2.takeWhile fun c => isWord c || c == '.' :=
      congrArg Prod.fst (span_stop (p := fun c => isWord c || c == '.') stop found.2 rest)
    simp only [Option.map_some, same]
    split <;> rfl

end Delimiters

/-! Spaces and tabs. -/

theorem EndsAtSpacing.of_endsAt {α : Type} {reader : List Char → Option (α × List Char)}
    (h : ∀ c, isDelimiter c = true → EndsAt c reader) : EndsAtSpacing reader :=
  fun front c rest spacing => h c (isDelimiter_of_isSpacing spacing) front rest

theorem endsAtSpacing_languageMark : EndsAtSpacing languageMark? :=
  .of_endsAt fun _ => endsAt_languageMark

theorem endsAtSpacing_prefixedName : EndsAtSpacing prefixedName? :=
  .of_endsAt fun _ => endsAt_prefixedName

theorem endsAtSpacing_typeMark : EndsAtSpacing typeMark? := fun _ c rest h =>
  typeMark?_stop (isDelimiter_of_isSpacing h) fun back _ => endsAtSpacing_bracketed back c rest h

theorem endsAtSpacing_variableToken : EndsAtSpacing variableToken? :=
  .of_endsAt fun _ => endsAt_variableToken

theorem endsAtSpacing_absoluteIri : EndsAtSpacing absoluteIri? :=
  .of_endsAt fun _ => endsAt_absoluteIri

theorem endsAtSpacing_number : EndsAtSpacing number? :=
  .of_endsAt fun _ => endsAt_number

theorem EndsAtSpacing.or {f g : List Char → Option (List Char × List Char)}
    (hf : EndsAtSpacing f) (hg : EndsAtSpacing g) : EndsAtSpacing fun cs => (f cs).or (g cs) :=
  fun front c rest h =>
    EndsAt.or (fun front rest => hf front c rest h) (fun front rest => hg front c rest h) front rest

end Ontogram.Query
