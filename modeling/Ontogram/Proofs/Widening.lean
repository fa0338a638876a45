import Ontogram.Proofs.Comments
import Ontogram.Proofs.LexemeEnd
import Ontogram.Proofs.PatternToken

set_option autoImplicit false

namespace Ontogram.Query

open Text

/-- The characters of a text, each with a number: that of the spaces which stand for it if it is a
tab. A tab with the number zero stays. -/
abbrev Spaced : Type := List (Char × Nat)

/-- The text as it was written. -/
def narrow (ms : Spaced) : List Char :=
  ms.map Prod.fst

/-- What stands for one character. -/
def widened (m : Char × Nat) : List Char :=
  if m.1 = '\t' ∧ m.2 ≠ 0 then List.replicate m.2 ' ' else [m.1]

/-- The text with spaces for its tabs. -/
def wide (ms : Spaced) : List Char :=
  ms.flatMap widened

section Texts

variable {c : Char} {n : Nat} {ms back : Spaced}

@[simp] theorem narrow_nil : narrow [] = [] := rfl

@[simp] theorem wide_nil : wide [] = [] := rfl

@[simp] theorem narrow_cons : narrow ((c, n) :: ms) = c :: narrow ms := rfl

@[simp] theorem narrow_append (ms back : Spaced) : narrow (ms ++ back) = narrow ms ++ narrow back :=
  List.map_append

@[simp] theorem wide_append (ms back : Spaced) : wide (ms ++ back) = wide ms ++ wide back :=
  List.flatMap_append

theorem wide_cons : wide ((c, n) :: ms) = widened (c, n) ++ wide ms := rfl

theorem wide_cons_of_ne (h : c ≠ '\t') : wide ((c, n) :: ms) = c :: wide ms := by
  rw [wide_cons, widened, if_neg (by simp [h])]
  rfl

/-- What stands for a character starts with the character or with a space, so what holds of both
holds of its start; only spaces follow. -/
theorem exists_widened {p : Char → Prop} (here : p c) (space : p ' ') (n : Nat) :
    ∃ d ds, widened (c, n) = d :: ds ∧ p d ∧ ∀ e ∈ ds, isSpacing e = true := by
  by_cases spaces : c = '\t' ∧ n ≠ 0
  · obtain ⟨k, rfl⟩ := Nat.exists_eq_succ_of_ne_zero spaces.2
    refine ⟨' ', List.replicate k ' ', ?_, space, ?_⟩
    · rw [widened, if_pos spaces, List.replicate_succ]
    · intro e he
      rw [List.eq_of_mem_replicate he]
      rfl
  · exact ⟨c, [], if_neg spaces, here, by simp⟩

theorem exists_widened_of_ne {q : Char} (solid : isSpacing q = false) (other : c ≠ q) (n : Nat) :
    ∃ d ds, widened (c, n) = d :: ds ∧ d ≠ q ∧ ∀ e ∈ ds, isSpacing e = true :=
  exists_widened (p := fun d => d ≠ q) other (ne_of_isSpacing solid rfl) n

theorem exists_widened_tab (n : Nat) :
    ∃ d ds, widened ('\t', n) = d :: ds ∧ ∀ e ∈ d :: ds, isSpacing e = true := by
  obtain ⟨d, ds, shape, first, rest⟩ :=
    exists_widened (p := fun d => isSpacing d = true) (c := '\t') rfl rfl n
  exact ⟨d, ds, shape, List.forall_mem_cons.2 ⟨first, rest⟩⟩

theorem wide_eq_narrow (h : '\t' ∉ narrow ms) : wide ms = narrow ms := by
  induction ms with
  | nil => rfl
  | cons m ms ih =>
    obtain ⟨c, n⟩ := m
    rw [narrow_cons, List.mem_cons, not_or] at h
    rw [narrow_cons, wide_cons_of_ne (Ne.symm h.1), ih h.2]

theorem length_narrow (ms : Spaced) : (narrow ms).length = ms.length :=
  List.length_map ..

/-- A text goes up to its first tab, or to its end. -/
theorem exists_tabless_front (ms : Spaced) : ∃ front back, ms = front ++ back ∧
    '\t' ∉ narrow front ∧ (back = [] ∨ ∃ n rest, back = ('\t', n) :: rest) := by
  induction ms with
  | nil => exact ⟨[], [], rfl, by simp, Or.inl rfl⟩
  | cons m ms ih =>
    obtain ⟨c, n⟩ := m
    by_cases tab : c = '\t'
    · subst tab
      exact ⟨[], ('\t', n) :: ms, rfl, by simp, Or.inr ⟨n, ms, rfl⟩⟩
    · obtain ⟨front, back, rfl, clean, next⟩ := ih
      exact ⟨(c, n) :: front, back, rfl, by simp [clean, Ne.symm tab], next⟩

end Texts

/-- A text of which no tab is replaced. -/
def kept (cs : List Char) : Spaced :=
  cs.map fun c => (c, 0)

@[simp] theorem narrow_kept (cs : List Char) : narrow (kept cs) = cs := by
  simp [narrow, kept, Function.comp_def]

@[simp] theorem wide_kept (cs : List Char) : wide (kept cs) = cs := by
  induction cs with
  | nil => rfl
  | cons c cs ih =>
    have single : widened (c, 0) = [c] := if_neg (by simp)
    change widened (c, 0) ++ wide (kept cs) = c :: cs
    rw [single, ih]
    rfl

section Cuts

variable {α β : Type} {value other : β → α} {ms : Spaced}

/-- Something is read from a text and from its widening, or from neither, and both are cut at the
same place. What is read is told from one thing by `value` and `other`. -/
def SameCut (value other : β → α) (ms : Spaced) (x y : Option (α × List Char)) : Prop :=
  ∃ found : Option (β × Spaced),
    x = found.map (Prod.map value narrow) ∧ y = found.map (Prod.map other wide) ∧
      ∀ p ∈ found, p.2 <:+ ms

theorem SameCut.none : SameCut value other ms none none :=
  ⟨.none, rfl, rfl, nofun⟩

theorem SameCut.some (value other : β → α) (b : β) {back : Spaced} (suffix : back <:+ ms) :
    SameCut value other ms (some (value b, narrow back)) (some (other b, wide back)) := by
  refine ⟨.some (b, back), rfl, rfl, ?_⟩
  rintro p ⟨⟩
  exact suffix

theorem SameCut.mono {back : Spaced} {x y : Option (α × List Char)}
    (h : SameCut value other back x y) (suffix : back <:+ ms) : SameCut value other ms x y := by
  obtain ⟨found, hx, hy, inside⟩ := h
  exact ⟨found, hx, hy, fun p hp => (inside p hp).trans suffix⟩

theorem SameCut.or {x y x' y' : Option (α × List Char)} (h : SameCut value other ms x y)
    (h' : SameCut value other ms x' y') : SameCut value other ms (x.or x') (y.or y') := by
  obtain ⟨found, rfl, rfl, inside⟩ := h
  cases found with
  | none => exact h'
  | some p => exact ⟨.some p, rfl, rfl, inside⟩

/-- A text that is read without widening is one whose tabs stay. -/
theorem SameCut.texts {x y : Option (List Char × List Char)} (h : SameCut id id ms x y) :
    SameCut narrow wide ms x y := by
  obtain ⟨found, rfl, rfl, inside⟩ := h
  cases found with
  | none => exact .none
  | some p =>
    obtain ⟨text, back⟩ := p
    have cut := SameCut.some narrow wide (kept text)
      (inside (text, back) rfl)
    rw [narrow_kept, wide_kept] at cut
    exact cut

theorem SameCut.prepend (front : Spaced) {back : Spaced} {x y : Option (List Char × List Char)}
    (h : SameCut narrow wide back x y) (suffix : back <:+ ms) :
    SameCut narrow wide ms (x.map fun found => (narrow front ++ found.1, found.2))
      (y.map fun found => (wide front ++ found.1, found.2)) := by
  obtain ⟨found, rfl, rfl, inside⟩ := h
  cases found with
  | none => exact .none
  | some p =>
    have cut := SameCut.some narrow wide (front ++ p.1)
      ((inside p rfl).trans suffix)
    rw [narrow_append, wide_append] at cut
    exact cut

/-- What ends at spaces and tabs is read from a text as from its widening. -/
theorem EndsAtSpacing.sameCut {reader : List Char → Option (α × List Char)}
    (ends : EndsAtSpacing reader)
    (takes : ∀ cs a rest, reader cs = some (a, rest) → rest <:+ cs) (ms : Spaced) :
    SameCut id id ms (reader (narrow ms)) (reader (wide ms)) := by
  obtain ⟨front, back, rfl, clean, next⟩ := exists_tabless_front ms
  have same := wide_eq_narrow clean
  have here : reader (narrow (front ++ back)) =
        (reader (narrow front)).map (fun found => (found.1, found.2 ++ narrow back)) ∧
      reader (wide (front ++ back)) =
        (reader (narrow front)).map fun found => (found.1, found.2 ++ wide back) := by
    rw [narrow_append, wide_append, same]
    rcases next with rfl | ⟨n, rest, rfl⟩
    · simp
    · obtain ⟨d, ds, shape, spacing⟩ := exists_widened_tab n
      rw [narrow_cons, wide_cons, shape]
      exact ⟨ends _ _ _ rfl, ends _ _ _ (spacing d List.mem_cons_self)⟩
  rw [here.1, here.2]
  cases read : reader (narrow front) with
  | none => exact .none
  | some found =>
    obtain ⟨a, rest⟩ := found
    obtain ⟨taken, cut⟩ := takes _ _ _ read
    obtain ⟨ahead, behind, rfl, htaken, hrest⟩ := List.map_eq_append_iff.1 cut.symm
    have clean' : '\t' ∉ narrow behind := fun inside => clean (by simp [inside])
    have result := SameCut.some id id a
      (show behind ++ back <:+ ahead ++ behind ++ back from ⟨ahead, by simp⟩)
    rw [narrow_append, wide_append, wide_eq_narrow clean'] at result
    rw [← hrest]
    exact result

/-- So is what a reader takes that never fails. -/
theorem EndsAtSpacing.exists_taken {reader : List Char → List Char × List Char}
    (ends : EndsAtSpacing fun cs => some (reader cs))
    (whole : ∀ cs, (reader cs).1 ++ (reader cs).2 = cs) (ms : Spaced) :
    ∃ taken back, back <:+ ms ∧ reader (narrow ms) = (taken, narrow back) ∧
      reader (wide ms) = (taken, wide back) := by
  have suffix (cs taken rest : List Char) (h : some (reader cs) = some (taken, rest)) :
      rest <:+ cs := by
    have parts := whole cs
    rw [Option.some.inj h] at parts
    exact ⟨taken, parts⟩
  obtain ⟨found, here, there, inside⟩ := ends.sameCut suffix ms
  cases found with
  | none => cases here
  | some p => exact ⟨p.1, p.2, inside p rfl, Option.some.inj here, Option.some.inj there⟩

end Cuts

theorem Takes.suffix {reader : List Char → Option (List Char × List Char)} (h : Takes reader)
    (cs a rest : List Char) (read : reader cs = some (a, rest)) : rest <:+ cs :=
  ⟨a, (h cs a rest read).1⟩

/-! Quoted texts. -/

theorem quotedTail?_append_plain (front : List Char) (plain : ∀ c ∈ front, c ≠ '"' ∧ c ≠ '\\')
    (cs : List Char) : quotedTail? (front ++ cs) =
      (quotedTail? cs).map fun found => (front ++ found.1, found.2) := by
  induction front with
  | nil => simp
  | cons c front ih =>
    obtain ⟨quote, slash⟩ := plain c List.mem_cons_self
    have tail := ih fun d hd => plain d (List.mem_cons_of_mem c hd)
    rw [List.cons_append, quotedTail?, if_neg quote, tail, Option.map_map]
    · rfl
    · exact fun h _ => slash h
    · exact fun _ _ h _ => slash h

theorem plain_of_isSpacing {front : List Char} (h : ∀ c ∈ front, isSpacing c = true) :
    ∀ c ∈ front, c ≠ '"' ∧ c ≠ '\\' :=
  fun c hc => ⟨ne_of_isSpacing (by decide) (h c hc), ne_of_isSpacing (by decide) (h c hc)⟩

theorem quotedTail?_escape {c : Char} (line : c ≠ '\n') (cs : List Char) :
    quotedTail? ('\\' :: c :: cs) =
      (quotedTail? cs).map fun found => ('\\' :: c :: found.1, found.2) := by
  rw [quotedTail?, if_neg line]

theorem sameCut_quotedTail (ms : Spaced) :
    SameCut narrow wide ms (quotedTail? (narrow ms)) (quotedTail? (wide ms)) := by
  induction length : ms.length using Nat.strong_induction_on generalizing ms with
  | _ k ih =>
  subst length
  cases ms with
  | nil => exact .none
  | cons head ms =>
    obtain ⟨c, n⟩ := head
    have suffix : ms <:+ (c, n) :: ms := List.suffix_cons _ _
    have rest := ih ms.length (by simp) ms rfl
    by_cases slash : c = '\\'
    · subst slash
      rw [narrow_cons, wide_cons_of_ne (by decide)]
      cases ms with
      | nil => exact .none
      | cons head ms =>
        obtain ⟨d, m⟩ := head
        by_cases line : d = '\n'
        · subst line
          rw [narrow_cons, wide_cons_of_ne (by decide)]
          exact .none
        · obtain ⟨e, es, shape, line', spacing⟩ := exists_widened_of_ne rfl line m
          rw [narrow_cons, wide_cons, shape, List.cons_append]
          have rest := ih ms.length (by simp) ms rfl
          have suffix : ms <:+ ('\\', n) :: (d, m) :: ms := ⟨[_, _], rfl⟩
          have cut := rest.prepend [('\\', n), (d, m)] suffix
          rw [wide_cons_of_ne (by decide), wide_cons, shape, wide_nil, List.append_nil] at cut
          rw [quotedTail?_escape line, quotedTail?_escape line',
            quotedTail?_append_plain es (plain_of_isSpacing spacing), Option.map_map]
          exact cut
    by_cases quote : c = '"'
    · subst quote
      rw [narrow_cons, wide_cons_of_ne (by decide)]
      exact SameCut.some narrow wide [('"', n)] suffix
    · obtain ⟨d, ds, shape, first, spacing⟩ :=
        exists_widened (p := fun d => d ≠ '"' ∧ d ≠ '\\') ⟨quote, slash⟩ (by decide) n
      have plain : ∀ e ∈ d :: ds, e ≠ '"' ∧ e ≠ '\\' :=
        List.forall_mem_cons.2 ⟨first, plain_of_isSpacing spacing⟩
      have cut := rest.prepend [(c, n)] suffix
      rw [wide_cons, shape, wide_nil, List.append_nil] at cut
      have single := quotedTail?_append_plain [c] (by simp [quote, slash]) (narrow ms)
      rw [List.singleton_append] at single
      rw [narrow_cons, wide_cons, shape, quotedTail?_append_plain (d :: ds) plain, single]
      exact cut

theorem sameCut_quotedText (ms : Spaced) :
    SameCut narrow wide ms (quotedText? (narrow ms)) (quotedText? (wide ms)) := by
  cases ms with
  | nil => exact .none
  | cons head ms =>
    obtain ⟨c, n⟩ := head
    by_cases quote : c = '"'
    · subst quote
      have cut := (sameCut_quotedTail ms).prepend [('"', n)] (List.suffix_cons ('"', n) ms)
      rw [narrow_cons, wide_cons_of_ne (by decide)]
      rw [wide_cons_of_ne (by decide)] at cut
      exact cut
    · obtain ⟨d, ds, shape, quote', -⟩ := exists_widened_of_ne rfl quote n
      rw [narrow_cons, wide_cons, shape, List.cons_append, quotedText?_eq_none quote,
        quotedText?_eq_none quote']
      exact .none

theorem sameCut_marked {mark : List Char → Option (List Char × List Char)}
    (ends : EndsAtSpacing mark) (takes : Takes mark) (ms : Spaced) :
    SameCut narrow wide ms (marked? mark (narrow ms)) (marked? mark (wide ms)) := by
  obtain ⟨found, body, body', inside⟩ := sameCut_quotedText ms
  rw [marked?, marked?, body, body']
  cases found with
  | none => exact .none
  | some p =>
    obtain ⟨text, back⟩ := p
    have suffix := inside (text, back) rfl
    obtain ⟨found, shape, shape', inside'⟩ := ends.sameCut (Takes.suffix takes) back
    simp only [Option.map_some, Prod.map, Option.bind_eq_bind, Option.bind_some, shape, shape']
    cases found with
    | none => exact SameCut.some narrow wide text suffix
    | some q =>
      have cut := SameCut.some narrow wide (text ++ kept q.1)
        ((inside' q rfl).trans suffix)
      rw [narrow_append, wide_append, narrow_kept, wide_kept] at cut
      exact cut

theorem sameCut_literal (ms : Spaced) :
    SameCut narrow wide ms (literal? (narrow ms)) (literal? (wide ms)) :=
  sameCut_marked (endsAtSpacing_languageMark.or endsAtSpacing_typeMark)
    (takes_or takes_languageMark takes_typeMark) ms

/-! Tokens. -/

theorem sameCut_of_endsAtSpacing {reader : List Char → Option (List Char × List Char)}
    (ends : EndsAtSpacing reader) (takes : Takes reader) (ms : Spaced) :
    SameCut narrow wide ms (reader (narrow ms)) (reader (wide ms)) :=
  (ends.sameCut (Takes.suffix takes) ms).texts

/-- The lexemes that a token may be, in the order in which they are tried. -/
theorem sameCut_lexeme (ms : Spaced) : SameCut narrow wide ms
    ((bracketed? (narrow ms)).or <| (literal? (narrow ms)).or <| (variableToken? (narrow ms)).or <|
      (absoluteIri? (narrow ms)).or <| (prefixedName? (narrow ms)).or <| number? (narrow ms))
    ((bracketed? (wide ms)).or <| (literal? (wide ms)).or <| (variableToken? (wide ms)).or <|
      (absoluteIri? (wide ms)).or <| (prefixedName? (wide ms)).or <| number? (wide ms)) :=
  (sameCut_of_endsAtSpacing endsAtSpacing_bracketed takes_bracketed ms).or <|
  (sameCut_literal ms).or <|
  (sameCut_of_endsAtSpacing endsAtSpacing_variableToken takes_variableToken ms).or <|
  (sameCut_of_endsAtSpacing endsAtSpacing_absoluteIri takes_absoluteIri ms).or <|
  (sameCut_of_endsAtSpacing endsAtSpacing_prefixedName takes_prefixedName ms).or <|
  sameCut_of_endsAtSpacing endsAtSpacing_number takes_number ms

/-- A token is cut from a text and from its widening at the same place. -/
theorem exists_cut {c : Char} (visible : isBlank c = false) (n : Nat) (ms : Spaced) :
    ∃ token rest, rest <:+ (c, n) :: ms ∧ cut c (narrow ms) = (narrow token, narrow rest) ∧
      cut c (wide ms) = (wide token, wide rest) := by
  have tab : c ≠ '\t' := by
    rintro rfl
    exact absurd visible (by decide)
  obtain ⟨found, lexeme, lexeme', inside⟩ := sameCut_lexeme ((c, n) :: ms)
  rw [narrow_cons] at lexeme
  rw [wide_cons_of_ne tab] at lexeme'
  simp only [cut, lexeme, lexeme']
  cases found with
  | some p => exact ⟨p.1, p.2, inside p rfl, rfl, rfl⟩
  | none =>
    simp only [Option.map_none]
    split
    · refine ⟨[(c, n)], ms, List.suffix_cons _ _, rfl, ?_⟩
      rw [wide_cons_of_ne tab, wide_nil]
    · have bare : EndsAtSpacing fun cs => some (dottedSpan isBareChar cs) :=
        fun front d rest h => congrArg some (dottedSpan_spacing (by decide) h front rest)
      obtain ⟨run, rest, suffix, here, there⟩ :=
        bare.exists_taken (dottedSpan_append isBareChar) ms
      refine ⟨(c, n) :: kept run, rest, suffix.trans (List.suffix_cons _ _), ?_, ?_⟩
      · rw [here, narrow_cons, narrow_kept]
      · rw [there, wide_cons_of_ne tab, wide_kept]

/-- A token is cut off from a text and from its widening at the same place. -/
def CutsAlike (cut : Char → List Char → List Char × List Char) : Prop :=
  ∀ c n ms, isBlank c = false → ∃ token rest, rest <:+ (c, n) :: ms ∧
    cut c (narrow ms) = (narrow token, narrow rest) ∧ cut c (wide ms) = (wide token, wide rest)

/-- Widening changes no token that holds no tab. -/
theorem CutsAlike.tokensOf_wide {cut : Char → List Char → List Char × List Char}
    {tokensOf : List Char → List (List Char)} (h : CutsAlike cut) (reader : Tokenizes cut tokensOf)
    {ms : Spaced}
    (clean : ∀ token ∈ tokensOf (narrow ms), '\t' ∉ token) :
    tokensOf (wide ms) = tokensOf (narrow ms) := by
  induction length : ms.length using Nat.strong_induction_on generalizing ms with
  | _ k ih =>
  subst length
  cases ms with
  | nil => rfl
  | cons head ms =>
    obtain ⟨c, n⟩ := head
    by_cases tab : c = '\t'
    · subst tab
      obtain ⟨d, ds, shape, spacing⟩ := exists_widened_tab n
      have blanks (e : Char) (he : e ∈ d :: ds) : isBlank e = true := by
        rcases eq_of_isSpacing (spacing e he) with rfl | rfl <;> decide
      rw [narrow_cons, reader.blank '\t' _ (by decide)] at clean ⊢
      rw [wide_cons, shape, reader.blanks blanks]
      exact ih ms.length (by simp) clean rfl
    rw [narrow_cons] at clean ⊢
    rw [wide_cons_of_ne tab]
    cases visible : isBlank c with
    | true =>
      rw [reader.blank c _ visible] at clean ⊢
      rw [reader.blank c _ visible]
      exact ih ms.length (by simp) clean rfl
    | false =>
      obtain ⟨token, rest, suffix, here, there⟩ := h c n ms visible
      have shorter := reader.shorter c (narrow ms)
      rw [here, List.length_cons, length_narrow, length_narrow] at shorter
      rw [reader.visible c (narrow ms) visible, here] at clean ⊢
      rw [reader.visible c (wide ms) visible, there, wide_eq_narrow (clean _ List.mem_cons_self)]
      have tail := ih rest.length (by simpa using shorter)
        (fun other ho => clean other (List.mem_cons_of_mem _ ho)) rfl
      rw [tail]

/-- Widening changes no token that holds no tab. -/
theorem tokensOf_wide {ms : Spaced} (clean : ∀ token ∈ tokensOf (narrow ms), '\t' ∉ token) :
    tokensOf (wide ms) = tokensOf (narrow ms) :=
  CutsAlike.tokensOf_wide (fun _ n ms h => exists_cut h n ms) tokenizes clean

/-! Comments. -/

theorem dropWhile_line_wide (ms : Spaced) : ∃ back, back <:+ ms ∧
    (narrow ms).dropWhile (· ≠ '\n') = narrow back ∧
      (wide ms).dropWhile (· ≠ '\n') = wide back := by
  induction ms with
  | nil => exact ⟨[], List.suffix_rfl, rfl, rfl⟩
  | cons m ms ih =>
    obtain ⟨c, n⟩ := m
    by_cases line : c = '\n'
    · subst line
      refine ⟨('\n', n) :: ms, List.suffix_rfl, ?_, ?_⟩
      · simp
      · rw [wide_cons_of_ne (by decide)]
        simp
    · obtain ⟨back, suffix, here, there⟩ := ih
      obtain ⟨d, ds, shape, line', spacing⟩ := exists_widened_of_ne rfl line n
      refine ⟨back, suffix.trans (List.suffix_cons _ _), ?_, ?_⟩
      · rw [narrow_cons, List.dropWhile_cons_of_pos (by simp [line]), here]
      · rw [wide_cons, List.dropWhile_append_of_pos, there]
        rw [shape]
        refine List.forall_mem_cons.2 ⟨by simp [line'], fun e he => ?_⟩
        simp [ne_of_isSpacing (show isSpacing '\n' = false by decide) (spacing e he)]

/-- The text without its comments is widened with the text. -/
theorem exists_stripComments (ms : Spaced) : ∃ out, stripComments (narrow ms) = narrow out ∧
    stripComments (wide ms) = wide out := by
  induction length : ms.length using Nat.strong_induction_on generalizing ms with
  | _ k ih =>
  subst length
  cases ms with
  | nil =>
    have none : stripComments [] = [] := by rw [stripComments]
    exact ⟨[], none, none⟩
  | cons head ms =>
    obtain ⟨c, n⟩ := head
    -- A tab outside the kept texts stays, and so do the spaces that stand for it.
    by_cases tab : c = '\t'
    · subst tab
      obtain ⟨out, here, there⟩ := ih ms.length (by simp) ms rfl
      have plain (d : Char) (hd : d ∈ widened ('\t', n)) : d ≠ '<' ∧ d ≠ '"' ∧ d ≠ '#' := by
        obtain ⟨e, es, shape, spacing⟩ := exists_widened_tab n
        have h := spacing d (shape ▸ hd)
        exact ⟨ne_of_isSpacing (by decide) h, ne_of_isSpacing (by decide) h,
          ne_of_isSpacing (by decide) h⟩
      refine ⟨('\t', n) :: out, ?_, ?_⟩
      · rw [narrow_cons, stripComments_char (by decide) (by decide) (by decide), here]
        rfl
      · rw [wide_cons, stripComments_append plain, there]
        rfl
    obtain ⟨found, here, there, inside⟩ :=
      (sameCut_of_endsAtSpacing endsAtSpacing_bracketed takes_bracketed ((c, n) :: ms)).or
        (sameCut_literal ((c, n) :: ms))
    cases found with
    | some p =>
      have shorter : p.2.length < ((c, n) :: ms).length := by
        obtain ⟨whole, some⟩ := takes_or takes_bracketed takes_literal _ _ _ here
        have lengths := congrArg List.length whole
        have positive := List.length_pos_iff.2 some
        rw [List.length_append, length_narrow, length_narrow, length_narrow] at lengths
        rw [length_narrow] at positive
        omega
      obtain ⟨out, here', there'⟩ := ih p.2.length shorter p.2 rfl
      refine ⟨p.1 ++ out, ?_, ?_⟩
      · rw [stripComments_kept here, here', narrow_append]
      · rw [stripComments_kept there, there', wide_append]
    | none =>
      rw [narrow_cons] at here ⊢
      rw [wide_cons_of_ne tab] at there ⊢
      rw [stripComments_cons here, stripComments_cons there]
      split
      · obtain ⟨back, suffix, line, line'⟩ := dropWhile_line_wide ms
        rw [line, line']
        exact ih back.length (Nat.lt_succ_of_le suffix.length_le) back rfl
      · obtain ⟨out, here', there'⟩ := ih ms.length (by simp) ms rfl
        exact ⟨(c, n) :: out, by rw [here']; rfl, by rw [there', wide_cons_of_ne tab]⟩

end Ontogram.Query
