import Ontogram.Proofs.QueryReading
import Ontogram.Proofs.Widening

set_option autoImplicit false

namespace Ontogram.Query

open Text

theorem isGap_of_isSpacing {c : Char} (h : isSpacing c = true) : isGap c = true := by
  rcases eq_of_isSpacing h with rfl | rfl <;> decide

theorem exists_skipGap (ms : Spaced) : ∃ back, back <:+ ms ∧ skipGap (narrow ms) = narrow back ∧
    skipGap (wide ms) = wide back := by
  induction ms with
  | nil => exact ⟨[], List.suffix_rfl, rfl, rfl⟩
  | cons m ms ih =>
    obtain ⟨c, n⟩ := m
    by_cases gap : isGap c = true
    · obtain ⟨back, suffix, here, there⟩ := ih
      obtain ⟨d, ds, shape, gap', spacing⟩ :=
        exists_widened (p := fun d => isGap d = true) gap (by decide) n
      refine ⟨back, suffix.trans (List.suffix_cons _ _), ?_, ?_⟩
      · rw [narrow_cons, skipGap, List.dropWhile_cons_of_pos gap, ← skipGap, here]
      · rw [wide_cons, skipGap, List.dropWhile_append_of_pos, ← skipGap, there]
        rw [shape]
        exact List.forall_mem_cons.2 ⟨gap', fun e he => isGap_of_isSpacing (spacing e he)⟩
    · have tab : c ≠ '\t' := by
        rintro rfl
        exact gap (by decide)
      refine ⟨(c, n) :: ms, List.suffix_rfl, ?_, ?_⟩
      · rw [narrow_cons, skipGap, List.dropWhile_cons_of_neg gap]
      · rw [wide_cons_of_ne tab, skipGap, List.dropWhile_cons_of_neg gap]

/-- The words of the language of queries hold no space and no tab. -/
theorem exists_keyword? {word : String} (solid : word.toList.any isSpacing = false)
    (before : Option Char) (ms : Spaced) : ∃ found : Option Spaced,
      keyword? word before (narrow ms) = found.map narrow ∧
      keyword? word before (wide ms) = found.map wide ∧ ∀ back ∈ found, back <:+ ms := by
  have ends : EndsAtSpacing fun cs => (keyword? word before cs).map fun rest => ((), rest) := by
    intro front c rest h
    have outside : c ∉ word.toList := fun inside => List.any_eq_false.1 solid c inside h
    change (keyword? word before (front ++ c :: rest)).map _ = _
    have touches : touchesKeyword c = false := eq_false_of_isSpacing (by decide) h
    have same : upperChar c = c := by rcases eq_of_isSpacing h with rfl | rfl <;> decide
    rw [keyword?_stop touches same outside, Option.map_map, Option.map_map]
    rfl
  have takes (cs : List Char) (a : Unit) (rest : List Char)
      (h : (keyword? word before cs).map (fun rest => ((), rest)) = some (a, rest)) :
      rest <:+ cs := by
    obtain ⟨other, found, same⟩ := Option.map_eq_some_iff.1 h
    obtain ⟨front, rfl, _⟩ := exists_front_of_keyword? found
    cases same
    exact ⟨front, rfl⟩
  obtain ⟨found, here, there, inside⟩ := ends.sameCut takes ms
  have forget {x : Option (List Char)} {text : Spaced → List Char}
      (h : x.map (fun rest => ((), rest)) = found.map (Prod.map id text)) :
      x = (found.map Prod.snd).map text := by
    have rests := congrArg (Option.map Prod.snd) h
    simpa [Option.map_map, Function.comp_def] using rests
  refine ⟨found.map Prod.snd, forget here, forget there, fun back hb => ?_⟩
  obtain ⟨p, hp, rfl⟩ := Option.map_eq_some_iff.1 hb
  exact inside p hp

/-- What a class without spaces and tabs takes from the front of a text. -/
theorem exists_span {p : Char → Bool} (solid : (p ' ' || p '\t') = false) (ms : Spaced) :
    ∃ taken back, back <:+ ms ∧ span p (narrow ms) = (taken, narrow back) ∧
      span p (wide ms) = (taken, wide back) := by
  have ends : EndsAtSpacing fun cs => some (span p cs) :=
    fun front c rest h => congrArg some (span_spacing solid h front rest)
  exact ends.exists_taken (span_append p) ms

/-! The choice of variables. -/

theorem exists_variableNames (ms : Spaced) : ∃ names back, back <:+ ms ∧
    variableNames (narrow ms) = (names, narrow back) ∧
      variableNames (wide ms) = (names, wide back) := by
  induction length : ms.length using Nat.strong_induction_on generalizing ms with
  | _ k ih =>
  subst length
  obtain ⟨next, gap, here, there⟩ := exists_skipGap ms
  obtain ⟨found, token, token', inside⟩ :=
    endsAtSpacing_variableToken.sameCut (Takes.suffix takes_variableToken) next
  rw [← here] at token
  rw [← there] at token'
  cases found with
  | none => exact ⟨[], ms, List.suffix_rfl, variableNames_nil token, variableNames_nil token'⟩
  | some p =>
    obtain ⟨name, rest⟩ := p
    have shorter : rest.length < ms.length := by
      obtain ⟨whole, some⟩ := takes_variableToken _ _ _ token
      have lengths := congrArg List.length whole
      have positive := List.length_pos_iff.2 some
      have fewer := gap.length_le
      rw [here, List.length_append] at lengths
      simp only [id, length_narrow] at lengths positive
      omega
    obtain ⟨names, back, suffix, tail, tail'⟩ := ih rest.length shorter rest rfl
    refine ⟨String.ofList name.tail :: names, back,
      (suffix.trans (inside (name, rest) rfl)).trans gap, ?_, ?_⟩
    · rw [variableNames_cons token]
      simp only [id, tail]
    · rw [variableNames_cons token']
      simp only [id, tail']

theorem chosen?_of_variableNames {cs : List Char} (h : cs.head? ≠ some '*') (distinct : Bool) :
    chosen? distinct cs = if (variableNames cs).1.isEmpty then none
      else some (⟨distinct, (variableNames cs).1⟩, (variableNames cs).2) := by
  unfold chosen?
  split
  · exact absurd rfl h
  · rfl

theorem sameCut_chosen (distinct : Bool) (ms : Spaced) :
    SameCut id id ms (chosen? distinct (narrow ms)) (chosen? distinct (wide ms)) := by
  by_cases star : ∃ n rest, ms = ('*', n) :: rest
  · obtain ⟨n, rest, rfl⟩ := star
    rw [wide_cons_of_ne (by decide)]
    exact SameCut.some id id (Choice.mk distinct [])
      (List.suffix_cons ('*', n) rest)
  · have other : (narrow ms).head? ≠ some '*' ∧ (wide ms).head? ≠ some '*' := by
      cases ms with
      | nil => exact ⟨nofun, nofun⟩
      | cons head ms =>
        obtain ⟨c, n⟩ := head
        have letter : c ≠ '*' := by
          rintro rfl
          exact star ⟨n, ms, rfl⟩
        obtain ⟨d, ds, shape, letter', _⟩ := exists_widened_of_ne rfl letter n
        rw [narrow_cons, wide_cons, shape]
        simp [letter, letter']
    obtain ⟨names, back, suffix, here, there⟩ := exists_variableNames ms
    rw [chosen?_of_variableNames other.1, chosen?_of_variableNames other.2, here, there]
    split
    · exact .none
    · exact SameCut.some id id (Choice.mk distinct names) suffix

theorem sameCut_selectClause (before : Option Char) (ms : Spaced) :
    SameCut id id ms (selectClause? before (narrow ms)) (selectClause? before (wide ms)) := by
  obtain ⟨found, word, word', inside⟩ :=
    exists_keyword? (show "SELECT".toList.any isSpacing = false by decide) before ms
  rw [selectClause?_eq, selectClause?_eq, word, word']
  cases found with
  | none => exact .none
  | some rest =>
    obtain ⟨next, gap, here, there⟩ := exists_skipGap rest
    have suffix := gap.trans (inside rest rfl)
    obtain ⟨behind, distinct, distinct', inside'⟩ :=
      exists_keyword? (show "DISTINCT".toList.any isSpacing = false by decide) none next
    simp only [Option.map_some, Option.bind_some, here, there, distinct, distinct']
    cases behind with
    | none => exact (sameCut_chosen false next).mono suffix
    | some back =>
      obtain ⟨last, gap', here', there'⟩ := exists_skipGap back
      simp only [Option.map_some, here', there']
      exact (sameCut_chosen true last).mono ((gap'.trans (inside' back rfl)).trans suffix)

/-! Declarations and limits. -/

theorem sameCut_prefixClause (before : Option Char) (ms : Spaced) :
    SameCut id id ms (prefixClause? before (narrow ms)) (prefixClause? before (wide ms)) := by
  obtain ⟨found, word, word', inside⟩ :=
    exists_keyword? (show "PREFIX".toList.any isSpacing = false by decide) before ms
  rw [prefixClause?, prefixClause?, word, word']
  cases found with
  | none => exact .none
  | some rest =>
    obtain ⟨next, gap, here, there⟩ := exists_skipGap rest
    obtain ⟨name, back, suffix, named, named'⟩ :=
      exists_span (show (isDeclaredChar ' ' || isDeclaredChar '\t') = false by decide) next
    have suffix' := (suffix.trans gap).trans (inside rest rfl)
    simp only [Option.map_some, Option.bind_eq_bind, Option.bind_some, here, there, named, named']
    cases back with
    | nil => exact .none
    | cons head back =>
      obtain ⟨c, n⟩ := head
      by_cases colon : c = ':'
      · subst colon
        obtain ⟨start, gap', here', there'⟩ := exists_skipGap back
        obtain ⟨iri, text, text', inside'⟩ :=
          endsAtSpacing_bracketed.sameCut (Takes.suffix takes_bracketed) start
        rw [narrow_cons, wide_cons_of_ne (by decide)]
        simp only [here', there', text, text']
        cases iri with
        | none => exact .none
        | some p =>
          have suffix'' := ((inside' p rfl).trans gap').trans
            ((List.suffix_cons (':', n) back).trans suffix')
          exact SameCut.some id id
            (String.ofList name, String.ofList p.1.tail.dropLast) suffix''
      · obtain ⟨d, ds, shape, colon', _⟩ := exists_widened_of_ne rfl colon n
        rw [narrow_cons, wide_cons, shape, List.cons_append]
        split
        · rename_i same
          exact absurd (List.cons.inj same).1 colon
        · split
          · rename_i same
            exact absurd (List.cons.inj same).1 colon'
          · exact .none

theorem sameCut_limitClause (before : Option Char) (ms : Spaced) :
    SameCut id id ms (limitClause? before (narrow ms)) (limitClause? before (wide ms)) := by
  obtain ⟨found, word, word', inside⟩ :=
    exists_keyword? (show "LIMIT".toList.any isSpacing = false by decide) before ms
  rw [limitClause?, limitClause?, limitDigits?, limitDigits?, word, word']
  cases found with
  | none => exact .none
  | some rest =>
    obtain ⟨next, gap, here, there⟩ := exists_skipGap rest
    obtain ⟨digits, back, suffix, read, read'⟩ :=
      exists_span (show (isAsciiDigit ' ' || isAsciiDigit '\t') = false by decide) next
    simp only [Option.map_some, Option.bind_eq_bind, Option.bind_some, here, there, read, read']
    split
    · exact .none
    · exact SameCut.some id id (asciiNumber digits)
        ((suffix.trans gap).trans (inside rest rfl))

/-! The search. -/

/-- A reader of clauses reads the same from a text and from its widening. It looks only at whether
the character in front touches a keyword, and starts at no space and no tab. -/
structure Widens {α β : Type} (value other : β → α)
    (reader : Option Char → List Char → Option (α × List Char)) : Prop where
  same : ∀ before ms, SameCut value other ms (reader before (narrow ms)) (reader before (wide ms))
  touched : ∀ before after cs, before.any touchesKeyword = after.any touchesKeyword →
    reader before cs = reader after cs
  blank : ∀ before c cs, isSpacing c = true → reader before (c :: cs) = none

theorem keyword?_touched {before after : Option Char}
    (h : before.any touchesKeyword = after.any touchesKeyword) (word : String) (cs : List Char) :
    keyword? word before cs = keyword? word after cs := by
  simp only [keyword?, h]

theorem keyword?_of_isSpacing {word : String} {d : Char} {ds : List Char}
    (h : word.toList = d :: ds) (solid : isSpacing d = false) {c : Char}
    (spacing : isSpacing c = true) (before : Option Char) (cs : List Char) :
    keyword? word before (c :: cs) = none := by
  have same : upperChar c = c := by
    rcases eq_of_isSpacing spacing with rfl | rfl <;> decide
  exact keyword?_eq_none h (by rw [same]; exact ne_of_isSpacing solid spacing) before cs

theorem widens_prefixClause : Widens id id prefixClause? where
  same := sameCut_prefixClause
  touched before after cs h := by
    rw [prefixClause?, prefixClause?, keyword?_touched h]
  blank before c cs h := by
    rw [prefixClause?, keyword?_of_isSpacing (show "PREFIX".toList = 'P' :: _ from rfl) rfl h]
    rfl

theorem widens_selectClause : Widens id id selectClause? where
  same := sameCut_selectClause
  touched before after cs h := by
    rw [selectClause?, selectClause?, keyword?_touched h]
  blank before c cs h := by
    rw [selectClause?, keyword?_of_isSpacing (show "SELECT".toList = 'S' :: _ from rfl) rfl h]
    rfl

theorem widens_limitClause : Widens id id limitClause? where
  same := sameCut_limitClause
  touched before after cs h := by
    rw [limitClause?, limitClause?, limitDigits?, limitDigits?, keyword?_touched h]
  blank before c cs h := by
    rw [limitClause?, limitDigits?,
      keyword?_of_isSpacing (show "LIMIT".toList = 'L' :: _ from rfl) rfl h]
    rfl

section Search

variable {α β : Type} {value other : β → α}
  {reader : Option Char → List Char → Option (α × List Char)}

theorem Widens.find?_spacing (h : Widens value other reader) (front : List Char)
    (spacing : ∀ c ∈ front, isSpacing c = true) (before : Option Char) (rest : List Char) :
    find? reader before (front ++ rest) = find? reader (front.getLast?.or before) rest := by
  refine find?_append (fun back nonempty suffix before => ?_) before
  obtain ⟨c, back, rfl⟩ := List.exists_cons_of_ne_nil nonempty
  exact h.blank before c (back ++ rest) (spacing c (suffix.subset List.mem_cons_self))

theorem Widens.find?_touched (h : Widens value other reader) {before after : Option Char}
    (touch : before.any touchesKeyword = after.any touchesKeyword) (cs : List Char) :
    find? reader before cs = find? reader after cs := by
  cases cs with
  | nil => rfl
  | cons c cs => rw [find?, find?, h.touched before after (c :: cs) touch]

/-- A clause is found in a text and in its widening at the same place. -/
theorem Widens.find? (h : Widens value other reader) (before : Option Char) (ms : Spaced) :
    SameCut value other ms (find? reader before (narrow ms)) (find? reader before (wide ms)) := by
  induction ms generalizing before with
  | nil => exact .none
  | cons m ms ih =>
    obtain ⟨c, n⟩ := m
    have suffix : ms <:+ (c, n) :: ms := List.suffix_cons _ _
    by_cases tab : c = '\t'
    · subst tab
      obtain ⟨d, ds, shape, spacing⟩ := exists_widened_tab n
      have here := h.find?_spacing ['\t'] (List.forall_mem_singleton.2 rfl) before
        (narrow ms)
      have there := h.find?_spacing (d :: ds) spacing before (wide ms)
      have clear : (((d :: ds).getLast?.or before).any touchesKeyword) =
          ((['\t'].getLast?.or before).any touchesKeyword) := by
        have last := List.getLast_mem (List.cons_ne_nil d ds)
        rw [List.getLast?_eq_some_getLast (List.cons_ne_nil d ds), Option.some_or, Option.any_some,
          eq_false_of_isSpacing (p := touchesKeyword) (by decide) (spacing _ last)]
        rfl
      rw [List.singleton_append] at here
      rw [narrow_cons, wide_cons, shape, here, there, h.find?_touched clear]
      exact (ih _).mono suffix
    · have first := h.same before ((c, n) :: ms)
      rw [narrow_cons, wide_cons_of_ne tab] at first ⊢
      rw [Query.find?, Query.find?]
      exact first.or ((ih (some c)).mono suffix)

end Search

/-- The declarations of a text are those of its widening. -/
theorem prefixClauses_wide (ms : Spaced) :
    prefixClauses (wide ms) = prefixClauses (narrow ms) := by
  induction length : ms.length using Nat.strong_induction_on generalizing ms with
  | _ k ih =>
  subst length
  obtain ⟨found, here, there, inside⟩ := widens_prefixClause.find? none ms
  cases found with
  | none => rw [prefixClauses_nil here, prefixClauses_nil there]
  | some p =>
    obtain ⟨declared, rest⟩ := p
    have shorter := length_find?_lt length_prefixClause?_lt here
    simp only [length_narrow] at shorter
    rw [prefixClauses_cons here, prefixClauses_cons there]
    exact congrArg (declared :: ·) (ih rest.length shorter rest rfl)

/-! The end of a block. -/

section Quotes

variable {q c : Char}

theorem quoteRun_plain (quote : c ≠ q) (slash : c ≠ '\\') (feed : c ≠ '\n') (back : c ≠ '\r')
    (cs : List Char) : quoteRun q (c :: cs) = quoteRun q cs := by
  cases cs with
  | nil => simp [quoteRun, quote, feed, back]
  | cons d cs => simp [quoteRun, quote, feed, back]

theorem quoteRun_escape (hexadecimal : c ≠ 'x') (cs : List Char) :
    quoteRun q ('\\' :: c :: cs) = quoteRun q cs := by
  cases cs with
  | nil => simp [quoteRun, hexadecimal]
  | cons d cs => simp [quoteRun, hexadecimal]

theorem quoteRun_break (quote : c ≠ q) (line : c = '\n' ∨ c = '\r') (cs : List Char) :
    quoteRun q (c :: cs) = c :: cs := by
  have slash : c ≠ '\\' := by
    rcases line with rfl | rfl <;> decide
  cases cs with
  | nil => simp [quoteRun, line]
  | cons d cs => simp [quoteRun, quote, line]

theorem quoteRun_quote (slash : q ≠ '\\') (d : Char) (cs : List Char) :
    quoteRun q (q :: d :: cs) = if d = q then quoteRun q cs else q :: d :: cs := by
  simp [quoteRun]

def isHexadecimal (c : Char) : Bool :=
  c.isDigit || ('a' ≤ c && c ≤ 'f') || ('A' ≤ c && c ≤ 'F')

theorem quoteRun_hexadecimal (q c : Char) (cs : List Char) :
    quoteRun q ('\\' :: 'x' :: c :: cs) =
      if isHexadecimal c then quoteRun q cs else '\\' :: 'x' :: c :: cs := by
  simp [quoteRun, isHexadecimal]

theorem quoteRun_spacing (solid : isSpacing q = false) {front : List Char}
    (spacing : ∀ c ∈ front, isSpacing c = true) (cs : List Char) :
    quoteRun q (front ++ cs) = quoteRun q cs := by
  induction front with
  | nil => rfl
  | cons c front ih =>
    have h := spacing c List.mem_cons_self
    rw [List.cons_append, quoteRun_plain (ne_of_isSpacing solid h) (ne_of_isSpacing (by decide) h)
      (ne_of_isSpacing (by decide) h) (ne_of_isSpacing (by decide) h)]
    exact ih fun d hd => spacing d (List.mem_cons_of_mem c hd)

/-- The search for the end of a quoted text stops in a text and in its widening at the same
place. -/
def QuoteEndsAlike (q : Char) (ms : Spaced) : Prop :=
  ∃ back, back <:+ ms ∧ quoteRun q (narrow ms) = narrow back ∧ quoteRun q (wide ms) = wide back

theorem QuoteEndsAlike.stay {ms : Spaced} (h : quoteRun q (narrow ms) = narrow ms)
    (h' : quoteRun q (wide ms) = wide ms) : QuoteEndsAlike q ms :=
  ⟨ms, List.suffix_rfl, h, h'⟩

theorem QuoteEndsAlike.pass (front : Spaced) {back : Spaced} (rest : QuoteEndsAlike q back)
    (h : quoteRun q (narrow (front ++ back)) = quoteRun q (narrow back))
    (h' : quoteRun q (wide (front ++ back)) = quoteRun q (wide back)) :
    QuoteEndsAlike q (front ++ back) := by
  obtain ⟨last, suffix, here, there⟩ := rest
  exact ⟨last, suffix.trans (List.suffix_append front back), h.trans here, h'.trans there⟩

/-- A backslash takes the next character along, an `x` only with a hexadecimal digit. -/
theorem QuoteEndsAlike.escape {n : Nat} {ms : Spaced} (solid : isSpacing q = false)
    (rest : ∀ back, back <:+ ms → QuoteEndsAlike q back) : QuoteEndsAlike q (('\\', n) :: ms) := by
  cases ms with
  | nil => exact .stay rfl rfl
  | cons head ms =>
    obtain ⟨d, m⟩ := head
    by_cases letter : d = 'x'
    · subst letter
      cases ms with
      | nil => exact .stay rfl rfl
      | cons head ms =>
        obtain ⟨e, l⟩ := head
        by_cases digit : isHexadecimal e = true
        · have tab : e ≠ '\t' := ne_of_class digit (by decide)
          refine .pass [('\\', n), ('x', m), (e, l)] (rest ms ⟨[_, _], rfl⟩) ?_ ?_
          · exact (quoteRun_hexadecimal q e (narrow ms)).trans (if_pos digit)
          · rw [List.cons_append, List.cons_append, List.cons_append, List.nil_append,
              wide_cons_of_ne (by decide), wide_cons_of_ne (by decide), wide_cons_of_ne tab]
            exact (quoteRun_hexadecimal q e (wide ms)).trans (if_pos digit)
        · obtain ⟨f, fs, shape, digit', _⟩ :=
            exists_widened (p := fun f => ¬ isHexadecimal f = true) digit (by decide) l
          refine .stay ((quoteRun_hexadecimal q e (narrow ms)).trans (if_neg digit)) ?_
          rw [wide_cons_of_ne (by decide), wide_cons_of_ne (by decide), wide_cons, shape]
          exact (quoteRun_hexadecimal q f _).trans (if_neg digit')
    · obtain ⟨e, es, shape, letter', spacing⟩ := exists_widened_of_ne rfl letter m
      refine .pass [('\\', n), (d, m)] (rest ms (List.suffix_cons _ _))
        (quoteRun_escape letter (narrow ms)) ?_
      rw [List.cons_append, List.cons_append, List.nil_append, wide_cons_of_ne (by decide),
        wide_cons, shape, List.cons_append, quoteRun_escape letter', quoteRun_spacing solid spacing]

/-- A doubled quote stands for itself, a single one ends the text. -/
theorem QuoteEndsAlike.quote {n : Nat} {ms : Spaced} (solid : isSpacing q = false)
    (slash : q ≠ '\\') (rest : ∀ back, back <:+ ms → QuoteEndsAlike q back) :
    QuoteEndsAlike q ((q, n) :: ms) := by
  have tab : q ≠ '\t' := by
    rintro rfl
    cases solid
  cases ms with
  | nil =>
    have single : quoteRun q [q] = [q] := by simp [quoteRun]
    refine .stay single ?_
    rw [wide_cons_of_ne tab]
    exact single
  | cons head ms =>
    obtain ⟨d, m⟩ := head
    by_cases double : d = q
    · subst double
      refine .pass [(d, n), (d, m)] (rest ms (List.suffix_cons _ _)) ?_ ?_
      · exact (quoteRun_quote slash d (narrow ms)).trans (if_pos rfl)
      · rw [List.cons_append, List.cons_append, List.nil_append, wide_cons_of_ne tab,
          wide_cons_of_ne tab]
        exact (quoteRun_quote slash d (wide ms)).trans (if_pos rfl)
    · obtain ⟨e, es, shape, double', _⟩ := exists_widened_of_ne solid double m
      refine .stay ((quoteRun_quote slash d (narrow ms)).trans (if_neg double)) ?_
      rw [wide_cons_of_ne tab, wide_cons, shape]
      exact (quoteRun_quote slash e _).trans (if_neg double')

theorem quoteEndsAlike (solid : isSpacing q = false) (slash : q ≠ '\\') (ms : Spaced) :
    QuoteEndsAlike q ms := by
  induction length : ms.length using Nat.strong_induction_on generalizing ms with
  | _ k ih =>
  subst length
  cases ms with
  | nil => exact .stay rfl rfl
  | cons head ms =>
    obtain ⟨c, n⟩ := head
    have rest (back : Spaced) (suffix : back <:+ ms) : QuoteEndsAlike q back :=
      ih back.length (Nat.lt_succ_of_le suffix.length_le) back rfl
    by_cases escape : c = '\\'
    · subst escape
      exact .escape solid rest
    by_cases quote : c = q
    · subst quote
      exact .quote solid slash rest
    by_cases line : c = '\n' ∨ c = '\r'
    · have tab : c ≠ '\t' := by
        rcases line with rfl | rfl <;> decide
      refine .stay (quoteRun_break quote line (narrow ms)) ?_
      rw [wide_cons_of_ne tab]
      exact quoteRun_break quote line (wide ms)
    · obtain ⟨feed, back⟩ := not_or.1 line
      refine .pass [(c, n)] (rest ms List.suffix_rfl)
        (quoteRun_plain quote escape feed back (narrow ms)) ?_
      rw [List.singleton_append]
      by_cases tab : c = '\t'
      · subst tab
        obtain ⟨d, ds, shape, spacing⟩ := exists_widened_tab n
        rw [wide_cons, shape, quoteRun_spacing solid spacing]
      · rw [wide_cons_of_ne tab, quoteRun_plain quote escape feed back]

end Quotes

theorem exists_quotedRest? {c : Char} (tab : c ≠ '\t') (ms : Spaced) :
    ∃ found : Option Spaced, quotedRest? (c :: narrow ms) = found.map narrow ∧
      quotedRest? (c :: wide ms) = found.map wide ∧ ∀ back ∈ found, back <:+ ms := by
  by_cases quote : c = '"' ∨ c = '\x27'
  · have solid : isSpacing c = false ∧ c ≠ '\\' := by
      rcases quote with rfl | rfl <;> decide
    obtain ⟨back, suffix, here, there⟩ := quoteEndsAlike solid.1 solid.2 ms
    simp only [quotedRest?, if_pos quote, here, there]
    cases back with
    | nil => exact ⟨none, rfl, rfl, by simp⟩
    | cons head back =>
      obtain ⟨d, m⟩ := head
      by_cases close : d = c
      · subst close
        rw [narrow_cons, wide_cons_of_ne tab]
        refine ⟨some back, by simp, by simp, ?_⟩
        rintro _ ⟨⟩
        exact (List.suffix_cons _ _).trans suffix
      · obtain ⟨e, es, shape, close', _⟩ := exists_widened_of_ne solid.1 close m
        rw [narrow_cons, wide_cons, shape]
        exact ⟨none, by simp [close], by simp [close'], by simp⟩
  · exact ⟨none, by simp [quotedRest?, quote], by simp [quotedRest?, quote], by simp⟩

theorem closeBraces_unquoted {c : Char} {cs : List Char} (h : quotedRest? (c :: cs) = none)
    (depth : Nat) : closeBraces depth (c :: cs) =
      if c = '\x7b' then closeBraces (depth + 1) cs
      else if c = '\x7d' then (if depth ≤ 1 then some cs else closeBraces (depth - 1) cs)
      else closeBraces depth cs := by
  rw [closeBraces]
  split
  · rename_i found
    rw [h] at found
    contradiction
  · rfl

/-- The search for the brace that closes a block finds it in a text and in its widening at the same
place. -/
def BlockEndsAlike (depth : Nat) (ms : Spaced) : Prop :=
  ∃ found : Option (Spaced × Spaced),
    closeBraces depth (narrow ms) = found.map (fun p => narrow p.2) ∧
      closeBraces depth (wide ms) = found.map (fun p => wide p.2) ∧
      ∀ p ∈ found, ∃ n, ms = p.1 ++ ('\x7d', n) :: p.2

theorem BlockEndsAlike.pass {depth next : Nat} (front : Spaced) {back : Spaced}
    (rest : BlockEndsAlike next back)
    (h : closeBraces depth (narrow (front ++ back)) = closeBraces next (narrow back))
    (h' : closeBraces depth (wide (front ++ back)) = closeBraces next (wide back)) :
    BlockEndsAlike depth (front ++ back) := by
  obtain ⟨found, here, there, inside⟩ := rest
  refine ⟨found.map fun p => (front ++ p.1, p.2), ?_, ?_, ?_⟩
  · rw [h, here, Option.map_map]
    rfl
  · rw [h', there, Option.map_map]
    rfl
  · intro p hp
    obtain ⟨q, hq, rfl⟩ := Option.map_eq_some_iff.1 hp
    obtain ⟨n, text⟩ := inside q hq
    exact ⟨n, by rw [text, List.append_assoc]⟩

theorem blockEndsAlike (depth : Nat) (ms : Spaced) : BlockEndsAlike depth ms := by
  induction length : ms.length using Nat.strong_induction_on generalizing ms depth with
  | _ k ih =>
  subst length
  cases ms with
  | nil =>
    have none : closeBraces depth [] = none := by rw [closeBraces]
    exact ⟨.none, none, none, by simp⟩
  | cons head ms =>
    obtain ⟨c, n⟩ := head
    have rest (back : Spaced) (suffix : back <:+ ms) (depth : Nat) : BlockEndsAlike depth back :=
      ih back.length (Nat.lt_succ_of_le suffix.length_le) depth back rfl
    by_cases tab : c = '\t'
    · subst tab
      refine .pass [('\t', n)] (rest ms List.suffix_rfl depth)
        (closeBraces_char rfl depth (narrow ms)) ?_
      refine closeBraces_append (fun d hd => ?_) depth (wide ms)
      obtain ⟨e, es, shape, spacing⟩ := exists_widened_tab n
      rcases eq_of_isSpacing (spacing d (shape ▸ hd)) with rfl | rfl <;> decide
    obtain ⟨found, here, there, inside⟩ := exists_quotedRest? tab ms
    cases found with
    | some back =>
      obtain ⟨front, rfl⟩ := inside back rfl
      refine .pass ((c, n) :: front) (rest back (List.suffix_append front back) depth)
        (closeBraces_quoted here depth) ?_
      rw [List.cons_append, wide_cons_of_ne tab]
      exact closeBraces_quoted there depth
    | none =>
      have step := closeBraces_unquoted here depth
      have step' := closeBraces_unquoted there depth
      rw [← wide_cons_of_ne (n := n) tab] at step'
      by_cases left : c = '\x7b'
      · rw [if_pos left] at step step'
        exact .pass [(c, n)] (rest ms List.suffix_rfl _) step step'
      by_cases right : c = '\x7d'
      · rw [if_neg left, if_pos right] at step step'
        by_cases last : depth ≤ 1
        · rw [if_pos last] at step step'
          refine ⟨some ([], ms), step, step', ?_⟩
          rintro _ ⟨⟩
          exact ⟨n, by rw [right]; rfl⟩
        · rw [if_neg last] at step step'
          exact .pass [(c, n)] (rest ms List.suffix_rfl _) step step'
      · rw [if_neg left, if_neg right] at step step'
        exact .pass [(c, n)] (rest ms List.suffix_rfl _) step step'

theorem blockClause?_eq_some {cs body back : List Char} (before : Option Char)
    (h : closeBraces 1 cs = some back) (text : cs = body ++ '\x7d' :: back) :
    blockClause? before ('\x7b' :: cs) = some (body, back) := by
  have length : cs.length - back.length - 1 = body.length := by
    rw [text, List.length_append, List.length_cons]
    omega
  rw [blockClause?, h, Option.map_some, length, text, List.take_left]

theorem sameCut_blockClause (before : Option Char) (ms : Spaced) :
    SameCut narrow wide ms (blockClause? before (narrow ms)) (blockClause? before (wide ms)) := by
  cases ms with
  | nil => exact .none
  | cons head ms =>
    obtain ⟨c, n⟩ := head
    by_cases brace : c = '\x7b'
    · subst brace
      obtain ⟨found, here, there, inside⟩ := blockEndsAlike 1 ms
      rw [narrow_cons, wide_cons_of_ne (by decide)]
      cases found with
      | none =>
        rw [blockClause?, blockClause?, here, there]
        exact .none
      | some p =>
        obtain ⟨body, back⟩ := p
        obtain ⟨m, rfl⟩ := inside (body, back) rfl
        have text : narrow (body ++ ('\x7d', m) :: back) =
            narrow body ++ '\x7d' :: narrow back := by
          rw [narrow_append, narrow_cons]
        have text' : wide (body ++ ('\x7d', m) :: back) = wide body ++ '\x7d' :: wide back := by
          rw [wide_append, wide_cons_of_ne (by decide)]
        rw [blockClause?_eq_some before here text, blockClause?_eq_some before there text']
        exact .some narrow wide body ⟨('\x7b', n) :: (body ++ [('\x7d', m)]), by simp⟩
    · obtain ⟨d, ds, shape, brace', _⟩ := exists_widened_of_ne rfl brace n
      rw [narrow_cons, wide_cons, shape, List.cons_append, blockClause?_eq_none brace,
        blockClause?_eq_none brace']
      exact .none

theorem widens_blockClause : Widens narrow wide blockClause? where
  same := sameCut_blockClause
  touched _ _ _ _ := rfl
  blank before c cs h := blockClause?_eq_none (ne_of_isSpacing (by decide) h) before cs

end Ontogram.Query
