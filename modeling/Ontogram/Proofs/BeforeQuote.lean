import Ontogram.Proofs.ClauseWidening

set_option autoImplicit false

namespace Ontogram.Query

open Text

/-- Whether an angle bracket is open behind a character, if it is known whether one is open in front
of it. -/
def opensAfter (isOpen : Bool) (c : Char) : Bool :=
  c == '<' || (isOpen && isBracketChar c)

/-- Whether an angle bracket is open at the end of a text: no blank and no bracket follows it. -/
def opens (cs : List Char) : Bool :=
  cs.foldl opensAfter false

theorem foldl_opensAfter_of_opens {cs : List Char} (h : opens cs = true) (isOpen : Bool) :
    cs.foldl opensAfter isOpen = true := by
  cases isOpen with
  | false => exact h
  | true =>
    have grows (cs : List Char) (a b : Bool) (le : a = true → b = true)
        (ha : cs.foldl opensAfter a = true) : cs.foldl opensAfter b = true := by
      induction cs generalizing a b with
      | nil => exact le ha
      | cons c cs ih =>
        refine ih (opensAfter a c) (opensAfter b c) (fun open_ => ?_) ha
        simp only [opensAfter, Bool.or_eq_true, Bool.and_eq_true] at open_ ⊢
        exact open_.imp_right fun both => ⟨le both.1, both.2⟩
    exact grows cs false true nofun h

theorem opens_of_suffix {back cs : List Char} (closed : opens cs = false) (suffix : back <:+ cs) :
    opens back = false := by
  obtain ⟨front, rfl⟩ := suffix
  refine Bool.eq_false_iff.2 fun open_ => ?_
  rw [opens, List.foldl_append, foldl_opensAfter_of_opens open_] at closed
  cases closed

/-- Brackets without a blank or a further bracket behind them are open. -/
theorem opens_bracket {cs : List Char} (chars : ∀ c ∈ cs, isBracketChar c = true) :
    opens ('<' :: cs) = true := by
  change cs.foldl opensAfter true = true
  induction cs with
  | nil => rfl
  | cons c cs ih =>
    have here : opensAfter true c = true := by
      simp [opensAfter, chars c List.mem_cons_self]
    rw [List.foldl_cons, here]
    exact ih fun d hd => chars d (List.mem_cons_of_mem c hd)

/-! Ends in front of a quote. -/

/-- A reader ends in front of a quote behind `front`, whatever follows the quote. -/
def Settles {α : Type} (reader : List Char → Option (α × List Char)) (front : List Char) : Prop :=
  ∀ rest, reader (front ++ '"' :: rest) =
    (reader front).map fun found => (found.1, found.2 ++ '"' :: rest)

/-- A text between quotes: a quote in it has a backslash in front. -/
def IsQuotable (value : List Char) : Prop :=
  quotedTail? (value ++ ['"']) = some (value ++ ['"'], [])

/-- A reader takes the opening quote behind `front`, whatever literal it opens. -/
def Crosses {α : Type} (reader : List Char → Option (α × List Char)) (front : List Char) : Prop :=
  ∀ value back, IsQuotable value → ∃ a rest,
    reader (front ++ '"' :: (value ++ '"' :: back)) = some (a, rest) ∧
      rest.length ≤ (value ++ '"' :: back).length

theorem EndsAt.settles {α : Type} {reader : List Char → Option (α × List Char)}
    (h : EndsAt '"' reader) (front : List Char) : Settles reader front :=
  h front

section Or

variable {f g : List Char → Option (List Char × List Char)} {front : List Char}

theorem Settles.or (hf : Settles f front) (hg : Settles g front) :
    Settles (fun cs => (f cs).or (g cs)) front := by
  intro rest
  change (f (front ++ '"' :: rest)).or (g (front ++ '"' :: rest)) =
    ((f front).or (g front)).map _
  rw [hf rest, hg rest]
  cases f front <;> rfl

/-- Of two readers the second is asked only where the first reads nothing. -/
theorem settles_or_crosses_or (hf : Settles f front ∨ Crosses f front)
    (hg : Settles g front ∨ Crosses g front) :
    Settles (fun cs => (f cs).or (g cs)) front ∨ Crosses (fun cs => (f cs).or (g cs)) front := by
  rcases hf with hf | hf
  · cases read : f front with
    | some found =>
      refine Or.inl fun rest => ?_
      change (f (front ++ '"' :: rest)).or _ = ((f front).or _).map _
      rw [hf rest, read]
      rfl
    | none =>
      rcases hg with hg | hg
      · exact Or.inl (hf.or hg)
      · refine Or.inr fun value back quotable => ?_
        obtain ⟨a, rest, taken, short⟩ := hg value back quotable
        refine ⟨a, rest, ?_, short⟩
        change (f (front ++ '"' :: (value ++ '"' :: back))).or _ = _
        rw [hf, read]
        exact taken
  · refine Or.inr fun value back quotable => ?_
    obtain ⟨a, rest, taken, short⟩ := hf value back quotable
    refine ⟨a, rest, ?_, short⟩
    change (f (front ++ '"' :: (value ++ '"' :: back))).or _ = _
    rw [taken]
    rfl

end Or

theorem isDelimiter_quote : isDelimiter '"' = true := by decide

/-- A class that holds within a text ends there. -/
theorem span_append_of_rest {p : Char → Bool} {cs : List Char} (h : (span p cs).2 ≠ [])
    (rest : List Char) : span p (cs ++ rest) = ((span p cs).1, (span p cs).2 ++ rest) := by
  induction cs with
  | nil => exact absurd rfl h
  | cons c cs ih =>
    by_cases hc : p c = true
    · simp only [span, List.cons_append, List.takeWhile_cons_of_pos hc,
        List.dropWhile_cons_of_pos hc, Prod.mk.injEq] at h ih ⊢
      exact ⟨by rw [(ih h).1], (ih h).2⟩
    · simp [span, hc]

theorem settles_bracketed {front : List Char} (closed : opens front = false) :
    Settles bracketed? front := by
  intro rest
  cases front with
  | nil => rfl
  | cons c front =>
    by_cases left : c = '<'
    · subst left
      have stop : (span isBracketChar front).2 ≠ [] := by
        intro none
        have all : ∀ d ∈ front, isBracketChar d = true := by
          simpa [span, List.dropWhile_eq_nil_iff] using none
        rw [opens_bracket all] at closed
        cases closed
      rw [List.cons_append, bracketed?, span_append_of_rest stop, bracketed?]
      rcases cut : span isBracketChar front with ⟨name, _ | ⟨d, back⟩⟩
      · rw [cut] at stop
        exact absurd rfl stop
      · by_cases right : d = '>' <;> simp [right]
    · rw [List.cons_append, bracketed?_eq_none left, bracketed?_eq_none left]
      rfl

/-! Literals. -/

/-- A quoted text ends where it ends, whatever follows it. -/
theorem quotedTail?_append_of_some {cs body rest : List Char}
    (h : quotedTail? cs = some (body, rest)) (back : List Char) :
    quotedTail? (cs ++ back) = some (body, rest ++ back) := by
  fun_induction quotedTail? cs generalizing body rest with
  | case1 => cases h
  | case2 => cases h
  | case3 => cases h
  | case4 d cs line ih =>
    obtain ⟨found, inner, same⟩ := Option.map_eq_some_iff.1 h
    cases same
    rw [List.cons_append, List.cons_append, quotedTail?_escape line, ih inner]
    rfl
  | case5 cs =>
    cases h
    rfl
  | case6 c cs last escape quote ih =>
    obtain ⟨found, inner, same⟩ := Option.map_eq_some_iff.1 h
    cases same
    have slash : c ≠ '\\' := by
      rintro rfl
      cases cs with
      | nil => exact last rfl rfl
      | cons d cs => exact escape d cs rfl rfl
    have plain := quotedTail?_append_plain [c] (by simp [quote, slash]) (cs ++ back)
    rw [List.cons_append]
    refine plain.trans ?_
    rw [ih inner]
    rfl

theorem IsQuotable.tail_append {value : List Char} (h : IsQuotable value) (back : List Char) :
    quotedTail? (value ++ '"' :: back) = some (value ++ ['"'], back) := by
  have whole := quotedTail?_append_of_some h back
  simpa using whole

/-- A text without quotes and backslashes stands between quotes. -/
theorem isQuotable_of_notMem {value : List Char} (quote : '"' ∉ value) (slash : '\\' ∉ value) :
    IsQuotable value :=
  quotedTail?_append_quote quote slash []

/-- The rest of a quoted text, read in front of a quote, ends there, or takes that quote for its
end, or has a backslash in front of it and goes on behind it. -/
def EndsAround (front : List Char) : Prop :=
  Settles quotedTail? front ∨
    (∀ rest, quotedTail? (front ++ '"' :: rest) = some (front ++ ['"'], rest)) ∨
    ∀ rest, quotedTail? (front ++ '"' :: rest) =
      (quotedTail? rest).map fun found => (front ++ '"' :: found.1, found.2)

theorem EndsAround.prepend (taken : List Char) {front : List Char}
    (pass : ∀ cs, quotedTail? (taken ++ cs) =
      (quotedTail? cs).map fun found => (taken ++ found.1, found.2))
    (h : EndsAround front) : EndsAround (taken ++ front) := by
  have step (rest : List Char) : quotedTail? (taken ++ front ++ '"' :: rest) =
      (quotedTail? (front ++ '"' :: rest)).map fun found => (taken ++ found.1, found.2) := by
    rw [List.append_assoc, pass]
  rcases h with settles | closes | escaped
  · refine Or.inl fun rest => ?_
    rw [step, settles rest, pass, Option.map_map, Option.map_map]
    rfl
  · refine Or.inr (Or.inl fun rest => ?_)
    rw [step, closes, Option.map_some, List.append_assoc]
  · refine Or.inr (Or.inr fun rest => ?_)
    rw [step, escaped, Option.map_map]
    simp only [Function.comp_def, List.append_assoc]

theorem endsAround (front : List Char) : EndsAround front := by
  fun_induction quotedTail? front with
  | case1 => exact Or.inr (Or.inl fun rest => rfl)
  | case2 => exact Or.inr (Or.inr fun rest => quotedTail?_escape (by decide) rest)
  | case3 cs =>
    have none (cs : List Char) : quotedTail? ('\\' :: '\n' :: cs) = none := by
      rw [quotedTail?, if_pos rfl]
    refine Or.inl fun rest => ?_
    rw [List.cons_append, List.cons_append, none, none]
    rfl
  | case4 d cs line ih => exact ih.prepend ['\\', d] (quotedTail?_escape line)
  | case5 cs => exact Or.inl fun rest => rfl
  | case6 c cs last escape quote ih =>
    have slash : c ≠ '\\' := by
      rintro rfl
      cases cs with
      | nil => exact last rfl rfl
      | cons d cs => exact escape d cs rfl rfl
    exact ih.prepend [c] (quotedTail?_append_plain [c] (by simp [quote, slash]))

theorem length_le_of_quote (value back : List Char) :
    back.length ≤ (value ++ '"' :: back).length := by
  rw [List.length_append, List.length_cons]
  omega

theorem settles_or_crosses_quotedText (front : List Char) :
    Settles quotedText? front ∨ Crosses quotedText? front := by
  cases front with
  | nil =>
    refine Or.inr fun value back quotable =>
      ⟨'"' :: (value ++ ['"']), back, ?_, length_le_of_quote value back⟩
    rw [List.nil_append, quotedText?, quotable.tail_append]
    rfl
  | cons c front =>
    by_cases quote : c = '"'
    · subst quote
      have read (cs : List Char) : quotedText? ('"' :: cs) =
        (quotedTail? cs).map fun found => ('"' :: found.1, found.2) := rfl
      rcases endsAround front with settles | closes | escaped
      · refine Or.inl fun rest => ?_
        rw [List.cons_append, read, settles rest, read, Option.map_map, Option.map_map]
        rfl
      · refine Or.inr fun value back _ =>
          ⟨'"' :: (front ++ ['"']), value ++ '"' :: back, ?_, le_rfl⟩
        rw [List.cons_append, read, closes]
        rfl
      · refine Or.inr fun value back quotable =>
          ⟨'"' :: (front ++ '"' :: (value ++ ['"'])), back, ?_, length_le_of_quote value back⟩
        rw [List.cons_append, read, escaped, quotable.tail_append]
        rfl
    · refine Or.inl fun rest => ?_
      rw [List.cons_append, quotedText?_eq_none quote, quotedText?_eq_none quote]
      rfl

theorem settles_or_crosses_literal {front : List Char} (closed : opens front = false) :
    Settles literal? front ∨ Crosses literal? front := by
  rcases settles_or_crosses_quotedText front with settles | crosses
  · refine Or.inl fun rest => ?_
    rw [literal?, marked?, marked?, settles rest]
    cases read : quotedText? front with
    | none => rfl
    | some found =>
      obtain ⟨body, back⟩ := found
      have suffix : back <:+ front := ⟨body, (takes_quotedText _ _ _ read).1⟩
      have marked : Settles (fun cs => (languageMark? cs).or (typeMark? cs)) back := by
        refine (EndsAt.settles (endsAt_languageMark isDelimiter_quote) back).or fun rest => ?_
        refine typeMark?_stop isDelimiter_quote fun inner within => ?_
        exact settles_bracketed (opens_of_suffix closed (within.trans suffix)) rest
      have mark := marked rest
      dsimp only at mark
      simp only [Option.map_some, Option.bind_eq_bind, Option.bind_some, mark]
      cases (languageMark? back).or (typeMark? back) <;> rfl
  · refine Or.inr fun value back quotable => ?_
    obtain ⟨body, rest, taken, short⟩ := crosses value back quotable
    rw [literal?, marked?, taken]
    simp only [Option.bind_eq_bind, Option.bind_some]
    cases mark : (languageMark? rest).or (typeMark? rest) with
    | none => exact ⟨body, rest, rfl, short⟩
    | some found =>
      have shorter := (Takes.suffix (takes_or takes_languageMark takes_typeMark) _ _ _
        mark).length_le
      exact ⟨body ++ found.1, found.2, rfl, shorter.trans short⟩

/-! Tokens. -/

/-- A run of anything in front of a quote takes it, or ends in front of it where a blank or a full
stop stands. -/
theorem settles_or_crosses_run (front : List Char) :
    Settles (fun cs => some (dottedSpan isBareChar cs)) front ∨
      Crosses (fun cs => some (dottedSpan isBareChar cs)) front := by
  have bare : isBareChar '"' = true := by decide
  have shrinks (cs : List Char) : (dottedSpan isBareChar cs).2.length ≤ cs.length :=
    List.IsSuffix.length_le ⟨_, dottedSpan_append isBareChar cs⟩
  have take {c : Char} {cs : List Char}
      (h : (isBareChar c || (c == '.' && cs.head?.any isBareChar)) = true) :
      dottedSpan isBareChar (c :: cs) =
        (c :: (dottedSpan isBareChar cs).1, (dottedSpan isBareChar cs).2) := by
    rw [dottedSpan, if_pos h]
  have quoteTaken (cs : List Char) : (dottedSpan isBareChar ('"' :: cs)).2.length ≤ cs.length := by
    rw [take (by simp [bare])]
    exact shrinks cs
  induction front with
  | nil => exact Or.inr fun value back _ => ⟨_, _, rfl, quoteTaken (value ++ '"' :: back)⟩
  | cons c front ih =>
    by_cases last : front = [] ∧ c = '.'
    · -- The quote makes the full stop one inside the run.
      obtain ⟨rfl, rfl⟩ := last
      refine Or.inr fun value back _ => ⟨_, _, rfl, ?_⟩
      have dot : dottedSpan isBareChar ('.' :: '"' :: (value ++ '"' :: back)) = _ :=
        take (by simp [bare])
      exact (congrArg (fun run => run.2.length) dot).trans_le (quoteTaken (value ++ '"' :: back))
    · have next (rest : List Char) :
          (isBareChar c || (c == '.' && (front ++ '"' :: rest).head?.any isBareChar)) =
            (isBareChar c || (c == '.' && front.head?.any isBareChar)) := by
        cases front with
        | nil =>
          have dotless : (c == '.') = false := by simpa using last
          simp [dotless]
        | cons d front => rfl
      by_cases taken : (isBareChar c || (c == '.' && front.head?.any isBareChar)) = true
      · rcases ih with settles | crosses
        · refine Or.inl fun rest => ?_
          have inner := Option.some.inj (settles rest)
          dsimp only at inner ⊢
          rw [List.cons_append, take ((next rest).trans taken), take taken, inner]
          rfl
        · refine Or.inr fun value back quotable => ?_
          obtain ⟨a, rest, run, short⟩ := crosses value back quotable
          have inner := Option.some.inj run
          refine ⟨c :: a, rest, ?_, short⟩
          dsimp only at inner ⊢
          rw [List.cons_append, take ((next _).trans taken), inner]
      · refine Or.inl fun rest => ?_
        have first := next rest
        dsimp only
        rw [List.cons_append, dottedSpan, first, if_neg taken, dottedSpan, if_neg taken]
        rfl

/-- The lexemes that a token may be, in the order in which they are tried. -/
def lexeme? (cs : List Char) : Option (List Char × List Char) :=
  (bracketed? cs).or <| (literal? cs).or <| (variableToken? cs).or <| (absoluteIri? cs).or <|
    (prefixedName? cs).or <| number? cs

theorem cut_eq_lexeme (c : Char) (cs : List Char) : cut c cs =
    match lexeme? (c :: cs) with
    | some found => found
    | none => if c = '.' then ([c], cs)
      else (c :: (dottedSpan isBareChar cs).1, (dottedSpan isBareChar cs).2) :=
  rfl

theorem settles_or_crosses_lexeme {front : List Char} (closed : opens front = false) :
    Settles lexeme? front ∨ Crosses lexeme? front := by
  have quote := isDelimiter_quote
  have others : Settles (fun cs => (variableToken? cs).or <| (absoluteIri? cs).or <|
      (prefixedName? cs).or <| number? cs) front :=
    ((endsAt_variableToken quote).or <| (endsAt_absoluteIri quote).or <|
      (endsAt_prefixedName quote).or (endsAt_number quote)).settles front
  exact settles_or_crosses_or (Or.inl (settles_bracketed closed)) <|
    settles_or_crosses_or (settles_or_crosses_literal closed) (Or.inl others)

/-- A token that starts in front of a quote ends there or takes the quote. -/
theorem settles_or_crosses_cut {c : Char} {front : List Char}
    (closed : opens (c :: front) = false) :
    Settles (fun cs => some (cut c cs)) front ∨ Crosses (fun cs => some (cut c cs)) front := by
  rcases settles_or_crosses_lexeme closed with settles | crosses
  · cases read : lexeme? (c :: front) with
    | some found =>
      refine Or.inl fun rest => ?_
      have there := settles rest
      rw [read, List.cons_append] at there
      simp only [cut_eq_lexeme, there, read, Option.map_some]
    | none =>
      have there (rest : List Char) : lexeme? (c :: (front ++ '"' :: rest)) = none := by
        have same := settles rest
        rwa [read, List.cons_append] at same
      by_cases dot : c = '.'
      · refine Or.inl fun rest => ?_
        simp only [cut_eq_lexeme, there, read, if_pos dot, Option.map_some]
      · rcases settles_or_crosses_run front with settled | crossed
        · refine Or.inl fun rest => ?_
          have run := Option.some.inj (settled rest)
          simp only [cut_eq_lexeme, there, read, if_neg dot, run, Option.map_some]
        · refine Or.inr fun value back quotable => ?_
          obtain ⟨a, rest, run, short⟩ := crossed value back quotable
          refine ⟨c :: a, rest, ?_, short⟩
          simp only [cut_eq_lexeme, there, if_neg dot, Option.some.inj run]
  · refine Or.inr fun value back quotable => ?_
    obtain ⟨a, rest, read, short⟩ := crosses value back quotable
    refine ⟨a, rest, ?_, short⟩
    rw [List.cons_append] at read
    simp only [cut_eq_lexeme, read]

end Ontogram.Query
