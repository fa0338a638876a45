import Ontogram.Proofs.BareName
import Ontogram.Proofs.ExpressionSpacing

set_option autoImplicit false

namespace Ontogram

namespace Text

theorem exists_visible {cs : List Char} (h : cs.head?.all isBlank = false) :
    ∃ c ds, cs = c :: ds ∧ isBlank c = false := by
  cases cs with
  | nil => cases h
  | cons c ds => exact ⟨c, ds, rfl, h⟩

/-- The first word of a text stands behind blanks only, and the others follow it. -/
theorem exists_firstWord {cs word : List Char} {others : List (List Char)}
    (h : wordsOf cs = word :: others) :
    ∃ gap rest, cs = gap ++ (word ++ rest) ∧ (∀ c ∈ gap, isBlank c = true) ∧
      rest.head?.all isBlank = true ∧ wordsOf rest = others := by
  induction cs generalizing word with
  | nil => cases h
  | cons c cs ih =>
    rw [wordsOf] at h
    cases blank : isBlank c with
    | true =>
      rw [if_pos blank] at h
      obtain ⟨gap, rest, rfl, blanks, ends, behind⟩ := ih h
      exact ⟨c :: gap, rest, rfl, List.forall_mem_cons.2 ⟨blank, blanks⟩, ends, behind⟩
    | false =>
      rw [if_neg (by simp [blank])] at h
      cases ends : cs.head?.all isBlank with
      | true =>
        rw [if_pos ends] at h
        obtain ⟨rfl, rfl⟩ := List.cons.inj h
        exact ⟨[], cs, rfl, by simp, ends, rfl⟩
      | false =>
        rw [if_neg (by simp [ends])] at h
        obtain ⟨d, ds, rfl, visible⟩ := exists_visible ends
        obtain ⟨w, ws, words⟩ := List.exists_cons_of_ne_nil (wordsOf_cons_ne_nil visible ds)
        rw [words] at h
        obtain ⟨rfl, rfl⟩ := List.cons.inj h
        obtain ⟨gap, rest, text, blanks, stop, behind⟩ := ih words
        cases gap with
        | nil => exact ⟨[], rest, by rw [text]; rfl, by simp, stop, behind⟩
        | cons e gap =>
          obtain ⟨rfl, -⟩ := List.cons.inj text
          rw [blanks d List.mem_cons_self] at visible
          cases visible

end Text

namespace Expression

open Text
open Query (EndsAt quotedTail?_append_plain quotedTail?_escape)

/-- A text with one space for each run of blanks, and none for a run at its end. -/
def squeeze : List Char → List Char
  | [] => []
  | c :: cs =>
    if isBlank c then
      if cs.head?.all isBlank then squeeze cs else ' ' :: squeeze cs
    else c :: squeeze cs

/-! Squeezed texts. -/

theorem squeeze_visible {c : Char} (visible : isBlank c = false) (cs : List Char) :
    squeeze (c :: cs) = c :: squeeze cs := by
  rw [squeeze, if_neg (by simp [visible])]

theorem squeeze_blanks {c : Char} (blank : isBlank c = true) {cs : List Char}
    (more : cs.head?.all isBlank = true) : squeeze (c :: cs) = squeeze cs := by
  rw [squeeze, if_pos blank, if_pos more]

theorem squeeze_blank {c : Char} (blank : isBlank c = true) {cs : List Char}
    (last : cs.head?.all isBlank = false) : squeeze (c :: cs) = ' ' :: squeeze cs := by
  rw [squeeze, if_pos blank, if_neg (by simp [last])]

/-- What starts with a blank, or is empty, is squeezed to what starts with a space, or is empty. -/
theorem squeeze_head {cs : List Char} (blank : cs.head?.all isBlank = true) :
    squeeze cs = [] ∨ ∃ ds, squeeze cs = ' ' :: ds := by
  induction cs with
  | nil => exact Or.inl rfl
  | cons c cs ih =>
    have first : isBlank c = true := blank
    cases more : cs.head?.all isBlank with
    | true =>
      rw [squeeze_blanks first more]
      exact ih more
    | false => exact Or.inr ⟨_, squeeze_blank first more⟩

theorem head?_squeeze {cs : List Char} (blank : cs.head?.all isBlank = true) :
    ∀ c ∈ (squeeze cs).head?, isBlank c = true := by
  rcases squeeze_head blank with none | ⟨ds, space⟩
  · simp [none]
  · rw [space]
    simpa using isBlank_space

/-- A text that ends with no blank is squeezed by itself. -/
theorem squeeze_append {cs : List Char} (last : ∀ c ∈ cs.getLast?, isBlank c = false)
    (ds : List Char) : squeeze (cs ++ ds) = squeeze cs ++ squeeze ds := by
  induction cs with
  | nil => rfl
  | cons c cs ih =>
    cases blank : isBlank c with
    | false =>
      have rest : ∀ d ∈ cs.getLast?, isBlank d = false := by
        intro d hd
        exact last d (by simp [List.getLast?_cons, Option.mem_def.1 hd])
      rw [List.cons_append, squeeze_visible blank, squeeze_visible blank, ih rest, List.cons_append]
    | true =>
      obtain ⟨d, cs, rfl⟩ : ∃ d ds, cs = d :: ds := by
        cases cs with
        | nil => simp [blank] at last
        | cons d cs => exact ⟨d, cs, rfl⟩
      have rest := ih (by simpa using last)
      cases more : isBlank d with
      | true =>
        rw [List.cons_append, squeeze_blanks blank (by simpa using more),
          squeeze_blanks blank (by simpa using more), rest]
      | false =>
        rw [List.cons_append, squeeze_blank blank (by simpa using more),
          squeeze_blank blank (by simpa using more), rest, List.cons_append]

theorem squeeze_eq {cs : List Char} (solid : ∀ c ∈ cs, isBlank c = false) : squeeze cs = cs := by
  induction cs with
  | nil => rfl
  | cons c cs ih =>
    obtain ⟨first, others⟩ := List.forall_mem_cons.1 solid
    rw [squeeze_visible first, ih others]

theorem squeeze_solid {cs : List Char} (solid : ∀ c ∈ cs, isBlank c = false) (ds : List Char) :
    squeeze (cs ++ ds) = cs ++ squeeze ds := by
  rw [squeeze_append (fun c hc => solid c (List.mem_of_mem_getLast? hc)), squeeze_eq solid]

theorem eq_space_of_mem_squeeze {c : Char} {cs : List Char} (h : c ∈ squeeze cs)
    (blank : isBlank c = true) : c = ' ' := by
  fun_induction squeeze cs with
  | case1 => cases h
  | case2 d cs first more ih => exact ih h
  | case3 d cs first more ih =>
    rcases List.mem_cons.1 h with rfl | h
    · rfl
    · exact ih h
  | case4 d cs first ih =>
    rcases List.mem_cons.1 h with rfl | h
    · exact absurd blank first
    · exact ih h

theorem tab_notMem_squeeze (cs : List Char) : '\t' ∉ squeeze cs := fun h =>
  absurd (eq_space_of_mem_squeeze h (by decide)) (by decide)

/-- The words of a text with a space between each two are the squeezed text. -/
theorem intercalate_wordsOf (cs : List Char) :
    (cs.head?.all isBlank = false → [' '].intercalate (wordsOf cs) = squeeze cs) ∧
      (cs.head?.all isBlank = true → ∀ word,
        [' '].intercalate (word :: wordsOf cs) = word ++ squeeze cs) := by
  induction cs with
  | nil => simp [wordsOf, squeeze]
  | cons c cs ih =>
    obtain ⟨inside, behind⟩ := ih
    cases blank : isBlank c with
    | false =>
      refine ⟨fun _ => ?_, fun first => absurd first (by simp [blank])⟩
      rw [squeeze_visible blank, wordsOf, if_neg (by simp [blank])]
      cases ends : cs.head?.all isBlank with
      | true => exact behind ends [c]
      | false =>
        rw [← inside ends]
        cases words : wordsOf cs with
        | nil => simp
        | cons w ws => cases ws <;> simp
    | true =>
      refine ⟨fun first => absurd first (by simp [blank]), fun _ word => ?_⟩
      rw [wordsOf, if_pos blank]
      cases more : cs.head?.all isBlank with
      | true => rw [squeeze_blanks blank more, behind more]
      | false =>
        obtain ⟨d, ds, rfl, visible⟩ := exists_visible more
        obtain ⟨w, ws, words⟩ := List.exists_cons_of_ne_nil (wordsOf_cons_ne_nil visible ds)
        rw [squeeze_blank blank more, ← inside more, words]
        simp

/-! Readers. -/

/-- A reader takes the squeezed lexeme from a squeezed text. -/
def Squeezes (reader : List Char → Option (List Char × List Char)) : Prop :=
  ∀ cs, reader (squeeze cs) = (reader cs).map (Prod.map squeeze squeeze)

/-- So does each reader that goes no further than the first blank. -/
theorem squeezes_of_endsAt {reader : List Char → Option (List Char × List Char)}
    (whole : ∀ cs found, reader cs = some found → found.1 ++ found.2 = cs)
    (ends : ∀ c, isBlank c = true → EndsAt c reader) : Squeezes reader := by
  intro cs
  have stops (front rest : List Char) (blank : ∀ c ∈ rest.head?, isBlank c = true) :
      reader (front ++ rest) = (reader front).map fun found => (found.1, found.2 ++ rest) := by
    cases rest with
    | nil => simp
    | cons c rest => exact ends c (blank c rfl) front rest
  have cut : cs.takeWhile (fun c => !isBlank c) ++ cs.dropWhile (fun c => !isBlank c) = cs :=
    List.takeWhile_append_dropWhile
  have solid : ∀ c ∈ cs.takeWhile (fun c => !isBlank c), isBlank c = false := fun c hc => by
    simpa using List.mem_takeWhile_imp hc
  have blank : (cs.dropWhile fun c => !isBlank c).head?.all isBlank = true := by
    have stop := List.head?_dropWhile_not (fun c => !isBlank c) cs
    cases rest : (cs.dropWhile fun c => !isBlank c).head? with
    | none => rfl
    | some c =>
      rw [rest] at stop
      simpa using stop
  generalize cs.takeWhile (fun c => !isBlank c) = front at cut solid
  generalize (cs.dropWhile fun c => !isBlank c) = rest at cut blank
  subst cut
  rw [squeeze_solid solid, stops front _ (head?_squeeze blank), stops front rest
    (by simpa [Option.all_eq_true] using blank), Option.map_map]
  refine Option.map_congr fun found hf => ?_
  have text := whole front found hf
  rw [← text] at solid
  obtain ⟨taken, left⟩ := List.forall_mem_append.1 solid
  simp [squeeze_eq taken, squeeze_solid left]

theorem squeezes_bracketed : Squeezes bracketed? :=
  squeezes_of_endsAt (fun cs found h => (takes_bracketed cs found.1 found.2 h).1) fun c blank =>
    Query.bracketed?_stop (ne_of_isBlank blank (by decide)) (ne_of_isBlank blank (by decide))
      (by simp [isBracketChar, blank])

theorem squeezes_mark : Squeezes fun cs => (languageMark? cs).or (typeMark? cs) :=
  squeezes_of_endsAt
    (fun cs found h => (takes_or takes_languageMark takes_typeMark cs found.1 found.2 h).1)
    fun c blank =>
      (Query.languageMark?_stop (ne_of_isBlank blank (by decide)) (isTagChar_of_isBlank blank)).or
        (typeMark?_stop (ne_of_isBlank blank (by decide)) (by simp [isTypeChar, blank]))

theorem squeezes_word : Squeezes fun cs => some (span isWordChar cs) :=
  squeezes_of_endsAt
    (fun cs found h => by
      obtain rfl := Option.some.inj h
      exact span_append isWordChar cs)
    fun c blank front rest =>
      congrArg some (Query.span_stop (by simp [isWordChar, blank]) front rest)

/-! Literals. -/

/-- A blank is taken into a quoted text like any other character. -/
theorem quotedTail?_cons {c : Char} (plain : c ≠ '"' ∧ c ≠ '\\') (cs : List Char) :
    quotedTail? (c :: cs) = (quotedTail? cs).map fun found => (c :: found.1, found.2) :=
  quotedTail?_append_plain [c] (by simpa using plain) cs

theorem getLast?_of_quotedTail {cs : List Char} {found : List Char × List Char}
    (h : quotedTail? cs = some found) : found.1.getLast? = some '"' := by
  fun_induction quotedTail? cs generalizing found with
  | case1 => cases h
  | case2 => cases h
  | case3 => cases h
  | case4 d rest line ih =>
    obtain ⟨inner, tail, rfl⟩ := Option.map_eq_some_iff.1 h
    simp [List.getLast?_cons, ih tail]
  | case5 rest =>
    obtain rfl := Option.some.inj h
    rfl
  | case6 c rest single pair other ih =>
    obtain ⟨inner, tail, rfl⟩ := Option.map_eq_some_iff.1 h
    simp [List.getLast?_cons, ih tail]

/-- A character in front of a quoted text is squeezed as it is in front of the whole text. -/
theorem squeeze_cons_of_quotedTail {cs : List Char} {found : List Char × List Char}
    (h : quotedTail? cs = some found) (c : Char) :
    squeeze (c :: found.1) =
      if isBlank c then
        if cs.head?.all isBlank then squeeze found.1 else ' ' :: squeeze found.1
      else c :: squeeze found.1 := by
  have text : found.1 ++ found.2 = cs := quotedTail?_append h
  obtain ⟨d, ds, taken⟩ : ∃ d ds, found.1 = d :: ds := by
    have last := getLast?_of_quotedTail h
    cases taken : found.1 with
    | nil => simp [taken] at last
    | cons d ds => exact ⟨d, ds, rfl⟩
  rw [squeeze, ← text, taken]
  rfl

section Squeezed

variable {rest : List Char}
  (ih : quotedTail? (squeeze rest) = (quotedTail? rest).map (Prod.map squeeze squeeze))
include ih

theorem quotedTail?_squeeze_plain {c : Char} (plain : c ≠ '"' ∧ c ≠ '\\') :
    quotedTail? (squeeze (c :: rest)) =
      (quotedTail? rest).map fun found => (squeeze (c :: found.1), squeeze found.2) := by
  cases blank : isBlank c with
  | false =>
    rw [squeeze_visible blank, quotedTail?_cons plain, ih, Option.map_map]
    refine Option.map_congr fun found hf => ?_
    simp [squeeze_cons_of_quotedTail hf, blank]
  | true =>
    cases more : rest.head?.all isBlank with
    | true =>
      rw [squeeze_blanks blank more, ih]
      refine Option.map_congr fun found hf => ?_
      simp [squeeze_cons_of_quotedTail hf, blank, more, Prod.map]
    | false =>
      rw [squeeze_blank blank more, quotedTail?_cons (by decide), ih, Option.map_map]
      refine Option.map_congr fun found hf => ?_
      simp [squeeze_cons_of_quotedTail hf, blank, more]

theorem quotedTail?_squeeze_escape {d : Char} (line : d ≠ '\n') :
    quotedTail? (squeeze ('\\' :: d :: rest)) =
      (quotedTail? rest).map fun found =>
        (squeeze ('\\' :: d :: found.1), squeeze found.2) := by
  have slash (cs : List Char) : squeeze ('\\' :: cs) = '\\' :: squeeze cs :=
    squeeze_visible (by decide) cs
  simp only [slash]
  cases blank : isBlank d with
  | false =>
    rw [squeeze_visible blank, quotedTail?_escape line, ih, Option.map_map]
    refine Option.map_congr fun found hf => ?_
    simp [squeeze_cons_of_quotedTail hf, blank]
  | true =>
    cases more : rest.head?.all isBlank with
    | true =>
      -- The backslash takes another blank along than it did, the first of the run or the space.
      have both : quotedTail? ('\\' :: squeeze rest) =
          (quotedTail? (squeeze rest)).map fun found => ('\\' :: found.1, found.2) := by
        rcases squeeze_head more with none | ⟨ds, space⟩
        · rw [none]
          rfl
        · rw [space, quotedTail?_escape (by decide), quotedTail?_cons (by decide), Option.map_map]
          rfl
      rw [squeeze_blanks blank more, both, ih, Option.map_map]
      refine Option.map_congr fun found hf => ?_
      simp [squeeze_cons_of_quotedTail hf, blank, more]
    | false =>
      rw [squeeze_blank blank more, quotedTail?_escape (by decide), ih, Option.map_map]
      refine Option.map_congr fun found hf => ?_
      simp [squeeze_cons_of_quotedTail hf, blank, more]

end Squeezed

/-- A quoted text is closed at the same place when its blanks are squeezed. Where it is not closed,
a backslash in front of a line feed may be what keeps it open. -/
theorem quotedTail?_squeeze {cs : List Char}
    (closed : quotedTail? cs = none → ¬['\\', '\n'] <:+: cs) :
    quotedTail? (squeeze cs) = (quotedTail? cs).map (Prod.map squeeze squeeze) := by
  fun_induction quotedTail? cs with
  | case1 => rfl
  | case2 => rfl
  | case3 rest => exact absurd (List.infix_append' [] _ rest) (closed rfl)
  | case4 d rest line ih =>
    have inner := ih fun none infix_ => closed (by rw [none]; rfl)
      (infix_.trans (List.suffix_append ['\\', d] rest).isInfix)
    rw [quotedTail?_squeeze_escape inner line, Option.map_map]
    rfl
  | case5 rest =>
    rw [squeeze_visible (by decide)]
    rfl
  | case6 c rest single pair other ih =>
    have inner := ih fun none infix_ => closed (by rw [none]; rfl)
      (infix_.trans (List.suffix_cons c rest).isInfix)
    have slash : c ≠ '\\' := by
      rintro rfl
      cases rest with
      | nil => exact single rfl rfl
      | cons d rest => exact pair d rest rfl rfl
    rw [quotedTail?_squeeze_plain inner ⟨other, slash⟩, Option.map_map]
    rfl

theorem literal?_squeeze {cs : List Char}
    (closed : quotedTail? cs = none → ¬['\\', '\n'] <:+: cs) :
    literal? (squeeze ('"' :: cs)) = (literal? ('"' :: cs)).map (Prod.map squeeze squeeze) := by
  have quote (cs : List Char) : squeeze ('"' :: cs) = '"' :: squeeze cs :=
    squeeze_visible (by decide) cs
  rw [quote, literal?, marked?, marked?, quotedText?, quotedText?, quotedTail?_squeeze closed]
  cases tail : quotedTail? cs with
  | none => rfl
  | some found =>
    have last : ∀ c ∈ ('"' :: found.1).getLast?, isBlank c = false := by
      simpa [List.getLast?_cons, getLast?_of_quotedTail tail] using
        (by decide : isBlank '"' = false)
    have mark := squeezes_mark found.2
    dsimp only at mark
    simp only [Option.map_some, Option.bind_eq_bind, Option.bind_some, Prod.map, mark]
    cases (languageMark? found.2).or (typeMark? found.2) with
    | none => simp [quote]
    | some marked =>
      have body := squeeze_append last marked.1
      rw [List.cons_append, quote, quote] at body
      simp [quote, body]

/-! Tokens. -/

/-- Where a text holds a quote that opens no literal, no backslash in it stands in front of a line
feed. -/
def IsQuoteSafe (cs : List Char) : Prop :=
  ['"'] ∈ tokensOf cs → ¬['\\', '\n'] <:+: cs

theorem cut_squeeze {c : Char} {cs : List Char} (visible : isBlank c = false)
    (safe : (cut c cs).1 = ['"'] → ¬['\\', '\n'] <:+: cs) :
    cut c (squeeze cs) = Prod.map squeeze squeeze (cut c cs) := by
  have single : squeeze [c] = [c] := squeeze_visible visible []
  have whole : c :: squeeze cs = squeeze (c :: cs) := (squeeze_visible visible cs).symm
  by_cases paren : c = '(' ∨ c = ')'
  · rw [cut, if_pos paren, cut, if_pos paren, Prod.map, single]
  have literal : literal? (c :: squeeze cs) =
      (literal? (c :: cs)).map (Prod.map squeeze squeeze) := by
    by_cases quote : c = '"'
    · subst quote
      rw [whole]
      refine literal?_squeeze fun none => safe ?_
      have unquoted : literal? ('"' :: cs) = Option.none := by
        simp [literal?, marked?, quotedText?, none]
      rw [cut, if_neg paren, unquoted, bracketed?_eq_none (by decide)]
      rfl
    · rw [literal?, marked?, marked?, quotedText?_eq_none quote, quotedText?_eq_none quote]
      rfl
  have bracket := squeezes_bracketed (c :: cs)
  rw [← whole] at bracket
  have word := Option.some.inj (squeezes_word cs)
  rw [cut, if_neg paren, cut, if_neg paren, literal, bracket]
  cases literal? (c :: cs) with
  | some found => rfl
  | none =>
    cases bracketed? (c :: cs) with
    | some found => rfl
    | none =>
      by_cases quote : c = '"'
      · simp only [Option.map_none, Option.none_or, if_pos quote, Prod.map, single]
      · simp only [Option.map_none, Option.none_or, if_neg quote, word, Prod.map,
          squeeze_visible visible]

/-- The tokens of a squeezed text are the squeezed tokens. -/
theorem tokensOf_squeeze {cs : List Char} (safe : IsQuoteSafe cs) :
    tokensOf (squeeze cs) = (tokensOf cs).map squeeze := by
  -- By induction on the length: what follows a token is a shorter text, and safe as well.
  induction length : cs.length using Nat.strong_induction_on generalizing cs with
  | _ k ih =>
  subst length
  cases cs with
  | nil => rw [squeeze, tokenizes.nil, List.map_nil]
  | cons c cs =>
    cases visible : isBlank c with
    | true =>
      rw [tokenizes.blank c _ visible]
      have behind : IsQuoteSafe cs := fun quote infix_ =>
        safe (by rwa [tokenizes.blank c _ visible]) (infix_.trans (List.suffix_cons c cs).isInfix)
      rw [← ih cs.length (by simp) behind rfl]
      cases more : cs.head?.all isBlank with
      | true => rw [squeeze_blanks visible more]
      | false => rw [squeeze_blank visible more, tokenizes.blank ' ' _ isBlank_space]
    | false =>
      have tokens := tokenizes.visible c cs visible
      have rest : (cut c cs).2 <:+ c :: cs := ⟨_, (cut_append c cs).1⟩
      have behind : IsQuoteSafe (cut c cs).2 := fun quote infix_ =>
        safe (by rw [tokens]; exact List.mem_cons_of_mem _ quote) (infix_.trans rest.isInfix)
      have front : (cut c cs).1 = ['"'] → ¬['\\', '\n'] <:+: cs := fun quote infix_ =>
        safe (by simp [tokens, quote]) (infix_.trans (List.suffix_cons c cs).isInfix)
      rw [squeeze_visible visible, tokenizes.visible c _ visible, cut_squeeze visible front, tokens,
        List.map_cons, ← ih _ (tokenizes.shorter c cs) behind rfl]
      rfl

/-- So a text keeps its tokens if and only if no token has blanks other than single spaces. -/
theorem tokensOf_squeeze_iff {cs : List Char} (safe : IsQuoteSafe cs) :
    tokensOf (squeeze cs) = tokensOf cs ↔ ∀ token ∈ tokensOf cs, squeeze token = token := by
  have same := List.map_eq_map_iff (f := squeeze) (g := id) (l := tokensOf cs)
  rwa [List.map_id, ← tokensOf_squeeze safe] at same

end Expression

end Ontogram
