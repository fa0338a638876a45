import Mathlib.Logic.Function.Iterate
import Ontogram.Proofs.BeforeQuote

set_option autoImplicit false

namespace Ontogram.Query

open Text

/-- A value in quotes, and what follows it. -/
def inQuotes (value back : List Char) : List Char :=
  '"' :: (value ++ '"' :: back)

/-- Steps of a scan lead from a text to what is left of it. -/
def Reaches (next : List Char → List Char) (cs rest : List Char) : Prop :=
  ∃ n, next^[n] cs = rest

/-- A scan passes over at least one character in a step. -/
def Advances (next : List Char → List Char) : Prop :=
  ∀ cs, next cs <:+ cs.tail

theorem Advances.suffix {next : List Char → List Char} (h : Advances next) (cs : List Char) :
    next cs <:+ cs :=
  (h cs).trans (List.tail_suffix cs)

theorem Advances.suffix_iterate {next : List Char → List Char} (h : Advances next) (n : Nat)
    (cs : List Char) : next^[n] cs <:+ cs := by
  induction n generalizing cs with
  | zero => exact List.suffix_rfl
  | succ n ih => exact (ih (next cs)).trans (h.suffix cs)

/-- A step of a scan in front of a goal that it reaches ends in front of the goal. -/
theorem Reaches.exists_step {next : List Char → List Char} (advances : Advances next) {c : Char}
    {front goal : List Char} (h : Reaches next (c :: (front ++ goal)) goal) : ∃ left,
    left <:+ front ∧ next (c :: (front ++ goal)) = left ++ goal ∧
      Reaches next (left ++ goal) goal := by
  obtain ⟨n, steps⟩ := h
  cases n with
  | zero =>
    have text : (c :: front) ++ goal = [] ++ goal := steps
    cases List.append_cancel_right text
  | succ n =>
    have last : next^[n] (next (c :: (front ++ goal))) = goal := steps
    have within : next (c :: (front ++ goal)) <:+ front ++ goal := advances _
    have behind := advances.suffix_iterate n (next (c :: (front ++ goal)))
    rw [last] at behind
    obtain ⟨left, next_eq⟩ := behind
    have inside : left <:+ front := by
      obtain ⟨taken, text⟩ := within
      rw [← next_eq, ← List.append_assoc, List.append_cancel_right_eq] at text
      exact ⟨taken, text⟩
    rw [← next_eq] at last
    exact ⟨left, inside, next_eq.symm, n, last⟩

theorem Reaches.step {next : List Char → List Char} {cs goal : List Char}
    (h : Reaches next (next cs) goal) : Reaches next cs goal := by
  obtain ⟨n, steps⟩ := h
  exact ⟨n + 1, steps⟩

/-- Induction over the steps of a scan that lead to a goal. -/
theorem Reaches.induction {next : List Char → List Char} (advances : Advances next)
    {goal : List Char} {motive : List Char → Prop} (here : motive [])
    (step : ∀ c front left, left <:+ front → next (c :: (front ++ goal)) = left ++ goal →
      motive left → motive (c :: front))
    {front : List Char} (h : Reaches next (front ++ goal) goal) : motive front := by
  induction length : front.length using Nat.strong_induction_on generalizing front with
  | _ k ih =>
  subst length
  cases front with
  | nil => exact here
  | cons c front =>
    obtain ⟨left, within, next_eq, reached⟩ := h.exists_step advances
    exact step c front left within next_eq
      (ih left.length (Nat.lt_succ_of_le within.length_le) reached rfl)

/-! Comments. -/

/-- What the scan of comments goes on with: it passes over an IRI in angle brackets or a literal at
once, over a comment up to the end of its line, and else over one character. -/
def passKept : List Char → List Char
  | [] => []
  | c :: cs =>
    match (bracketed? (c :: cs)).or (literal? (c :: cs)) with
    | some (_, rest) => rest
    | none => if c = '#' then cs.dropWhile (· ≠ '\n') else cs

theorem passKept_kept {c : Char} {cs taken rest : List Char}
    (h : (bracketed? (c :: cs)).or (literal? (c :: cs)) = some (taken, rest)) :
    passKept (c :: cs) = rest := by
  rw [passKept, h]

theorem passKept_cons {c : Char} {cs : List Char}
    (h : (bracketed? (c :: cs)).or (literal? (c :: cs)) = none) :
    passKept (c :: cs) = if c = '#' then cs.dropWhile (· ≠ '\n') else cs := by
  rw [passKept, h]

theorem suffix_of_takes {reader : List Char → Option (List Char × List Char)} (h : Takes reader)
    {c : Char} {cs taken rest : List Char} (read : reader (c :: cs) = some (taken, rest)) :
    rest <:+ cs := by
  obtain ⟨text, some⟩ := h _ _ _ read
  obtain ⟨d, taken, rfl⟩ := List.exists_cons_of_ne_nil some
  exact ⟨taken, (List.cons.inj text).2⟩

theorem advances_passKept : Advances passKept := by
  intro cs
  cases cs with
  | nil => exact List.suffix_rfl
  | cons c cs =>
    cases read : (bracketed? (c :: cs)).or (literal? (c :: cs)) with
    | some found =>
      rw [passKept_kept read]
      exact suffix_of_takes (takes_or takes_bracketed takes_literal) read
    | none =>
      rw [passKept_cons read]
      split
      · exact List.dropWhile_suffix _
      · exact List.suffix_rfl

/-- In front of a quote behind `front` the comments are the same whatever follows the quote, and as
many angle brackets are open without them. -/
def KeptInFront (front : List Char) : Prop :=
  ∃ kept, (∀ isOpen, kept.foldl opensAfter isOpen = front.foldl opensAfter isOpen) ∧
    ∀ rest, stripComments (front ++ '"' :: rest) = kept ++ stripComments ('"' :: rest)

theorem KeptInFront.nil : KeptInFront [] :=
  ⟨[], fun _ => rfl, fun _ => rfl⟩

theorem KeptInFront.prepend (taken : List Char) {front left : List Char}
    (text : taken ++ left = front)
    (keeps : ∀ rest, stripComments (front ++ '"' :: rest) =
      taken ++ stripComments (left ++ '"' :: rest))
    (h : KeptInFront left) : KeptInFront front := by
  obtain ⟨kept, state, strip⟩ := h
  refine ⟨taken ++ kept, fun isOpen => ?_, fun rest => ?_⟩
  · rw [← text, List.foldl_append, List.foldl_append, state]
  · rw [keeps, strip, List.append_assoc]

/-- The end of the line stays behind a comment, and no bracket is open behind it. -/
theorem KeptInFront.comment {comment after : List Char} (line : '\n' ∉ comment)
    (h : KeptInFront ('\n' :: after)) : KeptInFront ('#' :: (comment ++ '\n' :: after)) := by
  obtain ⟨kept, state, strip⟩ := h
  have closes (isOpen : Bool) : opensAfter isOpen '\n' = false := by cases isOpen <;> decide
  refine ⟨kept, fun isOpen => ?_, fun rest => ?_⟩
  · rw [state, List.foldl_cons, List.foldl_cons, List.foldl_append, List.foldl_cons, closes,
      closes]
  · rw [List.cons_append, stripComments_hash, List.append_assoc, List.cons_append,
      dropWhile_line line, ← List.cons_append, strip]

/-- A comment that ends in front of a literal ends with its line. -/
theorem exists_comment_of_dropWhile {front left value back : List Char}
    (h : (front ++ inQuotes value back).dropWhile (· ≠ '\n') = left ++ inQuotes value back) :
    ∃ comment after, front = comment ++ '\n' :: after ∧ '\n' ∉ comment ∧
      left = '\n' :: after := by
  have line : '\n' ∈ front := by
    by_contra line
    have all : ∀ d ∈ front, (d ≠ '\n' : Bool) = true := fun d hd => by
      simpa using fun same : d = '\n' => line (same ▸ hd)
    rw [inQuotes, List.dropWhile_append_of_pos all, List.dropWhile_cons_of_pos (by decide)] at h
    have lengths := congrArg List.length h
    have shorter := (List.dropWhile_suffix (· ≠ '\n') (l := value ++ '"' :: back)).length_le
    rw [List.length_append, List.length_cons] at lengths
    omega
  obtain ⟨comment, after, rfl, clean⟩ := List.eq_append_cons_of_mem line
  rw [List.append_assoc, List.cons_append, dropWhile_line clean, ← List.cons_append] at h
  exact ⟨comment, after, rfl, clean, (List.append_cancel_right h).symm⟩

/-- A step of the scan that the quote does not change, and that ends in front of it. -/
theorem KeptInFront.step {c : Char} {front left value back : List Char}
    (settles : Settles (fun cs => (bracketed? cs).or (literal? cs)) (c :: front))
    (next : passKept (c :: (front ++ inQuotes value back)) = left ++ inQuotes value back)
    (h : KeptInFront left) : KeptInFront (c :: front) := by
  cases read : (bracketed? (c :: front)).or (literal? (c :: front)) with
  | some found =>
    obtain ⟨taken, rest⟩ := found
    have there (after : List Char) :
        (bracketed? (c :: (front ++ '"' :: after))).or (literal? (c :: (front ++ '"' :: after))) =
          some (taken, rest ++ '"' :: after) := by
      have same := settles after
      simp only [read, Option.map_some] at same
      exact same
    obtain rfl : rest = left := by
      rw [inQuotes, passKept_kept (there _)] at next
      exact List.append_cancel_right next
    obtain ⟨text, -⟩ := takes_or takes_bracketed takes_literal _ _ _ read
    exact h.prepend taken text fun after => stripComments_kept (there after)
  | none =>
    have there (after : List Char) : (bracketed? (c :: (front ++ '"' :: after))).or
        (literal? (c :: (front ++ '"' :: after))) = none := by
      have same := settles after
      simp only [read, Option.map_none] at same
      exact same
    rw [inQuotes, passKept_cons (there _)] at next
    by_cases hash : c = '#'
    · subst hash
      rw [if_pos rfl] at next
      obtain ⟨comment, after, rfl, clean, rfl⟩ := exists_comment_of_dropWhile next
      exact h.comment clean
    · rw [if_neg hash] at next
      obtain rfl : front = left := List.append_cancel_right next
      refine h.prepend [c] rfl fun after => ?_
      rw [List.cons_append, stripComments_cons (there after), if_neg hash]
      rfl

section Reached

variable {value back : List Char} (quotable : IsQuotable value)
include quotable

/-- Whatever crosses the quote is not left in front of it. -/
theorem Crosses.ne_of_quotable {α : Type} {reader : List Char → Option (α × List Char)}
    {front : List Char} (crosses : Crosses reader front) (back : List Char) : ∃ a rest,
    reader (front ++ inQuotes value back) = some (a, rest) ∧
      ∀ left, rest ≠ left ++ inQuotes value back := by
  obtain ⟨a, rest, read, short⟩ := crosses value back quotable
  refine ⟨a, rest, read, fun left same => ?_⟩
  rw [same, inQuotes, List.length_append, List.length_cons] at short
  omega

/-- The scan of comments settles what stands in front of a quote that it reaches. -/
theorem keptInFront {front : List Char} (closed : opens front = false)
    (h : Reaches passKept (front ++ inQuotes value back) (inQuotes value back)) :
    KeptInFront front := by
  revert closed
  refine h.induction (motive := fun front => opens front = false → KeptInFront front)
    advances_passKept (fun _ => .nil) ?_
  intro c front left within next ih closed
  have left_kept := ih (opens_of_suffix closed (within.trans (List.suffix_cons c front)))
  rcases settles_or_crosses_or (Or.inl (settles_bracketed closed))
    (settles_or_crosses_literal closed) with settles | crosses
  · exact left_kept.step settles next
  · obtain ⟨a, rest, read, beyond⟩ := crosses.ne_of_quotable quotable back
    rw [List.cons_append] at read
    rw [passKept_kept read] at next
    exact absurd next (beyond left)

end Reached

/-! Tokens. -/

/-- What the scan of tokens goes on with behind a blank or a token. -/
def passToken : List Char → List Char
  | [] => []
  | c :: cs => if isBlank c then cs else (cut c cs).2

theorem passToken_blank {c : Char} (h : isBlank c = true) (cs : List Char) :
    passToken (c :: cs) = cs := by
  rw [passToken, if_pos h]

theorem passToken_cut {c : Char} (h : ¬ isBlank c = true) (cs : List Char) :
    passToken (c :: cs) = (cut c cs).2 := by
  rw [passToken, if_neg h]

theorem advances_passToken : Advances passToken := by
  intro cs
  cases cs with
  | nil => exact List.suffix_rfl
  | cons c cs =>
    by_cases blank : isBlank c = true
    · rw [passToken_blank blank]
      exact List.suffix_rfl
    · obtain ⟨text, some⟩ := cut_append c cs
      obtain ⟨d, taken, first⟩ := List.exists_cons_of_ne_nil some
      rw [passToken_cut blank]
      rw [first] at text
      exact ⟨taken, (List.cons.inj text).2⟩

/-- The scan of tokens settles what stands in front of a quote that it reaches. -/
theorem exists_tokensOf_front {value back front : List Char} (quotable : IsQuotable value)
    (closed : opens front = false)
    (h : Reaches passToken (front ++ inQuotes value back) (inQuotes value back)) :
    ∃ tokens, ∀ rest, tokensOf (front ++ '"' :: rest) = tokens ++ tokensOf ('"' :: rest) := by
  revert closed
  refine h.induction (motive := fun front => opens front = false → ∃ tokens, ∀ rest,
      tokensOf (front ++ '"' :: rest) = tokens ++ tokensOf ('"' :: rest))
    advances_passToken (fun _ => ⟨[], fun _ => rfl⟩) ?_
  intro c front left within next ih closed
  obtain ⟨tokens, found⟩ := ih (opens_of_suffix closed (within.trans (List.suffix_cons c front)))
  by_cases blank : isBlank c = true
  · rw [passToken_blank blank] at next
    have same : front = left := List.append_cancel_right next
    refine ⟨tokens, fun rest => ?_⟩
    rw [List.cons_append, tokenizes.blank c _ blank, same, found]
  · rw [passToken_cut blank] at next
    rcases settles_or_crosses_cut closed with settles | crosses
    · have there (rest : List Char) : cut c (front ++ '"' :: rest) =
          ((cut c front).1, (cut c front).2 ++ '"' :: rest) := Option.some.inj (settles rest)
      have same : (cut c front).2 = left := by
        rw [inQuotes, there] at next
        exact List.append_cancel_right next
      refine ⟨(cut c front).1 :: tokens, fun rest => ?_⟩
      rw [List.cons_append, tokenizes.visible c _ (Bool.eq_false_iff.2 blank), there, same, found]
      rfl
    · obtain ⟨a, rest, read, beyond⟩ := crosses.ne_of_quotable quotable back
      have taken := congrArg Prod.snd (Option.some.inj read)
      exact absurd (taken.symm.trans next) (beyond left)

end Ontogram.Query
