import Ontogram.Proofs.ScalarForm

set_option autoImplicit false

namespace Ontogram.Yaml

open Text (ne_of_class)

theorem plainWord_append {cs rest : List Char} (visible : ∀ c ∈ cs, isVisible c = true)
    (last : cs.getLast? ≠ some ':')
    (stop : ∀ c back, rest = c :: back → endsWord false c back = true) :
    plainWord false (cs ++ rest) = (cs, rest) := by
  induction cs with
  | nil =>
    cases rest with
    | nil => rfl
    | cons c rest => simp only [List.nil_append, plainWord, stop c rest rfl, if_true]
  | cons c cs ih =>
    have hc := visible c List.mem_cons_self
    have goes : endsWord false c (cs ++ rest) = false := by
      simp only [endsWord, isGap_eq_false hc, Bool.false_and, Bool.or_false, Bool.false_or,
        Bool.and_eq_false_iff, beq_eq_false_iff_ne]
      cases cs with
      | nil => exact Or.inl fun same => last (congrArg some same)
      | cons d cs =>
        right
        exact isGap_eq_false (visible d (List.mem_cons_of_mem c List.mem_cons_self))
    have tail := ih (fun d hd => visible d (List.mem_cons_of_mem c hd)) (by
      cases cs with
      | nil => simp
      | cons d cs => rwa [List.getLast?_cons_cons] at last)
    simp only [List.cons_append, plainWord, goes, Bool.false_eq_true, if_false, tail]

theorem singleQuoted_written {cs rest : List Char} (visible : ∀ c ∈ cs, isVisible c = true)
    (stop : rest.head? ≠ some '\x27') {fuel : Nat} (enough : cs.length < fuel) :
    singleQuoted fuel (cs.flatMap singleChar ++ '\x27' :: rest) = .ok (cs, rest) := by
  obtain ⟨fuel, rfl⟩ := Nat.exists_eq_succ_of_ne_zero (Nat.ne_of_gt (Nat.zero_lt_of_lt enough))
  induction cs generalizing fuel with
  | nil =>
    rw [List.flatMap_nil, List.nil_append, Nat.succ_eq_add_one, singleQuoted]
    rintro back same
    exact stop (by rw [same]; rfl)
  | cons c cs ih =>
    have hc := visible c List.mem_cons_self
    obtain ⟨fuel, rfl⟩ := Nat.exists_eq_succ_of_ne_zero
      (Nat.ne_of_gt (Nat.zero_lt_of_lt (Nat.lt_of_succ_lt_succ enough)))
    have tail := ih (fun d hd => visible d (List.mem_cons_of_mem c hd)) fuel
      (Nat.lt_of_succ_lt_succ enough)
    rw [List.flatMap_cons]
    by_cases quote : c = '\x27'
    · subst quote
      rw [singleChar, if_pos rfl]
      simp only [List.cons_append, List.nil_append]
      rw [singleQuoted, tail]
      rfl
    · rw [singleChar, if_neg quote, List.singleton_append, List.cons_append, singleQuoted,
        if_neg (by simp [isGap_eq_false hc]), tail]
      · rfl
      · exact fun _ same _ => quote same
      · exact fun same => quote same

theorem plainTail_colon (fuel : Nat) (least : Int) (column : Nat) (rest : List Char) :
    plainTail (fuel + 1) false least column (':' :: rest) = ([], ':' :: rest, false) := by
  rw [plainTail]
  rfl

/-- Nothing, or a visible character that does not start a comment, comes next. -/
def AtToken (rest : List Char) : Prop :=
  ∀ c ∈ rest.head?, isVisible c = true ∧ c ≠ '#'

/-- What a line may start with: no mark between documents either. -/
structure StartsLine (rest : List Char) : Prop where
  head : AtToken rest
  unmarked : atMark rest = false

theorem dropWhile_blanks {rest : List Char} (next : AtToken rest) (column : Nat) :
    (List.replicate column ' ' ++ rest).dropWhile (· == ' ') = rest := by
  rw [List.dropWhile_append_of_pos fun c hc => by rw [List.eq_of_mem_replicate hc]; rfl]
  cases rest with
  | nil => rfl
  | cons c rest =>
    have other : c ≠ ' ' := ne_of_class (next c rfl).1 (by decide)
    exact List.dropWhile_cons_of_neg (by simpa using other)

section Lines

variable {rest : List Char} (starts : StartsLine rest) (column : Nat)
include starts

theorem plainLines_blanks (fuel : Nat) :
    plainLines (fuel + 1) (List.replicate column ' ' ++ rest) = ([], column, rest, false) := by
  have unmarked : atMark (List.replicate column ' ' ++ rest) = false := by
    cases column with
    | zero => exact starts.unmarked
    | succ column => rfl
  simp only [plainLines, unmarked, dropWhile_blanks starts.head, Bool.false_eq_true, if_false]
  cases rest with
  | nil => simp
  | cons c rest => simp [isBreak_eq_false (starts.head c rfl).1]

/-- A plain scalar ends with its line when the next one is further out. -/
theorem plainTail_newLine (fuel : Nat) {least : Int} (outer : (column : Int) < least) (here : Nat) :
    plainTail (fuel + 1) false least here ('\n' :: (List.replicate column ' ' ++ rest)) =
      ([], rest, true) := by
  have gap : plainGap here ('\n' :: (List.replicate column ' ' ++ rest)) =
      ⟨[' '], rest, column, true⟩ := by
    have lines := plainLines_blanks starts column (List.replicate column ' ' ++ rest).length
    have line : isBreak '\n' = true := by decide
    have here : ('\n' :: (List.replicate column ' ' ++ rest)).dropWhile (· == ' ') =
        '\n' :: (List.replicate column ' ' ++ rest) := rfl
    simp only [plainGap, here, line, lines, if_true]
    rfl
  simp [plainTail, gap, outer]

end Lines

/-- The characters that never start a plain scalar. -/
def indicators : List Char :=
  "#,[]\x7b\x7d&*!|>\x27\"%@\x60".toList

theorem IsWord.notMem {c : Char} {cs : List Char} (word : IsWord (c :: cs)) : c ∉ indicators := by
  have first := word.first
  rw [startsIndicator, Bool.or_eq_false_iff, List.contains_eq_mem, decide_eq_false_iff_not] at first
  exact first.1

/-- A word that starts with a sign goes on. -/
theorem IsWord.atGap_eq_false {c : Char} {cs : List Char} (word : IsWord (c :: cs))
    (sign : c ∈ ['?', ':', '-']) (rest : List Char) : atGap (cs ++ rest) = false := by
  have first := word.first
  have signs : (c == '?' || c == ':' || c == '-') = true := by
    simpa [or_assoc] using sign
  rw [startsIndicator, Bool.or_eq_false_iff, signs, Bool.true_and] at first
  cases cs with
  | nil => exact absurd first.2 (by decide)
  | cons d cs =>
    exact isGap_eq_false (word.visible d (List.mem_cons_of_mem c List.mem_cons_self))

def Sheet.token (s : Sheet) : Token :=
  .scalar (String.ofList s.text) s.isPlain

theorem length_le_flatMap_singleChar (cs : List Char) :
    cs.length ≤ (cs.flatMap singleChar).length := by
  induction cs with
  | nil => exact Nat.le_refl 0
  | cons c cs ih =>
    have one : 1 ≤ (singleChar c).length := by
      rw [singleChar]
      split <;> simp
    rw [List.flatMap_cons, List.length_append, List.length_cons]
    omega

theorem isVisible_singleChar {c d : Char} (h : isVisible c = true) (hd : d ∈ singleChar c) :
    isVisible d = true := by
  rw [singleChar] at hd
  split at hd
  · have quote : d = '\x27' := by simpa using hd
    rw [quote]
    decide
  · rwa [List.mem_singleton.1 hd]

section Written

variable {k : Scalar} (visible : k.isVisible = true)
include visible

theorem isVisible_of_mem_written {c : Char} (h : c ∈ (Sheet.ofScalar k).written) :
    isVisible c = true := by
  have text := isVisible_text visible
  rw [Sheet.written] at h
  split at h
  · exact text c h
  · simp only [List.mem_cons, List.mem_append, List.mem_flatMap, List.not_mem_nil, or_false] at h
    rcases h with rfl | ⟨d, hd, hc⟩ | rfl
    · decide
    · exact isVisible_singleChar (text d hd) hc
    · decide

theorem exists_cons_written : ∃ c back, (Sheet.ofScalar k).written = c :: back := by
  refine List.exists_cons_of_ne_nil fun empty => ?_
  rw [Sheet.written] at empty
  split at empty
  · exact (isWord_text visible ‹_›).filled empty
  · cases empty

end Written

theorem length_flatMap_singleChar_le (cs : List Char) :
    (cs.flatMap singleChar).length ≤ 2 * cs.length := by
  induction cs with
  | nil => exact Nat.le_refl 0
  | cons c cs ih =>
    have two : (singleChar c).length ≤ 2 := by
      rw [singleChar]
      split <;> simp
    rw [List.flatMap_cons, List.length_append, List.length_cons]
    omega

/-- A key that stands on one line is short. -/
theorem length_written_le {s : Sheet} (simple : s.isSimpleKey = true) :
    s.written.length ≤ 1024 := by
  rw [Sheet.isSimpleKey, Bool.and_eq_true, Bool.and_eq_true, decide_eq_true_eq] at simple
  have twice := length_flatMap_singleChar_le s.text
  rw [Sheet.written]
  split
  · omega
  · simp only [List.length_cons, List.length_append, List.length_nil]
    omega

namespace Lexer

/-! Going on in a text. -/

theorem advance_cons (s : Lexer) (c : Char) (cs : List Char) : s.advance (c :: cs) =
    (if isBreak c then { s with place := s.place + 1, line := s.line + 1, column := 0 }
      else { s with place := s.place + 1, column := s.column + width [c] } : Lexer).advance cs :=
  rfl

theorem advance_append (s : Lexer) (cs ds : List Char) :
    s.advance (cs ++ ds) = (s.advance cs).advance ds :=
  List.foldl_append

/-- A character that takes one column of its line. -/
def IsInline (c : Char) : Prop :=
  isBreak c = false ∧ c ≠ '\ufeff'

theorem isInline_of_isVisible {c : Char} (h : isVisible c = true) : IsInline c :=
  ⟨isBreak_eq_false h, ne_of_class h (by decide)⟩

theorem isInline_blank : IsInline ' ' := by
  constructor <;> decide

theorem advance_inline {cs : List Char} (inline : ∀ c ∈ cs, IsInline c) (s : Lexer) :
    s.advance cs = { s with place := s.place + cs.length, column := s.column + cs.length } := by
  induction cs generalizing s with
  | nil => rfl
  | cons c cs ih =>
    obtain ⟨line, mark⟩ := inline c List.mem_cons_self
    have one : width [c] = 1 := by simp [width, mark]
    rw [advance_cons, line, if_neg (by decide), ih fun d hd => inline d (List.mem_cons_of_mem c hd)]
    simp only [one, List.length_cons]
    congr 1 <;> omega

theorem advance_newLine (s : Lexer) (column : Nat) :
    s.advance ('\n' :: List.replicate column ' ') =
      { s with place := s.place + 1 + column, line := s.line + 1, column } := by
  rw [advance_cons, if_pos (by decide), advance_inline fun c hc => by
    rw [List.eq_of_mem_replicate hc]
    exact isInline_blank]
  simp

theorem goTo_append {s : Lexer} {cs rest : List Char} (h : s.rest = cs ++ rest) :
    s.goTo rest = { s.advance cs with rest } := by
  rw [goTo, h, List.length_append, Nat.add_sub_cancel, List.take_left]

theorem goTo_rest (s : Lexer) : s.goTo s.rest = s :=
  goTo_append (List.nil_append s.rest).symm

/-- What is found in a text up to some place. -/
structure Found where
  indent : Int
  outer : List Int
  pending : List PendingKey := []
  tokens : List Token

def found (s : Lexer) : Found :=
  ⟨s.indent, s.outer, s.pending, s.tokens⟩

/-- A lexer in the same place that has found something else. -/
def withFound (s : Lexer) (f : Found) : Lexer :=
  { s with indent := f.indent, outer := f.outer, pending := f.pending, tokens := f.tokens }

section Found

variable (s : Lexer) (f : Found)

theorem advance_withFound (cs : List Char) :
    (s.withFound f).advance cs = (s.advance cs).withFound f := by
  induction cs generalizing s with
  | nil => rfl
  | cons c cs ih =>
    rw [advance_cons, advance_cons, ← ih]
    by_cases line : isBreak c = true
    · rw [if_pos line, if_pos line]
      rfl
    · rw [if_neg line, if_neg line]
      rfl

theorem goTo_withFound (rest : List Char) :
    (s.withFound f).goTo rest = (s.goTo rest).withFound f := by
  rw [goTo, advance_withFound]
  rfl

/-- A lexer behind the comment that comes next, if there is one. -/
theorem passComment_withFound :
    (if (s.withFound f).rest.head? == some '#' then
      (s.withFound f).goTo ((s.withFound f).rest.dropWhile fun c => !isBreak c)
    else s.withFound f) =
      (if s.rest.head? == some '#' then s.goTo (s.rest.dropWhile fun c => !isBreak c)
      else s).withFound f := by
  by_cases comment : (s.rest.head? == some '#') = true
  · rw [if_pos comment]
    exact (if_pos comment).trans (goTo_withFound s f _)
  · rw [if_neg comment]
    exact if_neg comment

theorem skip_withFound (fuel : Nat) : (s.withFound f).skip fuel = (s.skip fuel).withFound f := by
  induction fuel generalizing s with
  | zero => rfl
  | succ fuel ih =>
    rw [skip, skip]
    dsimp only
    rw [show (s.withFound f).rest = s.rest from rfl, goTo_withFound, passComment_withFound]
    generalize (if (s.goTo (s.rest.dropWhile (· == ' '))).rest.head? == some '#' then
      (s.goTo (s.rest.dropWhile (· == ' '))).goTo
        ((s.goTo (s.rest.dropWhile (· == ' '))).rest.dropWhile fun c => !isBreak c)
      else s.goTo (s.rest.dropWhile (· == ' '))) = t
    rw [show (t.withFound f).rest = t.rest from rfl]
    cases t.rest with
    | nil => rfl
    | cons c rest =>
      dsimp only
      by_cases line : isBreak c = true
      · rw [if_pos line, if_pos line, ← ih, goTo_withFound]
        rfl
      · rw [if_neg line, if_neg line]

theorem toToken_withFound : (s.withFound f).toToken = s.toToken.withFound f := by
  have rest (t : Lexer) : (t.withFound f).rest = t.rest := rfl
  have place : (s.withFound f).place = s.place := rfl
  simp only [toToken, rest, place, goTo_withFound]
  split
  · split
    · simp only [rest, skip_withFound]
    · simp only [rest, skip_withFound]
  · simp only [rest, skip_withFound]

end Found

section Blanks

variable {s : Lexer} {column : Nat} {rest : List Char} (next : AtToken rest)
  (text : s.rest = List.replicate column ' ' ++ rest)
include next text

theorem skip_blanks (fuel : Nat) : s.skip (fuel + 1) = s.goTo rest := by
  have blanks : s.rest.dropWhile (· == ' ') = rest := by rw [text, dropWhile_blanks next]
  have there : (s.goTo rest).rest = rest := rfl
  have comment : (rest.head? == some '#') = false := by
    rw [beq_eq_false_iff_ne]
    exact fun hash => (next '#' hash).2 rfl
  simp only [skip, blanks, there, comment, Bool.false_eq_true, if_false]
  cases rest with
  | nil => rfl
  | cons c rest =>
    simp only [isBreak_eq_false (next c rfl).1, Bool.false_eq_true, if_false]

theorem toToken_blanks : s.toToken = s.goTo rest := by
  unfold toToken
  split
  · rename_i mark
    rw [text] at mark
    cases column with
    | zero =>
      have first : rest.head? = some '\ufeff' := by
        rw [show rest = _ from mark]
        rfl
      exact absurd (next '\ufeff' first).1 (by decide)
    | succ column => cases mark
  · exact skip_blanks next text _

end Blanks

theorem toToken_of_atToken {s : Lexer} (next : AtToken s.rest) : s.toToken = s :=
  have text : s.rest = List.replicate 0 ' ' ++ s.rest := rfl
  (toToken_blanks next text).trans (goTo_rest s)

/-- A lexer whose next token, which may be a key, stands in some column. -/
structure IsAt (s : Lexer) (column : Nat) (rest : List Char) : Prop where
  moved : ∃ place line, s.toToken = { s with rest, place, line, column, keyAllowed := true }
  depth : s.depth = 0
  fresh : s.pending = []
  shorter : rest.length ≤ s.rest.length

theorem isAt_of_atToken {s : Lexer} (next : AtToken s.rest) (allowed : s.keyAllowed = true)
    (depth : s.depth = 0) (fresh : s.pending = []) : IsAt s s.column s.rest := by
  refine ⟨⟨s.place, s.line, ?_⟩, depth, fresh, Nat.le_refl _⟩
  rw [toToken_of_atToken next, ← allowed]

theorem isAt_of_newLine {s : Lexer} {column : Nat} {rest : List Char} (next : AtToken rest)
    (text : s.rest = '\n' :: (List.replicate column ' ' ++ rest)) (depth : s.depth = 0)
    (fresh : s.pending = []) : IsAt s column rest := by
  have line : isBreak '\n' = true := by decide
  have blanks : s.rest.dropWhile (· == ' ') = s.rest := by rw [text]; rfl
  have comment : (s.rest.head? == some '#') = false := by rw [text]; rfl
  let t : Lexer :=
    { s with
      rest := List.replicate column ' ' ++ rest, place := s.place + 1, line := s.line + 1
      column := 0, keyAllowed := true }
  have behind : ({ s.goTo (List.replicate column ' ' ++ rest) with
      keyAllowed := s.keyAllowed || s.depth == 0 } : Lexer) = t := by
    have place : s.goTo (List.replicate column ' ' ++ rest) =
        { s.advance ['\n'] with rest := List.replicate column ' ' ++ rest } := goTo_append text
    have behind : s.advance ['\n'] =
        { s with place := s.place + 1, line := s.line + 1, column := 0 } := advance_newLine s 0
    rw [place, behind, depth]
    simp [t, depth]
  have there : s.toToken = t.goTo rest := by
    have skipped : s.skip (s.rest.length + 1) = t.skip s.rest.length := by
      simp only [skip, blanks, goTo_rest, comment, Bool.false_eq_true, if_false]
      rw [text]
      simp only [line, if_true, behind]
    have long : s.rest.length = (List.replicate column ' ' ++ rest).length + 1 := by
      rw [text, List.length_cons]
    unfold toToken
    split
    · rename_i mark
      rw [text] at mark
      cases mark
    · rw [skipped, long, skip_blanks (s := t) next rfl]
  have inline : ∀ c ∈ List.replicate column ' ', IsInline c := fun c hc => by
    rw [List.eq_of_mem_replicate hc]
    exact isInline_blank
  refine ⟨⟨s.place + 1 + column, s.line + 1, ?_⟩, depth, fresh, ?_⟩
  · have blanks : t.rest = List.replicate column ' ' ++ rest := rfl
    rw [there, goTo_append blanks, advance_inline inline]
    simp [t]
  · simp only [text, List.length_cons, List.length_append]
    omega

/-! Blocks that end. -/

namespace Found

/-- What is found when the blocks that are further in than a column are closed. -/
def close (level : Int) : List Int → Found → Found
  | [], f => f
  | i :: is, f =>
    if level < f.indent then
      close level is { f with tokens := f.tokens ++ [.blockEnd], indent := i, outer := is }
    else f

def unwind (f : Found) (level : Int) : Found :=
  f.close level f.outer

theorem unwind_of_le {f : Found} {level : Int} (h : f.indent ≤ level) : f.unwind level = f := by
  rw [unwind]
  cases f.outer with
  | nil => rfl
  | cons i is => rw [close, if_neg (by omega)]

theorem close_close {inner level : Int} (le : inner ≤ level) (is : List Int) {f : Found}
    (outer : f.outer = is) : (f.close level is).close inner (f.close level is).outer =
      f.close inner is := by
  induction is generalizing f with
  | nil => rw [close, outer]
  | cons i is ih =>
    by_cases further : level < f.indent
    · rw [close, if_pos further, close, if_pos (by omega)]
      exact ih rfl
    · rw [close, if_neg further, outer]

theorem pending_close (level : Int) (is : List Int) (f : Found) :
    (f.close level is).pending = f.pending := by
  induction is generalizing f with
  | nil => rfl
  | cons i is ih =>
    rw [close]
    split
    · exact ih _
    · rfl

end Found

theorem closeBlocks_eq (s : Lexer) (level : Int) (is : List Int) :
    closeBlocks level is s = s.withFound (s.found.close level is) := by
  induction is generalizing s with
  | nil => rfl
  | cons i is ih =>
    rw [closeBlocks, Found.close]
    by_cases further : level < s.indent
    · rw [if_pos further, if_pos (show level < s.found.indent from further), ih]
      rfl
    · rw [if_neg further, if_neg (show ¬ level < s.found.indent from further)]
      rfl

theorem unwind_eq {s : Lexer} (depth : s.depth = 0) (level : Int) :
    s.unwind level = s.withFound (s.found.unwind level) := by
  rw [unwind, depth, if_pos (by decide), closeBlocks_eq]
  rfl

theorem unwind_of_le {s : Lexer} {level : Int} (depth : s.depth = 0) (h : s.indent ≤ level) :
    s.unwind level = s := by
  rw [unwind_eq depth, Found.unwind_of_le h]
  rfl

/-! Steps. -/

theorem dropStale_of_fresh {s : Lexer} (fresh : s.pending = []) : s.dropStale = .ok s := by
  cases s
  subst fresh
  rfl

theorem dropPending_of_fresh {s : Lexer} (fresh : s.pending = []) : s.dropPending = .ok s := by
  cases s
  subst fresh
  rfl

theorem step_eq {s u v : Lexer} {c : Char} {rest : List Char} (there : s.toToken = u)
    (stays : u.dropStale = .ok u) (text : u.rest = c :: rest) (out : u.unwind u.column = v) :
    s.step = (v.next c rest).map some := by
  rw [step, there, stays]
  simp only [bind, Except.bind, text, out]
  cases v.next c rest <;> rfl

/-- The steps from here to the end of the text find some tokens. -/
inductive Leads : Lexer → List Token → Prop where
  | done {s t : Lexer} (fresh : s.pending = []) (ends : s.step = .ok none)
      (finish : s.finish = .ok t) : Leads s t.tokens
  | step {s t : Lexer} {ts : List Token} (fresh : s.dropStale = .ok s)
      (step : s.step = .ok (some t)) (shorter : t.rest.length < s.rest.length)
      (rest : Leads t ts) : Leads s ts

theorem Leads.run_eq {s : Lexer} {ts : List Token} (h : Leads s ts) {fuel : Nat}
    (enough : s.rest.length < fuel) (seen : Nat) : run fuel seen s = ts := by
  induction h generalizing fuel seen with
  | @done s t fresh ends finish =>
    obtain ⟨fuel, rfl⟩ := Nat.exists_eq_succ_of_ne_zero (Nat.ne_of_gt (Nat.zero_lt_of_lt enough))
    simp only [run, dropStale_of_fresh fresh, ends, finish]
  | @step s t ts fresh step shorter rest ih =>
    obtain ⟨fuel, rfl⟩ := Nat.exists_eq_succ_of_ne_zero (Nat.ne_of_gt (Nat.zero_lt_of_lt enough))
    simp only [run, fresh, step]
    exact ih (by omega) s.known

namespace IsAt

variable {s : Lexer} {column : Nat} {rest : List Char}

theorem dropStale_eq (h : IsAt s column rest) : s.toToken.dropStale = .ok s.toToken := by
  obtain ⟨_, _, moved⟩ := h.moved
  exact dropStale_of_fresh (by rw [moved]; exact h.fresh)

theorem found_toToken (h : IsAt s column rest) : s.toToken.found = s.found := by
  obtain ⟨_, _, moved⟩ := h.moved
  rw [moved]
  rfl

theorem unwind_toToken (h : IsAt s column rest) (level : Int) :
    s.toToken.unwind level = s.toToken.withFound (s.found.unwind level) := by
  rw [← h.found_toToken]
  obtain ⟨_, _, moved⟩ := h.moved
  exact unwind_eq (by rw [moved]; exact h.depth) level

theorem step_nil (h : IsAt s column []) : s.step = .ok none := by
  obtain ⟨_, _, moved⟩ := h.moved
  rw [step, h.dropStale_eq, moved]
  rfl

theorem step_cons {c : Char} (h : IsAt s column (c :: rest)) : s.step =
    ((s.toToken.withFound (s.found.unwind column)).next c rest).map some := by
  have here : s.toToken.rest = c :: rest ∧ s.toToken.column = column := by
    obtain ⟨_, _, moved⟩ := h.moved
    exact ⟨by rw [moved], by rw [moved]⟩
  refine step_eq rfl h.dropStale_eq here.1 ?_
  rw [here.2, h.unwind_toToken]

theorem finish_eq (h : IsAt s column rest) :
    s.finish = .ok ((s.toToken.withFound (s.found.unwind (-1))).push .streamEnd) := by
  have fresh : (s.toToken.withFound (s.found.unwind (-1))).pending = [] :=
    (Found.pending_close _ _ _).trans h.fresh
  rw [finish, h.unwind_toToken, dropPending_of_fresh fresh]
  rfl

theorem unwind (h : IsAt s column rest) (level : Int) : IsAt (s.unwind level) column rest := by
  have fresh : (s.found.unwind level).pending = [] :=
    (Found.pending_close level _ _).trans h.fresh
  obtain ⟨place, line, moved⟩ := h.moved
  rw [unwind_eq h.depth]
  exact ⟨⟨place, line, by rw [toToken_withFound, moved]; rfl⟩, h.depth, fresh, h.shorter⟩

/-- Blocks that are further in than the next token may be closed before it. -/
theorem leads_of_unwind (h : IsAt s column rest) {level : Int} (le : (column : Int) ≤ level)
    {ts : List Token} (leads : Leads (s.unwind level) ts) : Leads s ts := by
  have there := h.unwind level
  rw [unwind_eq h.depth] at leads there
  -- What the next token closes is closed in two parts.
  have twice {inner : Int} (le : inner ≤ level) :
      (s.toToken.withFound (s.found.unwind level)).withFound
          ((s.withFound (s.found.unwind level)).found.unwind inner) =
        s.toToken.withFound (s.found.unwind inner) :=
    congrArg s.toToken.withFound (Found.close_close le _ rfl)
  cases rest with
  | nil =>
    cases leads with
    | done _ _ finish =>
      refine .done h.fresh h.step_nil ?_
      rw [← finish, h.finish_eq, there.finish_eq, toToken_withFound, twice (by omega)]
    | step _ step _ _ =>
      rw [there.step_nil] at step
      cases step
  | cons c rest =>
    have same : (s.withFound (s.found.unwind level)).step = s.step := by
      rw [h.step_cons, there.step_cons, toToken_withFound, twice le]
    cases leads with
    | done _ ends _ =>
      rw [there.step_cons] at ends
      cases read : ((s.withFound (s.found.unwind level)).toToken.withFound
          ((s.withFound (s.found.unwind level)).found.unwind column)).next c rest <;>
        · rw [read] at ends
          cases ends
    | step _ step shorter leads =>
      exact .step (dropStale_of_fresh h.fresh) (same ▸ step) shorter leads

end IsAt

end Lexer

end Ontogram.Yaml
