import Ontogram.Proofs.LineTokens

set_option autoImplicit false

namespace Ontogram.Yaml

namespace Lexer

section Written

variable {k : Scalar} (visible : k.isVisible = true) {c : Char} {back : List Char}
  (text : (Sheet.ofScalar k).written = c :: back)
include visible text

/-- A written scalar starts with a quote or a word. -/
theorem written_cases : (Sheet.ofScalar k).isPlain = false ∧ c = '\x27' ∨
    (Sheet.ofScalar k).isPlain = true ∧ IsWord (c :: back) := by
  rw [Sheet.written] at text
  by_cases plain : (Sheet.ofScalar k).isPlain = true
  · rw [if_pos plain] at text
    exact Or.inr ⟨plain, text ▸ isWord_text visible plain⟩
  · rw [if_neg plain] at text
    exact Or.inl ⟨Bool.eq_false_iff.2 plain, (List.cons.inj text).1.symm⟩

theorem isVisible_written : isVisible c = true ∧ c ≠ '#' := by
  rcases written_cases visible text with ⟨-, rfl⟩ | ⟨-, word⟩
  · decide
  · refine ⟨word.visible c List.mem_cons_self, ?_⟩
    rintro rfl
    exact absurd word.first (by simp [startsIndicator])

end Written

/-- A word starts a plain scalar. -/
theorem next_word {c : Char} {cs : List Char} (word : IsWord (c :: cs)) {rest : List Char}
    {s : Lexer} (depth : s.depth = 0)
    (away : s.column ≠ 0 ∨ atMark (c :: (cs ++ rest)) = false) :
    s.next c (cs ++ rest) = s.scalar c := by
  have other (d : Char) (hd : d ∈ indicators) : (c == d) = false :=
    beq_eq_false_iff_ne.2 fun same => word.notMem (same ▸ hd)
  have goes (d : Char) (hd : d ∈ ['?', ':', '-']) : (c == d && atGap (cs ++ rest)) = false := by
    by_cases same : c = d
    · rw [word.atGap_eq_false (same ▸ hd), Bool.and_false]
    · rw [beq_eq_false_iff_ne.2 same, Bool.false_and]
  have mark (d : Char) : (s.column == 0 && c == d && atMark (c :: (cs ++ rest))) = false := by
    rcases away with column | unmarked
    · rw [beq_eq_false_iff_ne.2 column, Bool.false_and, Bool.false_and]
    · rw [unmarked, Bool.and_false]
  have plain : s.startsPlain c (cs ++ rest) = true := by
    by_cases sign : c ∈ ['?', ':', '-']
    · have signs : (c == '-' || (s.depth == 0 && (c == '?' || c == ':'))) = true := by
        simpa [depth, or_assoc, or_comm, or_left_comm] using sign
      rw [startsPlain, word.atGap_eq_false sign, signs, Bool.not_false, Bool.true_and,
        Bool.or_true]
    · have all : ("-?:,[]\x7b\x7d#&*!|>\x27\"%@\x60".toList.all fun d =>
          ['?', ':', '-'].contains d || indicators.contains d) = true := by
        decide
      have opens : c ∉ "-?:,[]\x7b\x7d#&*!|>\x27\"%@\x60".toList := fun mem => by
        have known := List.all_eq_true.1 all c mem
        rw [List.contains_eq_mem, List.contains_eq_mem, decide_eq_false sign,
          decide_eq_false word.notMem] at known
        cases known
      rw [startsPlain, List.contains_eq_mem, decide_eq_false opens, Bool.not_false, Bool.true_or]
  have gap : isGap c = false := isGap_eq_false (word.visible c List.mem_cons_self)
  have level : (s.depth != 0) = false := by rw [depth]; rfl
  simp only [next, mark, level, other '%' (by decide), other '[' (by decide),
    other '\x7b' (by decide), other ']' (by decide), other '\x7d' (by decide),
    other ',' (by decide), goes '-' (by decide), goes '?' (by decide), goes ':' (by decide),
    other '*' (by decide), other '&' (by decide), other '!' (by decide), other '|' (by decide),
    other '>' (by decide), other '\x27' (by decide), other '"' (by decide), gap, plain,
    Bool.and_false, Bool.false_and, Bool.false_or, Bool.false_eq_true, if_false, Bool.not_false,
    Bool.and_self, if_true]

section Written

variable {k : Scalar} (visible : k.isVisible = true) {c : Char} {back : List Char}
  (text : (Sheet.ofScalar k).written = c :: back) {s : Lexer}
include visible text

theorem next_written {rest : List Char} (depth : s.depth = 0)
    (away : s.column ≠ 0 ∨ atMark (c :: (back ++ rest)) = false) :
    s.next c (back ++ rest) = s.scalar c := by
  rcases written_cases visible text with ⟨-, rfl⟩ | ⟨-, word⟩
  · simp [next]
  · exact next_word word depth away

variable {u : Lexer} (noted : s.notePending = .ok u) (depth : u.depth = 0) {behind : List Char}
  (rest : u.rest = c :: (back ++ behind))
include noted rest

/-- A scalar in quotes is a token up to its closing quote. -/
theorem scalar_quoted (plain : (Sheet.ofScalar k).isPlain = false)
    (stop : behind.head? ≠ some '\x27') :
    s.scalar c = .ok (u.atom behind (Sheet.ofScalar k).token) := by
  have quoted := text
  rw [Sheet.written, plain, if_neg (by decide)] at quoted
  obtain ⟨rfl, rfl⟩ := List.cons.inj quoted
  have long := length_le_flatMap_singleChar (Sheet.ofScalar k).text
  have enough : (Sheet.ofScalar k).text.length < u.rest.length + 1 := by
    rw [rest]
    simp only [List.length_cons, List.length_append]
    omega
  have read := singleQuoted_written (isVisible_text visible) stop enough
  have tail : u.rest.drop 1 = (Sheet.ofScalar k).text.flatMap singleChar ++ '\x27' :: behind := by
    rw [rest]
    simp
  simp only [scalar, noted, bind, Except.bind, tail, read]
  rw [Sheet.token, plain]
  rfl

include depth

/-- A word is a token up to where it stops, if no more words follow it. -/
theorem scalar_plain (plain : (Sheet.ofScalar k).isPlain = true) {after : List Char} {broken : Bool}
    (stop : ∀ d ds, behind = d :: ds → endsWord false d ds = true)
    (tail : ∀ fuel column, plainTail (fuel + 1) false (u.indent + 1) column behind =
      ([], after, broken)) :
    s.scalar c = .ok { u.atom after (Sheet.ofScalar k).token with keyAllowed := broken } := by
  have word : IsWord (c :: back) := by
    rcases written_cases visible text with ⟨quoted, -⟩ | ⟨-, word⟩
    · rw [plain] at quoted
      cases quoted
    · exact word
  rw [Sheet.written, if_pos plain] at text
  have other (d : Char) (hd : d ∈ indicators) : (c == d) = false :=
    beq_eq_false_iff_ne.2 fun same => word.notMem (same ▸ hd)
  have read : plainWord false u.rest = (c :: back, behind) := by
    rw [rest, ← List.cons_append]
    exact plainWord_append word.visible word.last stop
  have level : (u.depth != 0) = false := by rw [depth]; rfl
  simp only [scalar, noted, bind, Except.bind, other '"' (by decide), other '\x27' (by decide),
    level, read, tail, Bool.false_eq_true, if_false, List.append_nil]
  rw [Sheet.token, plain, text]
  rfl

/-- A plain key is a token up to its colon. -/
theorem scalar_plain_colon (plain : (Sheet.ofScalar k).isPlain = true) {after : List Char}
    (colon : behind = ':' :: after) (gap : atGap after = true) :
    s.scalar c = .ok (u.atom behind (Sheet.ofScalar k).token) := by
  refine scalar_plain visible text noted depth rest plain ?_ fun fuel column => ?_
  · rw [colon]
    rintro _ _ ⟨⟩
    simp [endsWord, gap]
  · rw [colon, plainTail_colon]

/-- A plain value is a token up to the next line. -/
theorem scalar_plain_newLine (plain : (Sheet.ofScalar k).isPlain = true) {column : Nat}
    {after : List Char} (starts : StartsLine after)
    (line : behind = '\n' :: (List.replicate column ' ' ++ after))
    (outer : (column : Int) ≤ u.indent) :
    s.scalar c = .ok { u.atom after (Sheet.ofScalar k).token with keyAllowed := true } := by
  refine scalar_plain visible text noted depth rest plain ?_ fun fuel here => ?_
  · rw [line]
    rintro _ _ ⟨⟩
    rfl
  · rw [line, plainTail_newLine starts column fuel (by omega) here]

end Written

theorem atom_append {u : Lexer} {cs behind : List Char} (inline : ∀ c ∈ cs, IsInline c)
    (text : u.rest = cs ++ behind) (t : Token) : u.atom behind t =
      { u with
        rest := behind, place := u.place + cs.length, column := u.column + cs.length
        tokens := u.tokens ++ [t], keyAllowed := false } := by
  rw [atom, goTo_append text, advance_inline inline]
  rfl

/-! Keys. -/

/-- The key that may stand where a lexer is. -/
def keyHere (s : Lexer) : PendingKey :=
  ⟨s.tokens.length, s.depth == 0 && s.indent == (s.column : Int), s.place, s.line, s.column,
    s.depth⟩

theorem notePending_of_allowed {s : Lexer} (allowed : s.keyAllowed = true)
    (fresh : s.pending = []) : s.notePending = .ok { s with pending := [s.keyHere] } := by
  rw [notePending, if_pos allowed, dropPending_of_fresh fresh]
  simp only [bind, Except.bind, pure, Except.pure, fresh]
  rfl

theorem notePending_of_closed {s : Lexer} (closed : s.keyAllowed = false) :
    s.notePending = .ok s := by
  rw [notePending, closed]
  rfl

namespace Found

/-- What is found when a block is opened in a column, unless one is open there. -/
def opened (f : Found) (column : Nat) : Found :=
  if f.indent < column then
    { f with
      indent := column, outer := f.indent :: f.outer, tokens := f.tokens ++ [.blockMapping] }
  else f

/-- What is found together with some tokens more. -/
def add (f : Found) (ts : List Token) : Found :=
  { f with tokens := f.tokens ++ ts }

/-- What is found behind the colon of a key in some column. -/
def enter (f : Found) (column : Nat) (scalar : Token) : Found :=
  ({ f with pending := [] }.opened column).add [.key, scalar, .value]

section

variable (f : Found) (column : Nat)

theorem add_add (ts us : List Token) : (f.add ts).add us = f.add (ts ++ us) := by
  rw [add, add, add, List.append_assoc]

theorem pending_opened : (f.opened column).pending = f.pending := by
  rw [opened]
  split <;> rfl

variable {f column}

theorem opened_of_lt (h : f.indent < column) : f.opened column =
    { f with
      indent := column, outer := f.indent :: f.outer, tokens := f.tokens ++ [.blockMapping] } :=
  if_pos h

theorem opened_of_le (h : column ≤ f.indent) : f.opened column = f :=
  if_neg (Int.not_lt.2 h)

theorem indent_opened (h : f.indent ≤ column) : (f.opened column).indent = column := by
  rw [opened]
  split
  · rfl
  · exact Int.le_antisymm h (Int.not_lt.1 ‹_›)

theorem enter_eq (fresh : f.pending = []) (scalar : Token) :
    f.enter column scalar = (f.opened column).add [.key, scalar, .value] := by
  cases f
  subst fresh
  rfl

theorem indent_enter (h : f.indent ≤ column) (scalar : Token) :
    (f.enter column scalar).indent = column :=
  indent_opened (f := { f with pending := [] }) h

end

end Found

/-- A lexer behind the colon of a key. -/
structure IsBehindColon (s : Lexer) (rest : List Char) (f : Found) : Prop where
  rest_eq : s.rest = rest
  depth : s.depth = 0
  closed : s.keyAllowed = false
  found_eq : s.found = f
  inside : f.indent < s.column

theorem insertIdx_length_append {α : Type} (xs ys : List α) (a : α) :
    (xs ++ ys).insertIdx xs.length a = xs ++ a :: ys := by
  induction xs with
  | nil => rfl
  | cons x xs ih => exact congrArg (x :: ·) ih

theorem next_colon {s : Lexer} {rest : List Char} (gap : atGap rest = true) (depth : s.depth = 0) :
    s.next ':' rest = s.colon := by
  simp [next, gap, depth]

theorem take_one {s : Lexer} {c : Char} (inline : IsInline c) {rest : List Char}
    (text : s.rest = c :: rest) (t : Token) : s.take t 1 =
      { s with
        rest, place := s.place + 1, column := s.column + 1, tokens := s.tokens ++ [t] } := by
  have tail : s.rest.drop 1 = rest := by rw [text]; rfl
  have here : s.rest = [c] ++ rest := text
  rw [take, tail, goTo_append here, advance_inline (List.forall_mem_singleton.2 inline)]
  rfl

section Colon

variable {s : Lexer} {held : PendingKey} {scalar : Token} {ts : List Token} {rest : List Char}
  (text : s.rest = ':' :: rest) (depth : s.depth = 0) (pending : s.pending = [held])
  (level : held.depth = 0) (tokens : s.tokens = ts ++ [scalar]) (index : held.index = ts.length)
include text depth pending level tokens index

/-- The key is put in front of its token. -/
theorem colonAfter_eq : s.colonAfter held =
    ({ s with
      rest, place := s.place + 1, column := s.column + 1, keyAllowed := false } : Lexer).withFound
      (({ s.found with tokens := ts } : Found).enter held.column scalar) := by
  have empty : s.pending.filter (fun p => p.depth != s.depth) = [] := by
    rw [pending, depth]
    simp [level]
  have inserted : s.tokens.insertIdx held.index .key = ts ++ [.key, scalar] := by
    rw [tokens, index, insertIdx_length_append]
  have flat : (s.depth == 0) = true := by rw [depth]; rfl
  -- The key goes in front of its scalar, and a block that it opens in front of both.
  let keyed : Lexer := { s with pending := [], tokens := ts ++ [.key, scalar] }
  let opened := keyed.openBlock held.column .blockMapping held.index
  have after : s.colonAfter held = { opened.take .value 1 with keyAllowed := false } := by
    simp only [colonAfter, empty, inserted, flat, if_true]
    rfl
  let f : Found := { s.found with pending := [], tokens := ts }
  have opens : opened = keyed.withFound ((f.opened held.column).add [.key, scalar]) := by
    simp only [opened, openBlock, index, keyed, insertIdx_length_append]
    by_cases further : s.indent < (held.column : Int)
    · rw [if_pos further, Found.opened_of_lt (f := f) further]
      simp [withFound, Found.add, f, found]
    · rw [if_neg further, Found.opened_of_le (f := f) (Int.not_lt.1 further)]
      rfl
  have stays : opened.rest = ':' :: rest := by rw [opens]; exact text
  have whole : (f.opened held.column).add [.key, scalar, .value] =
      ((f.opened held.column).add [.key, scalar]).add [.value] :=
    (Found.add_add (f.opened held.column) [.key, scalar] [.value]).symm
  rw [after, take_one (by constructor <;> decide) stays, Found.enter, whole, opens]
  rfl

/-- The colon behind a key that is not stale. -/
theorem step_colon (gap : atGap rest = true) (line : held.line = s.line)
    (near : s.place ≤ held.place + 1024) (inside : s.indent ≤ held.column)
    (before : held.column < s.column) : s.dropStale = .ok s ∧ ∃ t, s.step = .ok (some t) ∧
      IsBehindColon t rest (({ s.found with tokens := ts } : Found).enter held.column scalar) := by
  have stale : s.isStale held = false := by
    have sameLine : (held.line != s.line) = false := by rw [line, bne_self_eq_false]
    rw [isStale, sameLine, Bool.false_or, decide_eq_false_iff_not]
    omega
  have fresh : s.dropStale = .ok s := by
    have kept : s.pending.filter (fun k => !s.isStale k) = s.pending := by
      simp [pending, stale]
    rw [dropStale, kept, if_neg]
    simp [pending, stale]
  have here : s.toToken = s := by
    refine toToken_of_atToken ?_
    rw [text]
    rintro _ ⟨⟩
    decide
  -- The colon stands further in than its key, so that no block ends in front of it.
  have out : s.unwind s.column = s := unwind_of_le depth (by omega)
  have holds : s.pending.find? (fun k => k.depth == s.depth) = some held := by
    rw [pending, depth]
    simp [level]
  have step : s.step = .ok (some (s.colonAfter held)) := by
    rw [step_eq here fresh text out, next_colon gap depth, colon, holds]
    rfl
  have indent := Found.indent_enter (f := { s.found with tokens := ts }) inside scalar
  refine ⟨fresh, _, step, ?_⟩
  rw [colonAfter_eq text depth pending level tokens index]
  refine ⟨rfl, depth, rfl, rfl, ?_⟩
  rw [indent]
  exact Int.ofNat_lt.2 (Nat.lt_succ_of_lt before)

end Colon

section Key

variable {s : Lexer} {k : Scalar} (visible : k.isVisible = true) {column : Nat} {rest : List Char}
  (gap : atGap rest = true) (inside : s.indent ≤ column)
  (h : IsAt s column ((Sheet.ofScalar k).written ++ ':' :: rest))
  (starts : StartsLine ((Sheet.ofScalar k).written ++ ':' :: rest))
include visible gap inside h starts

/-- A key is a token, and may be a key. -/
theorem step_key : ∃ place line, s.step = .ok (some
    { s with
      rest := ':' :: rest, place := place + (Sheet.ofScalar k).written.length, line
      column := column + (Sheet.ofScalar k).written.length, keyAllowed := false
      pending := [⟨s.tokens.length, s.indent == (column : Int), place, line, column, 0⟩]
      tokens := s.tokens ++ [(Sheet.ofScalar k).token] }) := by
  obtain ⟨c, back, text⟩ := exists_cons_written visible
  have inline : ∀ d ∈ c :: back, IsInline d := fun d hd =>
    isInline_of_isVisible (isVisible_of_mem_written visible (text ▸ hd))
  rw [text, List.cons_append] at h starts
  obtain ⟨place, line, moved⟩ := h.moved
  have flat : s.toToken.depth = 0 := by rw [moved]; exact h.depth
  have same : s.toToken.withFound (s.found.unwind column) = s.toToken := by
    rw [Found.unwind_of_le inside, ← h.found_toToken]
    rfl
  have noted : s.toToken.notePending =
      .ok { s.toToken with pending := [s.toToken.keyHere] } :=
    notePending_of_allowed (by rw [moved]) (by rw [moved]; exact h.fresh)
  have left : ({ s.toToken with pending := [s.toToken.keyHere] } : Lexer).rest =
      c :: (back ++ ':' :: rest) := by
    rw [moved]
  have token : s.toToken.scalar c = .ok
      (({ s.toToken with pending := [s.toToken.keyHere] } : Lexer).atom (':' :: rest)
        (Sheet.ofScalar k).token) := by
    by_cases plain : (Sheet.ofScalar k).isPlain = true
    · exact scalar_plain_colon visible text noted flat left plain rfl gap
    · exact scalar_quoted visible text noted left (Bool.eq_false_iff.2 plain) (by simp)
  refine ⟨place, line, ?_⟩
  rw [h.step_cons, same, next_written visible text flat (Or.inr starts.unmarked), token,
    atom_append inline left, text, moved]
  simp [keyHere, h.depth, Except.map]

/-- A key and its colon. -/
theorem leads_key (simple : (Sheet.ofScalar k).isSimpleKey = true) {ts : List Token}
    (next : ∀ t, IsBehindColon t rest (s.found.enter column (Sheet.ofScalar k).token) →
      Leads t ts) : Leads s ts := by
  obtain ⟨place, line, step⟩ := step_key visible gap inside h starts
  have short := length_written_le simple
  have filled : 0 < (Sheet.ofScalar k).written.length := by
    obtain ⟨c, back, text⟩ := exists_cons_written visible
    rw [text]
    exact Nat.succ_pos _
  obtain ⟨fresh, t, colon, behind⟩ := step_colon (s := { s with
      rest := ':' :: rest, place := place + (Sheet.ofScalar k).written.length, line
      column := column + (Sheet.ofScalar k).written.length, keyAllowed := false
      pending := [⟨s.tokens.length, s.indent == (column : Int), place, line, column, 0⟩]
      tokens := s.tokens ++ [(Sheet.ofScalar k).token] }) rfl h.depth rfl rfl rfl
    rfl gap rfl (Nat.add_le_add_left short place) inside (Nat.lt_add_of_pos_right filled)
  have long := h.shorter
  rw [List.length_append, List.length_cons] at long
  refine .step (dropStale_of_fresh h.fresh) step ?_ (.step fresh colon ?_ (next t behind))
  · simp only [List.length_cons]
    omega
  · rw [behind.rest_eq]
    exact Nat.lt_succ_self _

end Key

/-! Values. -/

theorem next_openBrace {s : Lexer} {rest : List Char} (text : s.rest = '\x7b' :: rest)
    (closed : s.keyAllowed = false) : s.next '\x7b' rest = .ok
      { s with
        rest, place := s.place + 1, column := s.column + 1, depth := s.depth + 1, keyAllowed := true
        tokens := s.tokens ++ [.flowMapping] } := by
  have next : s.next '\x7b' rest = s.openBracket .flowMapping := by simp [next]
  rw [next, openBracket, notePending_of_closed closed]
  simp only [bind, Except.bind, take_one (by constructor <;> decide) text]
  rfl

theorem next_closeBrace {s : Lexer} {rest : List Char} (text : s.rest = '\x7d' :: rest)
    (fresh : s.pending = []) : s.next '\x7d' rest = .ok
      { s with
        rest, place := s.place + 1, column := s.column + 1, depth := s.depth - 1
        keyAllowed := false, tokens := s.tokens ++ [.flowMappingEnd] } := by
  have next : s.next '\x7d' rest = s.closeBracket .flowMappingEnd := by simp [next]
  rw [next, closeBracket, dropPending_of_fresh fresh]
  simp only [bind, Except.bind, take_one (by constructor <;> decide) text]
  rfl

/-- A scalar behind which a line follows that is not further in, where no key may stand. -/
theorem scalar_value {v : Scalar} (visible : v.isVisible = true) {c : Char} {back : List Char}
    (text : (Sheet.ofScalar v).written = c :: back) {u : Lexer} (closed : u.keyAllowed = false)
    (depth : u.depth = 0) (fresh : u.pending = []) {column : Nat} {rest : List Char}
    (starts : StartsLine rest) (outer : (column : Int) ≤ u.indent)
    (here : u.rest = c :: (back ++ '\n' :: (List.replicate column ' ' ++ rest))) :
    ∃ t, u.scalar c = .ok t ∧ IsAt t column rest ∧
      t.found = u.found.add [(Sheet.ofScalar v).token] ∧ t.rest.length < u.rest.length := by
  have noted : u.notePending = .ok u := notePending_of_closed closed
  have inline : ∀ d ∈ c :: back, IsInline d := fun d hd =>
    isInline_of_isVisible (isVisible_of_mem_written visible (text ▸ hd))
  have long : rest.length + 1 < u.rest.length := by
    rw [here]
    simp only [List.length_cons, List.length_append]
    omega
  by_cases plain : (Sheet.ofScalar v).isPlain = true
  · refine ⟨_, scalar_plain_newLine visible text noted depth here plain starts rfl outer, ?_⟩
    have whole : u.rest = ((c :: back) ++ '\n' :: List.replicate column ' ') ++ rest := by
      rw [here]
      simp
    have moved : { u.atom rest (Sheet.ofScalar v).token with keyAllowed := true } =
        { u with
          rest, place := u.place + (c :: back).length + 1 + column, line := u.line + 1, column
          tokens := u.tokens ++ [(Sheet.ofScalar v).token], keyAllowed := true } := by
      simp only [atom, goTo_append whole, advance_append, advance_inline inline, advance_newLine,
        push]
    rw [moved]
    exact ⟨isAt_of_atToken starts.head rfl depth fresh, rfl, Nat.lt_of_succ_lt long⟩
  · refine ⟨_, scalar_quoted visible text noted here (Bool.eq_false_iff.2 plain) (by simp), ?_⟩
    rw [atom_append inline here]
    refine ⟨isAt_of_newLine starts.head rfl depth fresh, rfl, ?_⟩
    rw [here]
    simp only [List.length_cons, List.length_append]
    omega

section Value

variable {s : Lexer} {f : Found} (fresh : f.pending = [])
include fresh

/-- The value behind a colon and a blank. -/
theorem step_value {c : Char} {rest : List Char} (h : IsBehindColon s (' ' :: c :: rest) f)
    (visible : isVisible c = true ∧ c ≠ '#') : s.dropStale = .ok s ∧
      s.step = (({ s with rest := c :: rest, place := s.place + 1, column := s.column + 1 } :
        Lexer).next c rest).map some := by
  have pending : s.pending = [] := (congrArg Found.pending h.found_eq).trans fresh
  have there : s.toToken =
      { s with rest := c :: rest, place := s.place + 1, column := s.column + 1 } := by
    have head : AtToken (c :: rest) := by
      rintro _ ⟨⟩
      exact visible
    have inline : ∀ d ∈ List.replicate 1 ' ', IsInline d :=
      List.forall_mem_singleton.2 isInline_blank
    have blank : s.rest = List.replicate 1 ' ' ++ c :: rest := h.rest_eq
    rw [toToken_blanks head blank, goTo_append blank, advance_inline inline]
    rfl
  have indent : s.indent = f.indent := congrArg Found.indent h.found_eq
  have inside : s.indent < s.column := by
    rw [indent]
    exact h.inside
  refine ⟨dropStale_of_fresh pending, ?_⟩
  let u : Lexer := { s with rest := c :: rest, place := s.place + 1, column := s.column + 1 }
  have stays : u.dropStale = .ok u := dropStale_of_fresh pending
  have out : u.unwind u.column = u :=
    unwind_of_le h.depth (Int.le_of_lt (Int.lt_trans inside (Int.ofNat_lt.2 (Nat.lt_succ_self _))))
  exact step_eq there stays rfl out

variable {column : Nat} {rest : List Char} (starts : StartsLine rest)
include starts

/-- An empty map on the line of its key. -/
theorem leads_braces (h : IsBehindColon s (' ' :: '\x7b' :: '\x7d' ::
      '\n' :: (List.replicate column ' ' ++ rest)) f) {ts : List Token}
    (next : ∀ t, IsAt t column rest →
      t.found = f.add [.flowMapping, .flowMappingEnd] → Leads t ts) :
    Leads s ts := by
  have pending : s.pending = [] := (congrArg Found.pending h.found_eq).trans fresh
  obtain ⟨stale, step⟩ := step_value fresh h (by decide)
  let behind := '\n' :: (List.replicate column ' ' ++ rest)
  let u : Lexer :=
    { s with
      rest := '\x7d' :: behind, place := s.place + 2, column := s.column + 2, depth := s.depth + 1
      keyAllowed := true, tokens := s.tokens ++ [.flowMapping] }
  let t : Lexer :=
    { s with
      rest := behind, place := s.place + 3, column := s.column + 3, keyAllowed := false
      tokens := s.tokens ++ [.flowMapping] ++ [.flowMappingEnd] }
  have opens : s.step = .ok (some u) := by
    let v : Lexer :=
      { s with
        rest := '\x7b' :: '\x7d' :: behind, place := s.place + 1, column := s.column + 1 }
    have taken : v.next '\x7b' ('\x7d' :: behind) = .ok u := next_openBrace rfl h.closed
    exact step.trans (congrArg (Except.map some) taken)
  have closes : u.step = .ok (some t) := by
    have here : u.toToken = u := toToken_of_atToken (by rintro _ ⟨⟩; decide)
    have inside : u.unwind u.column = u := rfl
    have taken : u.next '\x7d' behind = .ok t := next_closeBrace rfl pending
    have stays : u.dropStale = .ok u := dropStale_of_fresh pending
    rw [step_eq here stays rfl inside, taken]
    rfl
  have found : t.found = f.add [.flowMapping, .flowMappingEnd] := by
    rw [← h.found_eq]
    simp [t, Lexer.found, Found.add]
  have long := congrArg List.length h.rest_eq
  simp only [List.length_cons, List.length_append] at long
  refine .step stale opens ?_ (.step (dropStale_of_fresh pending) closes (Nat.lt_succ_self _)
    (next t (isAt_of_newLine starts.head rfl h.depth pending) found))
  simp only [u, behind, List.length_cons, List.length_append]
  omega

/-- A scalar on the line of its key. -/
theorem leads_scalar (outer : (column : Int) ≤ f.indent) {v : Scalar}
    (visible : v.isVisible = true)
    (h : IsBehindColon s (' ' :: ((Sheet.ofScalar v).written ++
      '\n' :: (List.replicate column ' ' ++ rest))) f) {ts : List Token}
    (next : ∀ t, IsAt t column rest →
      t.found = f.add [(Sheet.ofScalar v).token] → Leads t ts) :
    Leads s ts := by
  obtain ⟨c, back, text⟩ := exists_cons_written visible
  rw [text, List.cons_append] at h
  obtain ⟨stale, step⟩ := step_value fresh h (isVisible_written visible text)
  let u : Lexer :=
    { s with
      rest := c :: (back ++ '\n' :: (List.replicate column ' ' ++ rest))
      place := s.place + 1, column := s.column + 1 }
  have found : u.found = f := h.found_eq
  have pending : u.pending = [] := (congrArg Found.pending found).trans fresh
  have indent : (column : Int) ≤ u.indent := by
    rw [show u.indent = f.indent from congrArg Found.indent found]
    exact outer
  obtain ⟨t, token, here, after, shorter⟩ :=
    scalar_value (u := u) visible text h.closed h.depth pending starts indent rfl
  have there : s.step = .ok (some t) := by
    have inside : u.column ≠ 0 := Nat.succ_ne_zero s.column
    rw [step, next_written (s := u) visible text h.depth (Or.inl inside), token]
    rfl
  refine .step stale there (Nat.lt_trans shorter ?_) (next t here ?_)
  · rw [h.rest_eq]
    exact Nat.lt_succ_self _
  · rw [after, found]

end Value

end Lexer

end Ontogram.Yaml
