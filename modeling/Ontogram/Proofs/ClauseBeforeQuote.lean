import Ontogram.Proofs.QuotedBraces
import Ontogram.Proofs.TabStops

set_option autoImplicit false

namespace Ontogram.Query

open Text

/-- A character at which the parts of a clause end: a double quote or a closing bracket. -/
def isCloser (c : Char) : Bool :=
  c == '"' || c == '>'

theorem eq_of_isCloser {c : Char} (h : isCloser c = true) : c = '"' ∨ c = '>' := by
  simpa [isCloser] using h

theorem eq_false_of_isCloser {p : Char → Bool} (solid : (p '"' || p '>') = false) {c : Char}
    (h : isCloser c = true) : p c = false := by
  obtain ⟨quote, bracket⟩ := Bool.or_eq_false_iff.1 solid
  rcases eq_of_isCloser h with rfl | rfl
  · exact quote
  · exact bracket

section Closers

variable {c : Char} (closer : isCloser c = true)
include closer

theorem skipGap_closer (front rest : List Char) :
    skipGap (front ++ c :: rest) = skipGap front ++ c :: rest := by
  have stop : isGap c = false := eq_false_of_isCloser (by decide) closer
  exact (Prod.mk.inj (span_stop stop front rest)).2

theorem keyword?_closer {word : String} (letters : word.toList.all Char.isAlpha = true)
    (before : Option Char) (front rest : List Char) : keyword? word before (front ++ c :: rest) =
      (keyword? word before front).map (· ++ c :: rest) := by
  have touches : touchesKeyword c = false := eq_false_of_isCloser (by decide) closer
  have same : upperChar c = c := by rcases eq_of_isCloser closer with rfl | rfl <;> decide
  have outside : c ∉ word.toList :=
    notMem_of_all letters (eq_false_of_isCloser (by decide) closer)
  exact keyword?_stop touches same outside before front rest

/-- A declaration ends in front of a closer where its bracket does. -/
theorem prefixClause?_closer {front rest : List Char}
    (bracket : ∀ back, back <:+ front → bracketed? (back ++ c :: rest) =
      (bracketed? back).map fun found => (found.1, found.2 ++ c :: rest))
    (before : Option Char) : prefixClause? before (front ++ c :: rest) =
      (prefixClause? before front).map fun found => (found.1, found.2 ++ c :: rest) := by
  rw [prefixClause?, prefixClause?, keyword?_closer closer (by decide)]
  cases word : keyword? "PREFIX" before front with
  | none => rfl
  | some behind =>
    have stop : isDeclaredChar c = false := eq_false_of_isCloser (by decide) closer
    have named := span_stop stop (skipGap behind) rest
    rcases cut : span isDeclaredChar (skipGap behind) with ⟨name, left⟩
    rw [cut] at named
    simp only [Option.map_some, Option.bind_eq_bind, Option.bind_some, skipGap_closer closer,
      named, cut]
    cases left with
    | nil =>
      have other : c ≠ ':' := ne_of_class closer (by decide)
      rw [List.nil_append]
      split
      · rename_i same
        exact absurd (List.cons.inj same).1 other
      · rfl
    | cons d left =>
      by_cases colon : d = ':'
      · subst colon
        have inside : skipGap left <:+ front := by
          have gap : skipGap left <:+ left := List.dropWhile_suffix isGap
          have gap' : skipGap behind <:+ behind := List.dropWhile_suffix isGap
          have cutOff : ':' :: left <:+ skipGap behind :=
            ⟨name, by rw [← span_append isDeclaredChar (skipGap behind), cut]⟩
          have taken := (exists_front_of_keyword? word).imp fun _ h => h.1.symm
          exact (gap.trans (List.suffix_cons ':' left)).trans (cutOff.trans (gap'.trans taken))
        simp only [List.cons_append, skipGap_closer closer, bracket _ inside]
        cases bracketed? (skipGap left) <;> rfl
      · rw [List.cons_append]
        split
        · rename_i same
          exact absurd (List.cons.inj same).1 colon
        · split
          · rename_i same
            exact absurd (List.cons.inj same).1 colon
          · rfl

theorem variableNames_closer (front rest : List Char) : variableNames (front ++ c :: rest) =
    ((variableNames front).1, (variableNames front).2 ++ c :: rest) := by
  induction length : front.length using Nat.strong_induction_on generalizing front with
  | _ k ih =>
  subst length
  have mark : ¬(c = '?' ∨ c = '$') :=
    not_or.2 ⟨ne_of_class closer (by decide), ne_of_class closer (by decide)⟩
  have letter : isVariableChar c = false := eq_false_of_isCloser (by decide) closer
  have token := variableToken?_stop mark letter (skipGap front) rest
  rw [← skipGap_closer closer] at token
  cases read : variableToken? (skipGap front) with
  | none =>
    rw [read] at token
    rw [variableNames_nil token, variableNames_nil read]
  | some found =>
    obtain ⟨name, left⟩ := found
    have shorter : left.length < front.length := by
      obtain ⟨text, some⟩ := takes_variableToken _ _ _ read
      have lengths := congrArg List.length text
      have positive := List.length_pos_iff.2 some
      have fewer := length_skipGap_le front
      rw [List.length_append] at lengths
      omega
    rw [read, Option.map_some] at token
    rw [variableNames_cons token, variableNames_cons read, ih left.length shorter left rfl]

theorem chosen?_closer (distinct : Bool) (front rest : List Char) :
    chosen? distinct (front ++ c :: rest) =
      (chosen? distinct front).map fun found => (found.1, found.2 ++ c :: rest) := by
  by_cases star : front.head? = some '*'
  · cases front with
    | nil => cases star
    | cons d front =>
      rw [Option.some.inj star]
      rfl
  · have star' : (front ++ c :: rest).head? ≠ some '*' := by
      cases front with
      | nil =>
        have other : c ≠ '*' := ne_of_class closer (by decide)
        simpa using other
      | cons d front => exact star
    rw [chosen?_of_variableNames star', chosen?_of_variableNames star, variableNames_closer closer]
    split <;> rfl

theorem endsAt_selectClause (before : Option Char) : EndsAt c (selectClause? before) := by
  intro front rest
  rw [selectClause?_eq, selectClause?_eq, keyword?_closer closer (by decide)]
  cases keyword? "SELECT" before front with
  | none => rfl
  | some behind =>
    simp only [Option.map_some, Option.bind_some, skipGap_closer closer,
      keyword?_closer closer (show "DISTINCT".toList.all Char.isAlpha = true by decide)]
    cases keyword? "DISTINCT" none (skipGap behind) with
    | none => exact chosen?_closer closer false (skipGap behind) rest
    | some left =>
      simp only [Option.map_some, skipGap_closer closer]
      exact chosen?_closer closer true (skipGap left) rest

end Closers

theorem settles_prefixClause {front : List Char} (closed : opens front = false)
    (before : Option Char) : Settles (prefixClause? before) front := fun rest =>
  prefixClause?_closer (by decide)
    (fun _ within => settles_bracketed (opens_of_suffix closed within) rest) before

/-! Searches. -/

/-- What follows a clause is the end of the text. -/
theorem Widens.suffix_of_find? {α β : Type} {value other : β → α}
    {reader : Option Char → List Char → Option (α × List Char)} (h : Widens value other reader)
    {before : Option Char} {cs rest : List Char} {a : α}
    (found : Query.find? reader before cs = some (a, rest)) : rest <:+ cs := by
  obtain ⟨p, here, -, inside⟩ := h.find? before (kept cs)
  rw [narrow_kept, found] at here
  obtain ⟨q, rfl, same⟩ := Option.map_eq_some_iff.1 here.symm
  have suffix : narrow q.2 <:+ narrow (kept cs) := (inside q rfl).map Prod.fst
  rwa [narrow_kept, show narrow q.2 = rest from (Prod.mk.inj same).2] at suffix

/-! Declarations. -/

/-- Whether a prefix declaration starts in a text, read together with what follows the text. -/
def declaresIn (before : Option Char) (back : List Char) : List Char → Bool
  | [] => false
  | c :: cs => (prefixClause? before (c :: (cs ++ back))).isSome || declaresIn (some c) back cs

theorem find?_of_declaresIn {value back : List Char} {before : Option Char}
    (undeclared : declaresIn before back value = false) :
    find? prefixClause? before (value ++ back) =
      find? prefixClause? (value.getLast?.or before) back := by
  induction value generalizing before with
  | nil => rfl
  | cons c value ih =>
    obtain ⟨here, behind⟩ := Bool.or_eq_false_iff.1 undeclared
    have unread : prefixClause? before (c :: (value ++ back)) = none := by simpa using here
    rw [List.cons_append, find?, unread, Option.none_or, ih behind, getLast?_cons_or]

theorem find?_prefixClause?_quote (before : Option Char) (rest : List Char) :
    find? prefixClause? before ('"' :: rest) = find? prefixClause? (some '"') rest := by
  have unread : prefixClause? before ('"' :: rest) = none := by
    rw [prefixClause?, keyword?_eq_none (show "PREFIX".toList = 'P' :: _ from rfl) (by decide)]
    rfl
  rw [find?, unread, Option.none_or]

/-- The declarations do not depend on the tabs. -/
theorem prefixClauses_expandTabs (cs : List Char) :
    prefixClauses (expandTabs cs) = prefixClauses cs := by
  have same := prefixClauses_wide (stopsFrom 0 cs)
  rwa [narrow_stopsFrom, wide_stopsFrom] at same

/-- The value of a literal in which no declaration starts adds none. -/
theorem prefixClauses_inQuotes {front value back : List Char} (closed : opens front = false)
    (undeclared : declaresIn (some '"') ('"' :: back) value = false) :
    prefixClauses (front ++ inQuotes value back) = prefixClauses (front ++ inQuotes [] back) := by
  induction length : front.length using Nat.strong_induction_on generalizing front with
  | _ k ih =>
  subst length
  have search (value : List Char) : find? prefixClause? none (front ++ inQuotes value back) =
      ((find? prefixClause? none front).map fun found =>
        (found.1, found.2 ++ inQuotes value back)).or
          (find? prefixClause? (front.getLast?.or none) (inQuotes value back)) :=
    find?_append_or (fun left _ suffix before =>
      settles_prefixClause (opens_of_suffix closed suffix) before (value ++ '"' :: back)) none
  cases found : find? prefixClause? none front with
  | some declaration =>
    obtain ⟨declared, left⟩ := declaration
    have here (value : List Char) : find? prefixClause? none (front ++ inQuotes value back) =
        some (declared, left ++ inQuotes value back) := by
      have first := search value
      rw [found] at first
      exact first
    have shorter := length_find?_lt length_prefixClause?_lt found
    have closed' := opens_of_suffix closed (widens_prefixClause.suffix_of_find? found)
    rw [prefixClauses_cons (here value), prefixClauses_cons (here []),
      ih left.length shorter closed' rfl]
  | none =>
    have behind (value : List Char) : find? prefixClause? none (front ++ inQuotes value back) =
        find? prefixClause? (some '"') (value ++ '"' :: back) := by
      have first := search value
      rw [found, Option.map_none, Option.none_or, inQuotes, find?_prefixClause?_quote] at first
      exact first
    have same : find? prefixClause? none (front ++ inQuotes value back) =
        find? prefixClause? none (front ++ inQuotes [] back) := by
      rw [behind, behind, find?_of_declaresIn undeclared, find?_prefixClause?_quote,
        List.nil_append, find?_prefixClause?_quote]
    cases last : find? prefixClause? none (front ++ inQuotes [] back) with
    | none => rw [prefixClauses_nil last, prefixClauses_nil (same.trans last)]
    | some declaration =>
      rw [prefixClauses_cons (same.trans last), prefixClauses_cons last]

/-! Tabs. -/

def firstLine (cs : List Char) : List Char :=
  cs.takeWhile fun c => c ≠ '\n' && c ≠ '\r'

theorem exists_expandFrom_append (column : Nat) (front : List Char) : ∃ next, ∀ cs,
    expandFrom column (front ++ cs) = expandFrom column front ++ expandFrom next cs := by
  induction front generalizing column with
  | nil => exact ⟨column, fun _ => rfl⟩
  | cons c front ih =>
    by_cases tab : c = '\t'
    · obtain ⟨next, same⟩ := ih (column + (8 - column % 8))
      exact ⟨next, fun cs => by simp only [List.cons_append, expandFrom, if_pos tab, same,
        List.append_assoc]⟩
    by_cases line : c = '\n' ∨ c = '\r'
    · obtain ⟨next, same⟩ := ih 0
      exact ⟨next, fun cs => by simp only [List.cons_append, expandFrom, if_neg tab, if_pos line,
        same]⟩
    · obtain ⟨next, same⟩ := ih (column + 1)
      exact ⟨next, fun cs => by simp only [List.cons_append, expandFrom, if_neg tab, if_neg line,
        same]⟩

/-- The column in which a text starts counts only for the tabs of its first line. -/
theorem expandFrom_of_firstLine {cs : List Char} (tab : '\t' ∉ firstLine cs) (column : Nat) :
    expandFrom column cs = expandTabs cs := by
  rw [expandTabs]
  generalize 0 = start
  induction cs generalizing column start with
  | nil => rfl
  | cons c cs ih =>
    by_cases line : c = '\n' ∨ c = '\r'
    · have other : c ≠ '\t' := by
        rcases line with rfl | rfl <;> decide
      rw [expandFrom, if_neg other, if_pos line, expandFrom, if_neg other, if_pos line]
    · have first : firstLine (c :: cs) = c :: firstLine cs :=
        List.takeWhile_cons_of_pos (by simpa using line)
      rw [first, List.mem_cons, not_or] at tab
      rw [expandFrom, if_neg (Ne.symm tab.1), if_neg line, expandFrom, if_neg (Ne.symm tab.1),
        if_neg line, ih tab.2 (column + 1) (start + 1)]

theorem expandTabs_inQuotes {value back : List Char} (tab : '\t' ∉ value)
    (line : '\t' ∉ firstLine back) (front : List Char) :
    expandTabs (front ++ inQuotes value back) =
      expandTabs front ++ inQuotes value (expandTabs back) := by
  have clean : '\t' ∉ '"' :: (value ++ ['"']) := by simp [tab]
  have text (back : List Char) : inQuotes value back = '"' :: (value ++ ['"']) ++ back := by
    simp [inQuotes]
  obtain ⟨column, same⟩ := exists_expandFrom_append 0 front
  obtain ⟨column', same'⟩ := exists_expandFrom_append column ('"' :: (value ++ ['"']))
  rw [expandTabs, same, text, same', expandFrom_eq_self clean, expandFrom_of_firstLine line,
    ← text]
  rfl

theorem foldl_opensAfter_expandFrom (cs : List Char) (column : Nat) (isOpen : Bool) :
    (expandFrom column cs).foldl opensAfter isOpen = cs.foldl opensAfter isOpen := by
  induction cs generalizing column isOpen with
  | nil => rfl
  | cons c cs ih =>
    have space (isOpen : Bool) : opensAfter isOpen ' ' = false := by cases isOpen <;> decide
    have spaces (n : Nat) : (List.replicate n ' ').foldl opensAfter false = false := by
      induction n with
      | zero => rfl
      | succ n ih => rw [List.replicate_succ, List.foldl_cons, space, ih]
    by_cases tab : c = '\t'
    · subst tab
      have closes : opensAfter isOpen '\t' = false := by cases isOpen <;> decide
      obtain ⟨n, width⟩ := Nat.exists_eq_succ_of_ne_zero (show 8 - column % 8 ≠ 0 by omega)
      rw [expandFrom, if_pos rfl, List.foldl_append, ih, List.foldl_cons, closes]
      simp only [width]
      rw [List.replicate_succ, List.foldl_cons, space, spaces]
    · rw [expandFrom, if_neg tab]
      split <;> rw [List.foldl_cons, ih, List.foldl_cons]

theorem length_le_expandTabs (cs : List Char) : cs.length ≤ (expandTabs cs).length := by
  have longer := length_narrow_le_wide (stopsFrom 0 cs)
  rwa [narrow_stopsFrom, wide_stopsFrom] at longer

/-! The choice of variables. -/

/-- A choice in front of a literal is found there for every value. -/
theorem find?_selectClause?_inQuotes {front value back left : List Char} {choice : Choice}
    (found : find? selectClause? none (front ++ inQuotes value back) = some (choice, left))
    (long : (inQuotes value back).length ≤ left.length) : ∃ rest, ∀ value,
    find? selectClause? none (front ++ inQuotes value back) =
      some (choice, rest ++ inQuotes value back) := by
  have search (value : List Char) : find? selectClause? none (front ++ inQuotes value back) =
      ((find? selectClause? none front).map fun found =>
        (found.1, found.2 ++ inQuotes value back)).or
          (find? selectClause? (front.getLast?.or none) (inQuotes value back)) :=
    find?_append_or (fun left _ _ before =>
      endsAt_selectClause (by decide) before left (value ++ '"' :: back)) none
  cases inFront : find? selectClause? none front with
  | none =>
    -- A choice behind the quote would leave less than the literal.
    have unread (before : Option Char) (rest : List Char) :
        selectClause? before ('"' :: rest) = none := by
      rw [selectClause?, keyword?_eq_none (show "SELECT".toList = 'S' :: _ from rfl) (by decide)]
      rfl
    have behind := (search value).symm.trans found
    rw [inFront, Option.map_none, Option.none_or, inQuotes, find?, unread, Option.none_or] at behind
    have shorter := (widens_selectClause.suffix_of_find? behind).length_le
    rw [inQuotes, List.length_cons] at long
    omega
  | some found' =>
    obtain ⟨choice', rest⟩ := found'
    have here (value : List Char) : find? selectClause? none (front ++ inQuotes value back) =
        some (choice', rest ++ inQuotes value back) := by
      have first := search value
      rw [inFront] at first
      exact first
    obtain ⟨rfl, -⟩ := Prod.mk.inj (Option.some.inj ((here value).symm.trans found))
    exact ⟨rest, here⟩

section Values

variable {old new behind : List Char} (tab : '\t' ∉ old) (tab' : '\t' ∉ new)
  (line : '\t' ∉ firstLine behind)
include tab tab' line

/-- A choice that ends in front of a literal does so for another value. -/
theorem clauseIn?_selectClause?_inQuotes {front room : List Char} {choice : Choice}
    (h : clauseIn? selectClause? (front ++ inQuotes old behind) =
      some (choice, room ++ inQuotes old behind)) :
    room <:+ front ∧ clauseIn? selectClause? (front ++ inQuotes new behind) =
      some (choice, room ++ inQuotes new behind) := by
  have longer := length_le_expandTabs front
  rw [clauseIn?, expandTabs_inQuotes tab line] at h
  rw [clauseIn?, expandTabs_inQuotes tab' line]
  obtain ⟨found, read, same⟩ := Option.map_eq_some_iff.1 h
  obtain ⟨choice', left⟩ := found
  obtain ⟨rfl, cut⟩ := Prod.mk.inj same
  have lengths := congrArg List.length cut
  simp only [List.length_drop, List.length_append] at lengths
  have long : (inQuotes old (expandTabs behind)).length ≤ left.length := by
    simp only [inQuotes, List.length_append, List.length_cons] at lengths ⊢
    omega
  obtain ⟨rest, here⟩ := find?_selectClause?_inQuotes read long
  obtain ⟨-, rfl⟩ := Prod.mk.inj (Option.some.inj ((here old).symm.trans read))
  have cutAt (value : List Char) :
      (expandTabs front ++ inQuotes value (expandTabs behind)).length -
        (rest ++ inQuotes value (expandTabs behind)).length =
          (expandTabs front).length - rest.length := by
    simp only [List.length_append]
    omega
  have within : (expandTabs front).length - rest.length ≤ front.length := by
    simp only [inQuotes, List.length_append, List.length_cons] at lengths
    omega
  rw [cutAt, List.drop_append_of_le_length within] at cut
  have room_eq := List.append_cancel_right cut
  refine ⟨room_eq ▸ List.drop_suffix _ _, ?_⟩
  simp only [here new, Option.map_some, cutAt, List.drop_append_of_le_length within, room_eq]

end Values

/-! The block. -/

theorem inQuotes_append (value back rest : List Char) :
    inQuotes value (back ++ rest) = inQuotes value back ++ rest := by
  simp [inQuotes]

/-- A block stands between two braces, and the scan from the first one stops at the second. -/
theorem exists_of_blockClause? {before : Option Char} {c : Char} {cs body rest : List Char}
    (h : blockClause? before (c :: cs) = some (body, rest)) :
    c = '\x7b' ∧ closeBraces 1 cs = some rest ∧ cs = body ++ '\x7d' :: rest := by
  by_cases brace : c = '\x7b'
  · subst brace
    have scan := h
    rw [blockClause?] at scan
    obtain ⟨left, closed, same⟩ := Option.map_eq_some_iff.1 scan
    obtain ⟨found, here, -, inside⟩ := blockEndsAlike 1 (kept cs)
    rw [narrow_kept, closed] at here
    obtain ⟨p, rfl, left_eq⟩ := Option.map_eq_some_iff.1 here.symm
    obtain ⟨n, text⟩ := inside p rfl
    have cs_eq : cs = narrow p.1 ++ '\x7d' :: left := by
      rw [← narrow_kept cs, text, narrow_append, narrow_cons, left_eq]
    rw [blockClause?_eq_some before closed cs_eq] at h
    obtain ⟨rfl, rfl⟩ := Prod.mk.inj (Option.some.inj h)
    exact ⟨rfl, closed, cs_eq⟩
  · rw [blockClause?_eq_none brace] at h
    cases h

theorem suffix_of_find?_blockClause? {before : Option Char} {cs body rest : List Char}
    (h : find? blockClause? before cs = some (body, rest)) :
    '\x7b' :: (body ++ '\x7d' :: rest) <:+ cs := by
  obtain ⟨place, back, suffix, read⟩ := exists_of_find? h
  cases back with
  | nil => cases read
  | cons c back =>
    obtain ⟨rfl, -, rfl⟩ := exists_of_blockClause? read
    exact suffix

/-- From each brace in front of a literal, up to the one that opens its block, the scan of braces
finds the same for all values of a class. -/
def BracesAlike (p : List Char → Prop) (room body back : List Char) : Prop :=
  ∀ front, body <:+ front → '\x7b' :: front <:+ room → ClosedAlike p back 1 front

/-- Where the scan of braces does not stop in front of the literal for one value of a class, it
finds the same for another. -/
theorem ClosedAlike.closeBraces_eq {p : List Char → Prop} {old new back front : List Char}
    {depth : Nat} (alike : ClosedAlike p back depth front) (hold : p old) (hnew : p new)
    (beyond : ∀ left, closeBraces depth (front ++ inQuotes old back) ≠
      some (left ++ inQuotes old back)) :
    closeBraces depth (front ++ inQuotes new back) =
      closeBraces depth (front ++ inQuotes old back) := by
  rcases alike with ⟨left, found⟩ | ⟨result, found⟩
  · exact absurd (found old hold) (beyond left)
  · rw [found new hnew, found old hold]

section Around

variable {old back room body rest tail : List Char} {before : Option Char}
  (text : back = rest ++ '\x7d' :: tail)
include text

theorem length_tail_lt (value : List Char) : tail.length < (inQuotes value back).length := by
  simp only [text, inQuotes, List.length_append, List.length_cons]
  omega

theorem inQuotes_closed (value : List Char) :
    body ++ inQuotes value rest ++ '\x7d' :: tail = body ++ inQuotes value back := by
  rw [List.append_assoc, ← inQuotes_append, ← text]

/-- The brace that opens the block around a literal stands in front of the literal. -/
theorem exists_brace_of_find?_blockClause? (h : find? blockClause? before
      (room ++ inQuotes old back) = some (body ++ inQuotes old rest, tail)) :
    '\x7b' :: body <:+ room := by
  obtain ⟨taken, cs_eq⟩ := suffix_of_find?_blockClause? h
  rw [inQuotes_closed text, ← List.cons_append, ← List.append_assoc,
    List.append_cancel_right_eq] at cs_eq
  exact ⟨taken, cs_eq⟩

end Around

/-- The block around a literal is found at the same place for another value of the class. -/
theorem find?_blockClause?_inQuotes {p : List Char → Prop}
    {old new back room body rest tail : List Char} (hold : p old) (hnew : p new)
    (alike : BracesAlike p room body back) (text : back = rest ++ '\x7d' :: tail)
    {before : Option Char}
    (h : find? blockClause? before (room ++ inQuotes old back) =
      some (body ++ inQuotes old rest, tail)) :
    body <:+ room ∧ find? blockClause? before (room ++ inQuotes new back) =
      some (body ++ inQuotes new rest, tail) := by
  induction room generalizing before with
  | nil => cases List.suffix_nil.1 (exists_brace_of_find?_blockClause? text h)
  | cons c room ih =>
    have inside : body <:+ room := by
      rcases List.suffix_cons_iff.1 (exists_brace_of_find?_blockClause? text h) with whole | within
      · exact (List.cons.inj whole).2 ▸ List.suffix_rfl
      · exact (List.suffix_cons _ _).trans within
    -- A brace in front of the block is not closed, neither with the old value nor with the new.
    have skip (unread : blockClause? before (c :: (room ++ inQuotes old back)) = none)
        (unread' : blockClause? before (c :: (room ++ inQuotes new back)) = none) :
        body <:+ c :: room ∧ find? blockClause? before (c :: room ++ inQuotes new back) =
          some (body ++ inQuotes new rest, tail) := by
      rw [List.cons_append, find?, unread, Option.none_or] at h
      rw [List.cons_append, find?, unread', Option.none_or]
      have alike : BracesAlike p room body back := fun front suffix brace =>
        alike front suffix (brace.trans (List.suffix_cons c room))
      obtain ⟨suffix, found⟩ := ih alike h
      exact ⟨suffix.trans (List.suffix_cons c room), found⟩
    by_cases brace : c = '\x7b'
    · subst brace
      have braces : ClosedAlike p back 1 room := alike room inside List.suffix_rfl
      cases closed : closeBraces 1 (room ++ inQuotes old back) with
      | none =>
        have closed' := braces.closeBraces_eq hold hnew (by simp [closed])
        rw [closed] at closed'
        exact skip (by rw [blockClause?, closed]; rfl) (by rw [blockClause?, closed']; rfl)
      | some left =>
        obtain ⟨taken, read⟩ : ∃ taken, blockClause? before
            ('\x7b' :: (room ++ inQuotes old back)) = some (taken, left) :=
          ⟨_, by rw [blockClause?, closed]; rfl⟩
        rw [List.cons_append, find?, read, Option.some_or] at h
        obtain ⟨rfl, rfl⟩ := Prod.mk.inj (Option.some.inj h)
        have here := (exists_of_blockClause? read).2.2
        rw [inQuotes_closed text] at here
        obtain rfl : room = body := List.append_cancel_right here
        have closed' := braces.closeBraces_eq hold hnew fun front same => by
          have short := length_tail_lt text old
          rw [Option.some.inj (closed.symm.trans same), List.length_append] at short
          omega
        rw [closed] at closed'
        exact ⟨List.suffix_cons _ room,
          find?_eq_some (blockClause?_eq_some before closed' (inQuotes_closed text new).symm)⟩
    · exact skip (blockClause?_eq_none brace before _) (blockClause?_eq_none brace before _)

end Ontogram.Query
