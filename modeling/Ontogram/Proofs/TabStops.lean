import Ontogram.Proofs.ClauseWidening

set_option autoImplicit false

namespace Ontogram.Query

open Text

/-- The text from column `column` on, each tab with the number of spaces up to the next stop. -/
def stopsFrom (column : Nat) : List Char → Spaced
  | [] => []
  | c :: cs =>
    if c = '\t' then (c, 8 - column % 8) :: stopsFrom (column + (8 - column % 8)) cs
    else if c = '\n' ∨ c = '\r' then (c, 0) :: stopsFrom 0 cs
    else (c, 0) :: stopsFrom (column + 1) cs

@[simp] theorem narrow_stopsFrom (column : Nat) (cs : List Char) :
    narrow (stopsFrom column cs) = cs := by
  induction cs generalizing column with
  | nil => rfl
  | cons c cs ih =>
    unfold stopsFrom
    split
    · rw [narrow_cons, ih]
    · split <;> rw [narrow_cons, ih]

@[simp] theorem wide_stopsFrom (column : Nat) (cs : List Char) :
    wide (stopsFrom column cs) = expandFrom column cs := by
  induction cs generalizing column with
  | nil => rfl
  | cons c cs ih =>
    unfold stopsFrom expandFrom
    by_cases tab : c = '\t'
    · have some : 8 - column % 8 ≠ 0 := by omega
      rw [if_pos tab, if_pos tab, wide_cons, widened, if_pos ⟨tab, some⟩, ih]
    · rw [if_neg tab, if_neg tab]
      split <;> rw [wide_cons_of_ne tab, ih]

/-- The stops of the front of a text do not depend on what follows. -/
theorem stopsFrom_narrow_of_prefix {column : Nat} {cs : List Char} {front : Spaced}
    (h : front <+: stopsFrom column cs) : stopsFrom column (narrow front) = front := by
  induction cs generalizing column front with
  | nil =>
    rw [List.prefix_nil.1 h]
    rfl
  | cons c cs ih =>
    cases front with
    | nil => rfl
    | cons m front =>
      unfold stopsFrom at h
      split at h
      · rename_i tab
        obtain ⟨rfl, tail⟩ := List.cons_prefix_cons.1 h
        rw [narrow_cons, stopsFrom, if_pos tab, ih tail]
      · rename_i tab
        split at h
        · rename_i line
          obtain ⟨rfl, tail⟩ := List.cons_prefix_cons.1 h
          rw [narrow_cons, stopsFrom, if_neg tab, if_pos line, ih tail]
        · rename_i line
          obtain ⟨rfl, tail⟩ := List.cons_prefix_cons.1 h
          rw [narrow_cons, stopsFrom, if_neg tab, if_neg line, ih tail]

/-! Where a text is cut. -/

/-- How much longer the text in front of `rest` is with tab stops. -/
def overshoot (cs rest : List Char) : Nat :=
  let front := cs.take (cs.length - rest.length)
  (expandTabs front).length - front.length

/-- What is lost of `rest` where it is cut off by the length of the text with tab stops. -/
def lostAt (cs rest : List Char) : List Char :=
  rest.take (overshoot cs rest)

/-- What remains of it. -/
def leftAt (cs rest : List Char) : List Char :=
  rest.drop (overshoot cs rest)

theorem lostAt_append_leftAt (cs rest : List Char) : lostAt cs rest ++ leftAt cs rest = rest :=
  List.take_append_drop _ rest

theorem length_narrow_le_wide (ms : Spaced) : (narrow ms).length ≤ (wide ms).length := by
  induction ms with
  | nil => exact Nat.le_refl 0
  | cons m ms ih =>
    obtain ⟨c, n⟩ := m
    obtain ⟨d, ds, shape, -⟩ := exists_widened (p := fun _ => True) (c := c) trivial trivial n
    rw [narrow_cons, wide_cons, shape, List.length_append, List.length_cons, List.length_cons]
    omega

theorem overshoot_stopsFrom {cs : List Char} {front back : Spaced}
    (h : stopsFrom 0 cs = front ++ back) :
    overshoot cs (narrow back) = (wide front).length - (narrow front).length := by
  have stops := stopsFrom_narrow_of_prefix (h ▸ List.prefix_append front back)
  have expanded := wide_stopsFrom 0 (narrow front)
  have text := narrow_stopsFrom 0 cs
  have before : cs.take (cs.length - (narrow back).length) = narrow front := by
    rw [← text, h, narrow_append, List.length_append, Nat.add_sub_cancel, List.take_left]
  rw [stops] at expanded
  rw [overshoot, before, expanded, expandTabs]

section

variable {α β : Type} {value other : β → α}
  {reader : Option Char → List Char → Option (α × List Char)}

/-- The clause of a text with tab stops is the one of the text as it was written, but what is left
behind it is short of the lost characters. -/
theorem Widens.clauseIn? (h : Widens value other reader) (cs : List Char) :
    ∃ found : Option (β × List Char),
      Query.find? reader none cs = found.map (fun p => (value p.1, p.2)) ∧
        Query.clauseIn? reader cs = found.map fun p => (other p.1, leftAt cs p.2) := by
  obtain ⟨found, here, there, inside⟩ := h.find? none (stopsFrom 0 cs)
  rw [narrow_stopsFrom] at here
  rw [wide_stopsFrom, ← expandTabs] at there
  refine ⟨found.map fun p => (p.1, narrow p.2), ?_, ?_⟩
  · rw [here, Option.map_map]
    rfl
  · rw [Query.clauseIn?, there, Option.map_map, Option.map_map]
    cases found with
    | none => rfl
    | some p =>
      obtain ⟨value, back⟩ := p
      obtain ⟨front, text⟩ := inside (value, back) rfl
      have longer := length_narrow_le_wide front
      have gain := overshoot_stopsFrom text.symm
      have expanded : expandTabs cs = wide front ++ wide back := by
        rw [← wide_append, text, wide_stopsFrom, expandTabs]
      have written : cs = narrow front ++ narrow back := by
        rw [← narrow_append, text, narrow_stopsFrom]
      have cut : cs.drop ((expandTabs cs).length - (wide back).length) =
          leftAt cs (narrow back) := by
        rw [leftAt, gain, expanded, List.length_append, Nat.add_sub_cancel, written,
          List.drop_append, List.drop_eq_nil_of_le longer, List.nil_append]
      simp only [Option.map_some, Function.comp, Prod.map, cut]

end

/-! The clauses of a query. -/

/-- The choice, the tokens of the block and the limit of a query, as a search finds them. -/
def clauses
    (search : {α : Type} → (Option Char → List Char → Option (α × List Char)) → List Char →
      Option (α × List Char))
    (cs : List Char) : Except QueryError (Choice × List (List Char) × Option Nat) :=
  match search selectClause? cs with
  | none => .error .noSelect
  | some (choice, rest) =>
    match search blockClause? rest with
    | none => .error .noBlock
    | some (body, back) =>
      .ok (choice, tokensOf body, (search limitClause? back).map Prod.fst)

/-- The query that such clauses make up with the prefixes of its text. -/
def parsedOf (prefixes : Table String) (choice : Choice) (tokens : List (List Char))
    (limit : Option Nat) : Parsed :=
  let found := (statements tokens).filter (!·.isEmpty)
  { query := {
      projection := choice.projection
      patterns := found.filterMap patternOf?
      prefixes := prefixes
      distinct := choice.distinct
      limit := limit.map Int.ofNat }
    dropped := (found.filter fun s => (patternOf? s).isNone).map (·.map String.ofList) }

/-- A text is read by looking for its clauses. -/
theorem parse_eq_clauses (surroundings : List (String × String)) (s : String) :
    parse surroundings s = (clauses clauseIn? (stripComments s.toList)).map fun found =>
      parsedOf (prefixesOf surroundings (stripComments s.toList)) found.1 found.2.1 found.2.2 := by
  simp only [parse, clauses]
  cases clauseIn? selectClause? (stripComments s.toList) with
  | none => rfl
  | some p =>
    cases block : clauseIn? blockClause? p.2 with
    | none =>
      simp only [block]
      rfl
    | some q =>
      simp only [block, Except.map, parsedOf, Option.map_map]
      rfl

/-- The characters that are lost behind the choice and behind the block cannot start the next
clause or touch it, and no token of the block holds a tab. -/
structure TabsHarmless (cs : List Char) : Prop where
  brace : ∀ p ∈ find? selectClause? none cs, '\x7b' ∉ lostAt cs p.2
  token : ∀ p ∈ find? selectClause? none cs, ∀ q ∈ find? blockClause? none p.2,
    ∀ token ∈ tokensOf q.1, '\t' ∉ token
  limit : ∀ p ∈ find? selectClause? none cs, ∀ q ∈ find? blockClause? none p.2,
    'L' ∉ (lostAt (leftAt cs p.2) q.2).map upperChar ∧
      (lostAt (leftAt cs p.2) q.2).getLast?.any touchesKeyword = false

theorem find?_blockClause?_lost {lost : List Char} (brace : '\x7b' ∉ lost) (left : List Char) :
    find? blockClause? none (lost ++ left) = find? blockClause? none left := by
  have fails (back : List Char) (nonempty : back ≠ []) (suffix : back <:+ lost)
      (before : Option Char) : blockClause? before (back ++ left) = none := by
    obtain ⟨c, back, rfl⟩ := List.exists_cons_of_ne_nil nonempty
    have other : c ≠ '\x7b' := fun same => brace (same ▸ suffix.subset List.mem_cons_self)
    exact blockClause?_eq_none other before _
  rw [find?_append fails]
  cases left <;> rfl

theorem find?_limitClause?_lost {lost : List Char} (letter : 'L' ∉ lost.map upperChar)
    (clear : lost.getLast?.any touchesKeyword = false) (left : List Char) :
    find? limitClause? none (lost ++ left) = find? limitClause? none left := by
  have fails (back : List Char) (nonempty : back ≠ []) (suffix : back <:+ lost)
      (before : Option Char) : limitClause? before (back ++ left) = none := by
    obtain ⟨c, back, rfl⟩ := List.exists_cons_of_ne_nil nonempty
    have other : upperChar c ≠ 'L' := fun same =>
      letter (List.mem_map.2 ⟨c, suffix.subset List.mem_cons_self, same⟩)
    rw [limitClause?, limitDigits?, List.cons_append,
      keyword?_eq_none (show "LIMIT".toList = 'L' :: _ from rfl) other]
    rfl
  rw [find?_append fails, Option.or_none]
  exact widens_limitClause.find?_touched clear left

/-- Lost characters that do no harm change no clause. -/
theorem TabsHarmless.clauses_eq {cs : List Char} (h : TabsHarmless cs) :
    clauses clauseIn? cs = clauses (fun reader => find? reader none) cs := by
  obtain ⟨choice, plain, cut⟩ := widens_selectClause.clauseIn? cs
  have brace := h.brace
  have token := h.token
  have limit := h.limit
  rw [plain] at brace token limit
  simp only [clauses, plain, cut]
  cases choice with
  | none => rfl
  | some p =>
    -- The block is looked for behind the lost characters; back in front of the text they hold no
    -- brace, so it is found where it would be found without the loss.
    have skip := find?_blockClause?_lost (brace _ rfl) (leftAt cs p.2)
    rw [lostAt_append_leftAt] at skip
    obtain ⟨block, plain', cut'⟩ := widens_blockClause.clauseIn? (leftAt cs p.2)
    have token := token _ rfl
    have limit := limit _ rfl
    simp only [skip, plain'] at token limit
    simp only [Option.map_some, skip, plain', cut']
    cases block with
    | none => rfl
    | some q =>
      obtain ⟨letter, clear⟩ := limit _ rfl
      have skip' := find?_limitClause?_lost letter clear (leftAt (leftAt cs p.2) q.2)
      rw [lostAt_append_leftAt] at skip'
      obtain ⟨number, plain'', cut''⟩ :=
        widens_limitClause.clauseIn? (leftAt (leftAt cs p.2) q.2)
      simp only [Option.map_some, tokensOf_wide (token _ rfl), skip', plain'', cut'',
        Option.map_map, Function.comp_def, id]

/-- A text and its widening have the same clauses if no token of the block holds a tab. -/
theorem clauses_wide {ms : Spaced}
    (token : ∀ p ∈ find? selectClause? none (narrow ms), ∀ q ∈ find? blockClause? none p.2,
      ∀ token ∈ tokensOf q.1, '\t' ∉ token) :
    clauses (fun reader => find? reader none) (wide ms) =
      clauses (fun reader => find? reader none) (narrow ms) := by
  obtain ⟨choice, here, there, -⟩ := widens_selectClause.find? none ms
  rw [here] at token
  simp only [clauses, here, there]
  cases choice with
  | none => rfl
  | some p =>
    obtain ⟨block, here', there', -⟩ := widens_blockClause.find? none p.2
    have token := token _ rfl
    simp only [Prod.map, here'] at token
    simp only [Option.map_some, Prod.map, here', there']
    cases block with
    | none => rfl
    | some q =>
      obtain ⟨number, here'', there'', -⟩ := widens_limitClause.find? none q.2
      simp only [Option.map_some, Prod.map, tokensOf_wide (token _ rfl), here'', there'',
        Option.map_map, Function.comp_def, id]

/-! Tabs replaced by spaces. -/

/-- The text with a space for each tab outside quoted texts and comments. -/
def spaceTabs : List Char → List Char
  | [] => []
  | c :: cs =>
    match _h : (bracketed? (c :: cs)).or (literal? (c :: cs)) with
    | some (quoted, rest) => quoted ++ spaceTabs rest
    | none =>
      if c = '#' then c :: (cs.takeWhile (· ≠ '\n') ++ spaceTabs (cs.dropWhile (· ≠ '\n')))
      else (if c = '\t' then ' ' else c) :: spaceTabs cs
termination_by cs => cs.length
decreasing_by
  · obtain ⟨whole, some⟩ := takes_or takes_bracketed takes_literal _ _ _ _h
    have lengths := congrArg List.length whole
    have positive := List.length_pos_iff.2 some
    rw [List.length_append] at lengths
    omega
  · exact Nat.lt_succ_of_le (List.dropWhile_suffix _).length_le
  · simp

theorem spaceTabs_kept {cs quoted rest : List Char}
    (h : (bracketed? cs).or (literal? cs) = some (quoted, rest)) :
    spaceTabs cs = quoted ++ spaceTabs rest := by
  cases cs with
  | nil => contradiction
  | cons c cs =>
    rw [spaceTabs]
    split
    · rename_i found
      rw [h] at found
      cases found
      rfl
    · rename_i none
      rw [h] at none
      contradiction

theorem spaceTabs_cons {c : Char} {cs : List Char}
    (h : (bracketed? (c :: cs)).or (literal? (c :: cs)) = none) :
    spaceTabs (c :: cs) =
      if c = '#' then c :: (cs.takeWhile (· ≠ '\n') ++ spaceTabs (cs.dropWhile (· ≠ '\n')))
      else (if c = '\t' then ' ' else c) :: spaceTabs cs := by
  rw [spaceTabs]
  split
  · rename_i found
    rw [h] at found
    contradiction
  · rfl

theorem exists_spaceTabs (cs : List Char) :
    ∃ ms, narrow ms = cs ∧ wide ms = spaceTabs cs := by
  induction cs using spaceTabs.induct with
  | case1 => exact ⟨[], rfl, by rw [spaceTabs]; rfl⟩
  | case2 c cs quoted rest found ih =>
    obtain ⟨ms, rfl, spaced⟩ := ih
    obtain ⟨whole, -⟩ := takes_or takes_bracketed takes_literal _ _ _ found
    refine ⟨kept quoted ++ ms, by rw [narrow_append, narrow_kept, whole], ?_⟩
    rw [wide_append, wide_kept, spaced, spaceTabs_kept found]
  | case3 cs found ih =>
    obtain ⟨ms, behind, spaced⟩ := ih
    refine ⟨kept ('#' :: cs.takeWhile (· ≠ '\n')) ++ ms, ?_, ?_⟩
    · rw [narrow_append, narrow_kept, behind, List.cons_append, List.takeWhile_append_dropWhile]
    · rw [wide_append, wide_kept, spaced, spaceTabs_cons found, if_pos rfl, List.cons_append]
  | case4 c cs found hash ih =>
    obtain ⟨ms, rfl, spaced⟩ := ih
    refine ⟨(c, 1) :: ms, rfl, ?_⟩
    rw [wide_cons, spaced, spaceTabs_cons found, if_neg hash, widened]
    by_cases tab : c = '\t' <;> simp [tab]

/-- A query says the same with spaces for its tabs, as long as the cuts behind its clauses do no
harm in either text. -/
theorem parse_spaceTabs (surroundings : List (String × String)) (s : String)
    (harmless : TabsHarmless (stripComments s.toList))
    (spaced : TabsHarmless (stripComments (spaceTabs s.toList))) :
    parse surroundings (String.ofList (spaceTabs s.toList)) = parse surroundings s := by
  -- The comments are taken out of both texts at the same places.
  obtain ⟨ms, text, spaces⟩ := exists_spaceTabs s.toList
  obtain ⟨out, here, there⟩ := exists_stripComments ms
  rw [text] at here
  rw [spaces] at there
  have declared (cs : List Char) : prefixClauses (expandTabs cs) = prefixClauses cs := by
    have same := prefixClauses_wide (stopsFrom 0 cs)
    rwa [narrow_stopsFrom, wide_stopsFrom] at same
  have token := harmless.token
  rw [here] at token
  have prefixes : prefixesOf surroundings (wide out) = prefixesOf surroundings (narrow out) := by
    rw [prefixesOf, prefixesOf, declared, declared, prefixClauses_wide]
  rw [parse_eq_clauses, parse_eq_clauses, String.toList_ofList, spaced.clauses_eq,
    harmless.clauses_eq, here, there, clauses_wide token, prefixes]

/-- The block is indented by a tab, and the seven characters that are lost behind it are blanks. -/
theorem parse_indentedBlock :
    parse [] (String.ofList (spaceTabs "SELECT ?x \x7b\n\t?x ?p ?o\n\x7d        LIMIT 5".toList)) =
      parse [] "SELECT ?x \x7b\n\t?x ?p ?o\n\x7d        LIMIT 5" := by
  refine parse_spaceTabs [] _ ⟨?_, ?_, ?_⟩ ⟨?_, ?_, ?_⟩ <;> decide +kernel

/-- A tab in front of a query moves the cut behind the choice seven characters on, into the
block. -/
theorem parse_leadingTab_ne :
    ¬ ∀ (surroundings : List (String × String)) (s : String),
      (parse surroundings (String.ofList (spaceTabs s.toList))).toOption.map Parsed.query =
        (parse surroundings s).toOption.map Parsed.query := by
  intro claim
  have same := congrArg Option.isSome (claim [] "\tSELECT ?x \x7b ?x ?p ?o \x7d")
  have spaces : String.ofList (spaceTabs "\tSELECT ?x \x7b ?x ?p ?o \x7d".toList) =
      " SELECT ?x \x7b ?x ?p ?o \x7d" := by decide +kernel
  have found : (parse [] " SELECT ?x \x7b ?x ?p ?o \x7d").toOption.isSome = true := by
    decide +kernel
  have lost : (parse [] "\tSELECT ?x \x7b ?x ?p ?o \x7d").toOption.isSome = false := by
    decide +kernel
  rw [Option.isSome_map, Option.isSome_map, spaces, found, lost] at same
  cases same

end Ontogram.Query
