import Ontogram.Proofs.Choice
import Ontogram.Proofs.Comments

set_option autoImplicit false

namespace Ontogram.Query

open Text

theorem Spells.isQuiet {item : List Char} {word : String} (h : Spells item word)
    (letters : word.toList.all Char.isAlpha = true) : IsQuiet item :=
  isQuiet_of_plain fun c hc => isPlainChar_of_isAlpha (h.isAlpha letters c hc)

theorem DistinctItems.isQuiet {distinct : Bool} {items : List (List Char)}
    (h : DistinctItems distinct items) : ∀ item ∈ items, IsQuiet item := by
  cases h with
  | no => simp
  | yes spelled =>
    simp only [List.forall_mem_singleton]
    exact spelled.isQuiet (by decide)

theorem ProjectionItems.isQuiet {names : List String} {items : List (List Char)}
    (h : ProjectionItems names items) : ∀ item ∈ items, IsQuiet item := by
  induction h with
  | all =>
    simp only [List.forall_mem_singleton]
    exact isQuiet_of_colon_notMem (by decide)
  | one h =>
    simp only [List.forall_mem_singleton]
    exact h.isQuiet
  | more h _ ih =>
    simp only [List.forall_mem_cons]
    exact ⟨h.isQuiet, ih⟩

theorem WhereItems.isQuiet {items : List (List Char)} (h : WhereItems items) :
    ∀ item ∈ items, IsQuiet item := by
  cases h with
  | none => simp
  | word spelled =>
    simp only [List.forall_mem_singleton]
    exact spelled.isQuiet (by decide)

theorem BlockItems.isQuiet {patterns : List TriplePattern} {items : List (List Char)}
    (h : BlockItems patterns items) : ∀ item ∈ items, IsQuiet item := by
  intro item hi
  cases h.isBlockItem item hi with
  | term h => exact h.isQuiet
  | dot => exact isQuiet_of_colon_notMem (by decide)

theorem LimitItems.isQuiet {limit : Option Nat} {items : List (List Char)}
    (h : LimitItems limit items) : ∀ item ∈ items, IsQuiet item := by
  cases h with
  | none => simp
  | some spelled _ hd =>
    have digits : IsQuiet _ := isQuiet_of_plain fun c hc =>
      isPlainChar_of_isDigit (List.all_eq_true.1 hd c hc)
    simp only [List.forall_mem_cons]
    exact ⟨spelled.isQuiet (by decide), digits, by simp⟩

/-! The block behind the choice. -/

theorem WhereItems.exists_cons {items : List (List Char)} (h : WhereItems items)
    (tail : List (List Char)) :
    ∃ item back, items ++ ['\x7b'] :: tail = item :: back ∧ IsItem item ∧
      ∀ c ∈ item.head?, isAsking c = false := by
  cases h with
  | none =>
    exact ⟨['\x7b'], tail, rfl, isItem_mark (by decide), forall_head?_cons (by decide) []⟩
  | @word word spelled =>
    refine ⟨word, ['\x7b'] :: tail, rfl, spelled.isItem (by decide) (by decide), ?_⟩
    intro c hc
    have letter := spelled.isAlpha (by decide) c (List.mem_of_mem_head? hc)
    exact isAsking_eq_false_of_class (by decide) letter

theorem blockClause?_eq_none {c : Char} (h : c ≠ '\x7b') (before : Option Char) (cs : List Char) :
    blockClause? before (c :: cs) = none := by
  unfold blockClause?
  split
  · rename_i same
    exact absurd (List.cons.inj same).1 h
  · rfl

/-- The block is found behind the choice, with all its items in it. -/
theorem find?_blockClause? {patterns : List TriplePattern} {word block limit : List (List Char)}
    {cs : List Char} (hw : WhereItems word) (hb : BlockItems patterns block)
    (laid : LaidOut Blank Blank isBreak (word ++ ['\x7b'] :: (block ++ ['\x7d'] :: limit)) cs) :
    ∃ body rest, find? blockClause? none cs = some (body, rest) ∧ rest <:+ cs ∧
      LaidOut Blank Blank isSpace block body ∧ LaidOut Blank Blank isBreak limit rest := by
  obtain ⟨front, opened, rfl, before, _, laid⟩ := laid.exists_append
  obtain ⟨body, rest, rfl, inner, _, behind⟩ := laid.exists_append
  have spaced := inner.spaced hb.isBlockItem
  have brace : ∀ c ∈ front, c ≠ '\x7b' := by
    apply before.forall_mem (p := fun c => c ≠ '\x7b') ⟨by decide, by decide⟩
    cases hw with
    | none => simp
    | word spelled =>
      simp only [List.forall_mem_singleton]
      intro c hc
      have letter := spelled.isAlpha (by decide) c hc
      exact ne_of_class letter (by decide)
  have skip : find? blockClause? none (front ++ '\x7b' :: (body ++ '\x7d' :: rest)) =
      find? blockClause? (front.getLast?.or none) ('\x7b' :: (body ++ '\x7d' :: rest)) := by
    apply find?_append
    intro back nonempty suffix before
    obtain ⟨c, back, rfl⟩ := List.exists_cons_of_ne_nil nonempty
    exact blockClause?_eq_none (brace c (suffix.subset List.mem_cons_self)) before _
  refine ⟨body, rest, ?_, ?_, spaced, behind⟩
  · have found := blockClause?_eq spaced hb.isBlockItem (front.getLast?.or none) rest
    simp only [List.singleton_append]
    rw [skip]
    exact find?_eq_some found
  · exact ⟨front ++ '\x7b' :: (body ++ ['\x7d']), by simp⟩

/-! The limit behind the block. -/

theorem limitClause?_blank (c : Char) (cs : List Char) (before : Option Char)
    (h : c = ' ' ∨ c = '\n') : limitClause? before (c :: cs) = none := by
  have letter : upperChar c ≠ 'L' := by
    rcases h with rfl | rfl <;> decide
  rw [limitClause?, limitDigits?, keyword?_eq_none (show "LIMIT".toList = 'L' :: _ from rfl) letter]
  rfl

theorem limitClause?_append {word digits gap rest : List Char} (spelled : Spells word "LIMIT")
    (nonempty : digits ≠ []) (hd : digits.all Char.isDigit = true) (blank : Blank gap)
    (ends : Ends isBreak (gap ++ (digits ++ rest))) (after : Ends isBreak rest)
    {before : Option Char} (clear : before.any touchesKeyword = false) :
    limitClause? before (word ++ (gap ++ (digits ++ rest))) =
      some (Nat.ofDigitChars 10 digits 0, rest) := by
  have word_eq := keyword?_append spelled (by decide) clear ends.touchesKeyword
  have ascii : ∀ c ∈ digits, isAsciiDigit c = true := List.all_eq_true.1 hd
  have digits_eq : span isAsciiDigit (digits ++ rest) = (digits, rest) :=
    span_append_of_ends ascii after.isStop (by decide)
  have solid : ∀ c ∈ (digits ++ rest).head?, isGap c = false := by
    obtain ⟨d, ds, rfl⟩ := List.exists_cons_of_ne_nil nonempty
    have plain := isPlainChar_of_isDigit (ascii d List.mem_cons_self)
    exact forall_head?_cons (isGap_eq_false_of_isSymbolChar (isSymbolChar_of_isPlainChar plain)) _
  have filled : digits.isEmpty = false := by
    simpa using nonempty
  have value : asciiNumber digits = Nat.ofDigitChars 10 digits 0 := by
    rw [Nat.ofDigitChars_eq_foldl, asciiNumber]
    simp only [Nat.mul_comm]
  simp only [limitClause?, limitDigits?, word_eq, Option.bind_eq_bind, Option.bind_some,
    skipGap_append blank solid, digits_eq, filled, Bool.false_eq_true, if_false, Option.pure_def,
    Option.map_some, value]

/-- The limit that is read is the one written. -/
theorem clauseIn?_limitClause? {limit : Option Nat} {items : List (List Char)} {cs : List Char}
    (h : LimitItems limit items) (laid : LaidOut Blank Blank isBreak items cs) :
    (clauseIn? limitClause? cs).map Prod.fst = limit := by
  have tab := laid.tab_notMem h.isItem
  cases h with
  | none =>
    cases laid with
    | nil blank =>
      have none := find?_blank blank limitClause?_blank none []
      rw [List.append_nil] at none
      rw [clauseIn?_eq_none tab none]
      rfl
  | @some word digits spelled nonempty hd =>
    cases laid with
    | @cons _ gap _ _ blank apart laid =>
    cases laid with
    | @cons _ other rest _ spaced behind _ =>
    have ends := spelled.ends (by decide) apart
    have after : Ends isBreak rest := by
      rcases behind with rfl | rfl | after
      · contradiction
      · contradiction
      · exact after
    have clear := blank.clear clear_none
    have here := limitClause?_append spelled nonempty hd spaced ends after clear
    obtain ⟨c, word, rfl⟩ := spelled.exists_cons (by decide)
    have found : find? limitClause? none (gap ++ (c :: word ++ (other ++ (digits ++ rest)))) =
        some (Nat.ofDigitChars 10 digits 0, rest) := by
      rw [find?_blank blank limitClause?_blank]
      exact find?_eq_some here
    have suffix : rest <:+ gap ++ (c :: word ++ (other ++ (digits ++ rest))) :=
      ⟨gap ++ (c :: word ++ (other ++ digits)), by simp⟩
    rw [clauseIn?_eq_some tab found suffix]
    rfl

/-! The whole query. -/

theorem filterMap_eq {found : List (List (List Char))} {patterns : List TriplePattern}
    (h : found.map patternOf? = patterns.map some) : found.filterMap patternOf? = patterns := by
  have same : (found.map patternOf?).filterMap id = found.filterMap patternOf? := by
    rw [List.filterMap_map]
    rfl
  rw [← same, h]
  simp

theorem filter_isNone_eq {found : List (List (List Char))} {patterns : List TriplePattern}
    (h : found.map patternOf? = patterns.map some) :
    (found.filter fun s => (patternOf? s).isNone) = [] := by
  rw [List.filter_eq_nil_iff]
  intro s hs
  have image : patternOf? s ∈ patterns.map some := by
    rw [← h]
    exact List.mem_map_of_mem hs
  obtain ⟨pattern, _, same⟩ := List.mem_map.1 image
  simp [← same]

/-- A text of a query is read as this query, and nothing of it is dropped. -/
theorem parse_eq_query {q : Written} {s : String} (h : IsTextOf q s)
    (surroundings : List (String × String)) :
    parse surroundings s = .ok ⟨q.query surroundings, []⟩ := by
  obtain ⟨items, written, laid⟩ := h
  have each := written.isItem
  have clean := laid.stripComments each
  have tab := clean.tab_notMem each
  cases written with
  | @query word declarations distinct projection whereWord block limit hd spelled hu hv hw hb hl =>
    have quiet : ∀ item ∈ distinct ++ (projection ++ (whereWord ++ ['\x7b'] :: (block ++
        ['\x7d'] :: limit))), IsQuiet item := by
      simp only [List.forall_mem_append, List.forall_mem_cons]
      exact ⟨hu.isQuiet, hv.isQuiet, hw.isQuiet, isQuiet_of_colon_notMem (by decide), hb.isQuiet,
        isQuiet_of_colon_notMem (by decide), hl.isQuiet⟩
    have prefixes : prefixClauses (expandTabs (stripComments s.toList)) = q.declared := by
      rw [expandTabs_eq_self tab]
      exact prefixClauses_eq hd clean (spelled.isQuiet (by decide)) quiet
    -- What stands behind the choice is an item that is no variable: the keyword or the brace.
    obtain ⟨item, back, tail, solid, silent⟩ := hw.exists_cons (block ++ ['\x7d'] :: limit)
    rw [tail] at clean
    obtain ⟨afterChoice, choice, choiceTab, blockLaid⟩ :=
      clauseIn?_selectClause? hd spelled hu hv solid silent clean tab
    rw [← tail] at blockLaid
    obtain ⟨body, afterBlock, found, suffix, bodyLaid, limitLaid⟩ :=
      find?_blockClause? hw hb blockLaid
    have block_eq := clauseIn?_eq_some choiceTab found suffix
    have tokens := bodyLaid.tokensOf_eq hb.isBlockItem
    have patterns := hb.statements_eq
    have limit_eq : ((clauseIn? limitClause? afterBlock).map fun found => (found.1 : Int)) =
        q.limit.map Int.ofNat := by
      rw [← clauseIn?_limitClause? hl limitLaid, Option.map_map]
      rfl
    simp only [parse, choice, block_eq, tokens, filterMap_eq patterns, filter_isNone_eq patterns,
      prefixesOf, prefixes, limit_eq]
    rfl

/-- Items with a gap in front of each are a text. -/
theorem laidOut_gaps (pieces : List (List Char × List Char))
    (h : ∀ p ∈ pieces, Gap p.1 ∧ p.1.head?.any isStop = true) :
    LaidOut Gap LastGap isStop (pieces.map Prod.snd) (pieces.flatMap fun p => p.1 ++ p.2) := by
  induction pieces with
  | nil => exact .nil (.gap .nil)
  | cons piece pieces ih =>
    have tail := ih fun p hp => h p (List.mem_cons_of_mem piece hp)
    have text : (piece :: pieces).flatMap (fun p => p.1 ++ p.2) =
        piece.1 ++ (piece.2 ++ pieces.flatMap fun p => p.1 ++ p.2) := by
      simp
    rw [text, List.map_cons]
    refine .cons (h piece List.mem_cons_self).1 (Or.inr (Or.inr ?_)) tail
    intro c hc
    cases pieces with
    | nil => simp at hc
    | cons next pieces =>
      have stopped := (h next (List.mem_cons_of_mem piece List.mem_cons_self)).2
      cases front : next.1 with
      | nil => simp [front] at stopped
      | cons d gap =>
        obtain rfl : d = c := by simpa [front] using hc
        exact Or.inl (by simpa [front] using stopped)

/-- A comment, and a literal that holds a brace, a full stop and a hash sign. -/
theorem parse_commentedQuery :
    parse [] " PREFIX e: <h#> select # ?x \n distinct $s \x7b ?s a \"\x7d.#\"@en . \x7d limit 05" =
    .ok ⟨{
      projection := ["s"]
      patterns := [⟨.var "s", .iri (Namespace.rdf ++ "type"), .literal ⟨"\x7d.#", some "en", none⟩⟩]
      prefixes := (Table.ofList Namespace.standard).insertAll [("e", "h#")]
      distinct := true
      limit := some 5 }, []⟩ := by
  have identifier : IsIdentifier ['e'] := ⟨by decide, by decide⟩
  have declared : DeclarationItems [("e", "h#")] ["PREFIX".toList, "e:".toList, "<h#>".toList] :=
    .cons (by decide) identifier (by decide) .nil
  have subject : VariableText "s" "?s".toList := .var (Or.inl rfl) (by decide) (by decide)
  have chosen : VariableText "s" "$s".toList := .var (Or.inr rfl) (by decide) (by decide)
  have marked : MarkText (some "en") none "@en".toList := .language (by decide) (by decide)
  have object : TermText (.literal ⟨"\x7d.#", some "en", none⟩) "\"\x7d.#\"@en".toList :=
    .literal (by decide) marked
  have block : BlockItems
      [⟨.var "s", .iri (Namespace.rdf ++ "type"), .literal ⟨"\x7d.#", some "en", none⟩⟩]
      ["?s".toList, "a".toList, "\"\x7d.#\"@en".toList, ".".toList] :=
    .cons (.var subject) .type object .nil
  have number : Nat.ofDigitChars 10 "05".toList 0 = 5 := by decide
  have limit : LimitItems (some (Nat.ofDigitChars 10 "05".toList 0))
      ["limit".toList, "05".toList] :=
    .some (by decide) (by decide) (by decide)
  rw [number] at limit
  have written : QueryItems ⟨[("e", "h#")], true, ["s"], [⟨.var "s", .iri (Namespace.rdf ++ "type"),
      .literal ⟨"\x7d.#", some "en", none⟩⟩], some 5⟩ _ :=
    .query declared (show Spells "select".toList "SELECT" by decide)
      (.yes (show Spells "distinct".toList "DISTINCT" by decide)) (.one chosen) .none block limit
  have space : Gap [' '] := .blank (Or.inl rfl) .nil
  have comment : Gap " # ?x \n ".toList :=
    .blank (Or.inl rfl) (.comment (show '\n' ∉ " ?x ".toList by decide) space)
  have gaps : ∀ p ∈ [([' '], "PREFIX".toList), ([' '], "e:".toList), ([' '], "<h#>".toList),
      ([' '], "select".toList), (" # ?x \n ".toList, "distinct".toList), ([' '], "$s".toList),
      ([' '], ['\x7b']), ([' '], "?s".toList), ([' '], "a".toList),
      ([' '], "\"\x7d.#\"@en".toList), ([' '], ".".toList), ([' '], ['\x7d']),
      ([' '], "limit".toList), ([' '], "05".toList)], Gap p.1 ∧ p.1.head?.any isStop = true := by
    simp only [List.forall_mem_cons]
    refine ⟨⟨space, ?_⟩, ⟨space, ?_⟩, ⟨space, ?_⟩, ⟨space, ?_⟩, ⟨comment, ?_⟩, ⟨space, ?_⟩,
      ⟨space, ?_⟩, ⟨space, ?_⟩, ⟨space, ?_⟩, ⟨space, ?_⟩, ⟨space, ?_⟩, ⟨space, ?_⟩, ⟨space, ?_⟩,
      ⟨space, ?_⟩, by simp⟩ <;> decide
  refine parse_eq_query ⟨_, written, ?_⟩ []
  exact laidOut_gaps _ gaps

end Ontogram.Query
