import Ontogram.Proofs.ConstantNames
import Ontogram.Proofs.PrintedBlock

set_option autoImplicit false

namespace Ontogram

namespace Table

variable {α : Type}

theorem put_append {key : String} {front : List (String × α)} (new : key ∉ front.map Prod.fst)
    (value : α) (back : List (String × α)) :
    put key value (front ++ back) = front ++ put key value back := by
  induction front with
  | nil => rfl
  | cons e front ih =>
    obtain ⟨apart, new⟩ := not_or.1 (List.mem_cons.not.1 new)
    rw [List.cons_append, put, if_neg apart, ih new, List.cons_append]

/-- Entries whose keys start with those that are there replace them, each in its place. -/
theorem insertAll_append {front old new : List (String × α)}
    (once : ((front ++ new).map Prod.fst).Nodup)
    (start : old.map Prod.fst <+: new.map Prod.fst) :
    (⟨front ++ old⟩ : Table α).insertAll new = ⟨front ++ new⟩ := by
  -- On what is still to be written; `front` grows by what has been written.
  induction new generalizing front old with
  | nil =>
    obtain rfl : old = [] := List.map_eq_nil_iff.1 (List.prefix_nil.1 start)
    rfl
  | cons e new ih =>
    have other : e.1 ∉ front.map Prod.fst := by
      rw [List.map_append, List.nodup_append] at once
      exact fun there => once.2.2 _ there _ List.mem_cons_self rfl
    have split : front ++ e :: new = front ++ [e] ++ new := by simp
    have next (rest : List (String × α)) (within : rest.map Prod.fst <+: new.map Prod.fst)
        (step : put e.1 e.2 old = e :: rest) :
        (⟨front ++ old⟩ : Table α).insertAll (e :: new) = ⟨front ++ e :: new⟩ := by
      change (⟨put e.1 e.2 (front ++ old)⟩ : Table α).insertAll new = _
      rw [put_append other, step, List.append_cons, split]
      exact ih (split ▸ once) within
    cases old with
    | nil => exact next [] List.nil_prefix rfl
    | cons f old =>
      obtain ⟨same, within⟩ := List.cons_prefix_cons.1 start
      have step : put e.1 e.2 (f :: old) = (f.1, e.2) :: old := if_pos same.symm
      exact next old within (step.trans (congrArg (· :: old) (Prod.ext same rfl)))

theorem keys_isPrefix_insertAll (t : Table α) (pairs : List (String × α)) :
    t.keys <+: (t.insertAll pairs).keys := by
  induction pairs generalizing t with
  | nil => exact List.prefix_rfl
  | cons p pairs ih =>
    refine List.IsPrefix.trans ?_ (ih (t.insert p.1 p.2))
    rw [keys_insert]
    split
    · exact List.prefix_rfl
    · exact List.prefix_append _ _

/-- Writing all entries of a table over one whose keys start it gives this table. -/
theorem insertAll_entries {t u : Table α} (once : u.keys.Nodup) (start : t.keys <+: u.keys) :
    t.insertAll u.entries = u :=
  @insertAll_append α [] t.entries u.entries once start

end Table

/-- What reading can yield: variables that can be written, tokens as terms, prefixes that can be
declared, each once, and a limit that is not negative. -/
structure SelectQuery.IsRead (q : SelectQuery) : Prop where
  projection : ∀ name ∈ q.projection, Query.VariableText name ('?' :: name.toList)
  terms : ∀ p ∈ q.patterns, ∀ t ∈ p.terms, t.IsToken
  declarable : ∀ e ∈ q.prefixes.entries, Query.IsDeclarable e
  once : q.prefixes.keys.Nodup
  limit : ∀ n ∈ q.limit, 0 ≤ n

/-- The queries whose text says what they are: all terms do, the block is level, and no choice of
variables is read in a namespace. -/
structure SelectQuery.IsLegible (q : SelectQuery) : Prop where
  terms : ∀ p ∈ q.patterns, ∀ t ∈ p.terms, t.IsLegible
  level : Query.IsLevel q.patterns
  silent : ∀ e ∈ q.prefixes.entries, Query.find? Query.selectClause? none e.2.toList = none

instance : DecidablePred SelectQuery.IsLegible := fun q =>
  decidable_of_iff ((∀ p ∈ q.patterns, ∀ t ∈ p.terms, t.IsLegible) ∧
      Query.IsLevel q.patterns ∧
      ∀ e ∈ q.prefixes.entries, Query.find? Query.selectClause? none e.2.toList = none)
    ⟨fun h => ⟨h.1, h.2.1, h.2.2⟩, fun h => ⟨h.terms, h.level, h.silent⟩⟩

namespace Query

open Text
open PatternTerm (IsToken IsLegible)

/-! The choice. -/

/-- Variables, with a blank in front of each. -/
def namesText (names : List String) : List Char :=
  names.flatMap fun name => ' ' :: '?' :: name.toList

/-- What stands behind the keywords of a choice. -/
def chosenText (names : List String) : List Char :=
  if names.isEmpty then [' ', '*'] else namesText names

theorem toList_selectLine (q : SelectQuery) : q.selectLine.toList =
    "SELECT".toList ++ ((if q.distinct then ' ' :: "DISTINCT".toList else []) ++
      chosenText q.projection) := by
  have word : "SELECT ".toList = "SELECT".toList ++ [' '] := by decide
  have second : "DISTINCT ".toList = "DISTINCT".toList ++ [' '] := by decide
  have empty : "".toList = [] := rfl
  have space : " ".toList = [' '] := rfl
  have names : ' ' :: (if q.asksAll then "*" else
      String.intercalate " " (q.projection.map ("?" ++ ·))).toList = chosenText q.projection := by
    rw [SelectQuery.asksAll, chosenText]
    cases q.projection with
    | nil => rfl
    | cons name names =>
      have joined := intercalate_append_cons [' '] [] ((names.map ("?" ++ ·)).map String.toList)
        ("?" ++ name).toList
      rw [List.nil_append, List.flatMap_nil, List.nil_append] at joined
      simp only [List.isEmpty_cons, Bool.false_eq_true, if_false, String.toList_intercalate, space,
        List.map_cons, joined]
      simp [namesText, List.flatMap_map]
  rw [SelectQuery.selectLine, ← names]
  cases q.distinct <;>
    simp only [String.toList_append, word, second, empty, if_true, Bool.false_eq_true, if_false,
      List.append_assoc, List.cons_append, List.nil_append]

section Choice

variable {names : List String}
  (spelled : ∀ name ∈ names, VariableText name ('?' :: name.toList)) (rest : List Char)
include spelled

theorem variableNames_namesText :
    variableNames (namesText names ++ '\n' :: 'W' :: rest) = (names, '\n' :: 'W' :: rest) := by
  induction names with
  | nil =>
    refine variableNames_nil ?_
    rw [namesText, List.flatMap_nil, List.nil_append, skipGap,
      List.dropWhile_cons_of_pos (by decide),
      List.dropWhile_cons_of_neg (by decide)]
    exact variableToken?_eq_none rest (by decide) (by decide)
  | cons name names ih =>
    obtain ⟨here, others⟩ := List.forall_mem_cons.1 spelled
    have stop : Ends isStop (namesText names ++ '\n' :: 'W' :: rest) := by
      cases names with
      | nil => exact forall_head?_cons (Or.inl (by decide)) _
      | cons => exact forall_head?_cons (Or.inl (by decide)) _
    have token := variableToken?_append here stop
    have text : skipGap (namesText (name :: names) ++ '\n' :: 'W' :: rest) =
        '?' :: name.toList ++ (namesText names ++ '\n' :: 'W' :: rest) := by
      rw [namesText, List.flatMap_cons, List.append_assoc, List.cons_append, skipGap,
        List.dropWhile_cons_of_pos (by decide), List.cons_append,
        List.dropWhile_cons_of_neg (by decide)]
      rfl
    rw [variableNames_cons (text ▸ token), ih others, here.tail_eq]

omit spelled in
variable {rest} in
theorem variableNames_skipGap {cs : List Char} {name : String}
    (h : variableNames cs = (name :: names, rest)) :
    variableNames (skipGap cs) = (name :: names, rest) := by
  have once : skipGap (skipGap cs) = skipGap cs := List.dropWhile_idempotent isGap cs
  cases token : variableToken? (skipGap cs) with
  | none =>
    rw [variableNames_nil token] at h
    cases h
  | some found =>
    rw [variableNames_cons token] at h
    rw [variableNames_cons (once.symm ▸ token), h]

theorem chosen?_chosenText (distinct : Bool) :
    chosen? distinct (skipGap (chosenText names ++ '\n' :: 'W' :: rest)) =
      some (⟨distinct, names⟩, '\n' :: 'W' :: rest) := by
  have read := variableNames_namesText spelled rest
  cases names with
  | nil => rfl
  | cons name names =>
    exact chosen?_of_names (variableNames_skipGap read) (List.cons_ne_nil name names) distinct

end Choice

theorem exists_chosenText (names : List String) :
    ∃ c more, chosenText names = ' ' :: c :: more ∧ (c = '*' ∨ c = '?') := by
  cases names with
  | nil => exact ⟨'*', [], rfl, Or.inl rfl⟩
  | cons name names => exact ⟨'?', _, rfl, Or.inr rfl⟩

/-- The choice that is read is the one written. -/
theorem selectClause?_selectLine {q : SelectQuery}
    (spelled : ∀ name ∈ q.projection, VariableText name ('?' :: name.toList))
    {before : Option Char} (clear : before.any touchesKeyword = false) (rest : List Char) :
    selectClause? before (q.selectLine.toList ++ '\n' :: 'W' :: rest) =
      some (⟨q.distinct, q.projection⟩, '\n' :: 'W' :: rest) := by
  obtain ⟨c, more, text, mark⟩ := exists_chosenText q.projection
  have space : Blank [' '] := by simp [Blank]
  have word {item : String} (letters : item.toList.all Char.isAlpha = true)
      (spelled : Spells item.toList item) {before : Option Char}
      (clear : before.any touchesKeyword = false) (back : List Char) :
      keyword? item before (item.toList ++ ' ' :: back) = some (' ' :: back) :=
    keyword?_append spelled letters clear (forall_head?_cons (by decide) back)
  have skip {d : Char} (solid : isGap d = false) (back : List Char) :
      skipGap (' ' :: d :: back) = d :: back :=
    skipGap_append space (forall_head?_cons solid back)
  have behind : chosenText q.projection ++ '\n' :: 'W' :: rest =
      ' ' :: c :: (more ++ '\n' :: 'W' :: rest) := by
    rw [text]
    rfl
  have chosen := chosen?_chosenText spelled rest
  rw [behind] at chosen
  rw [toList_selectLine, List.append_assoc, List.append_assoc, behind, selectClause?_eq]
  cases q.distinct with
  | true =>
    have second : "DISTINCT".toList = 'D' :: "ISTINCT".toList := by decide
    rw [if_pos rfl, List.cons_append, word (by decide) (by decide) clear, Option.bind_some, second,
      List.cons_append, skip (by decide), ← List.cons_append, ← second,
      word (by decide) (by decide) clear_none]
    exact chosen true
  | false =>
    have plain : keyword? "DISTINCT" none (c :: (more ++ '\n' :: 'W' :: rest)) = none := by
      refine keyword?_eq_none (show "DISTINCT".toList = 'D' :: "ISTINCT".toList by decide) ?_ _ _
      rcases mark with rfl | rfl <;> decide
    have solid : isGap c = false := by rcases mark with rfl | rfl <;> decide
    rw [if_neg (by decide), List.nil_append, word (by decide) (by decide) clear, Option.bind_some,
      skip solid, plain, ← skip solid]
    exact chosen false

/-! Lines without terms. -/

/-- The characters of the lines that hold neither a declaration nor a pattern. -/
def isClauseChar (c : Char) : Bool :=
  isVariableChar c || [' ', '\n', '?', '*', '\x7b', '\x7d'].contains c

theorem VariableText.isClauseChar {name : String} (h : VariableText name ('?' :: name.toList)) :
    ∀ c ∈ name.toList, isClauseChar c = true := by
  have plain {text : List Char} (h : VariableText name text) :
      text.tail.all isVariableChar = true := by
    cases h with
    | var _ _ chars => exact chars
  intro c hc
  rw [Query.isClauseChar, List.all_eq_true.1 (plain h) c hc, Bool.true_or]

/-- The text of a query up to the brace that opens its block, behind its declarations. -/
def headText (q : SelectQuery) : List Char :=
  q.selectLine.toList ++ '\n' :: ("WHERE".toList ++ [' ', '\x7b'])

/-- The text of a query from the line of the brace that closes its block on. -/
def tailText (q : SelectQuery) : List Char :=
  '\n' :: '\x7d' :: limitLine q.limit

/-- The text of a query behind its choice. -/
def blockText (q : SelectQuery) : List Char :=
  '\n' :: ("WHERE".toList ++ ' ' :: '\x7b' :: (q.patterns.flatMap patternLine ++ tailText q))

theorem toList_text_eq (q : SelectQuery) : q.text.toList =
    q.prefixes.entries.flatMap declarationLine ++
      (headText q ++ (q.patterns.flatMap patternLine ++ tailText q)) := by
  rw [toList_text, headText, tailText]
  simp only [List.append_assoc, List.cons_append, List.nil_append]

theorem toList_text_eq_append (q : SelectQuery) : q.text.toList =
    q.prefixes.entries.flatMap declarationLine ++ (q.selectLine.toList ++ blockText q) := by
  rw [toList_text, blockText, tailText]

/-! The limit. -/

theorem limitLine_ofNat (n : Nat) :
    limitLine (some (n : Int)) = '\n' :: ("LIMIT".toList ++ ' ' :: Nat.toDigits 10 n) := by
  have digits : (toString (n : Int)).toList = Nat.toDigits 10 n := String.toList_ofList
  rw [limitLine, Option.map_some, Option.getD_some, digits]

section Limit

variable {limit : Option Int} (natural : ∀ n ∈ limit, 0 ≤ n)
include natural

theorem isClauseChar_of_mem_limitLine : ∀ c ∈ limitLine limit, isClauseChar c = true := by
  cases limit with
  | none => exact List.forall_mem_nil _
  | some n =>
    obtain ⟨n, rfl⟩ := Int.eq_ofNat_of_zero_le (natural n rfl)
    have word : ∀ c ∈ "LIMIT".toList, isClauseChar c = true := List.all_eq_true.1 (by decide)
    rw [limitLine_ofNat]
    simp only [List.forall_mem_cons, List.forall_mem_append]
    refine ⟨by decide, word, by decide, fun c hc => ?_⟩
    have digit := Nat.isDigit_of_mem_toDigits (by decide) (by decide) hc
    simp [isClauseChar, isVariableChar, Char.isAlphanum, digit]

/-- The limit that is read is the one written. -/
theorem clauseIn?_limitLine :
    ((clauseIn? limitClause? (limitLine limit)).map fun found => (found.1 : Int)) = limit := by
  cases limit with
  | none => rfl
  | some n =>
    obtain ⟨n, rfl⟩ := Int.eq_ofNat_of_zero_le (natural n rfl)
    have digits : (Nat.toDigits 10 n).all Char.isDigit = true := List.all_eq_true.2 fun c hc =>
      Nat.isDigit_of_mem_toDigits (by decide) (by decide) hc
    have written := LimitItems.some (show Spells "LIMIT".toList "LIMIT" by decide)
      (Nat.toDigits_ne_nil (b := 10) (n := n)) digits
    rw [Nat.ofDigitChars_toDigits (by decide) (by decide)] at written
    have newline : Blank ['\n'] := by simp [Blank]
    have space : Blank [' '] := by simp [Blank]
    have last : LaidOut Blank Blank isBreak [] [] := .nil (show Blank [] by simp [Blank])
    have number : LaidOut Blank Blank isBreak [Nat.toDigits 10 n]
        ([' '] ++ (Nat.toDigits 10 n ++ [])) := .cons space (Or.inr (Or.inr Ends.nil)) last
    have line : limitLine (some (n : Int)) =
        ['\n'] ++ ("LIMIT".toList ++ ([' '] ++ (Nat.toDigits 10 n ++ []))) := by
      rw [limitLine_ofNat, List.append_nil]
      rfl
    have laid : LaidOut Blank Blank isBreak ["LIMIT".toList, Nat.toDigits 10 n]
        (limitLine (some (n : Int))) := by
      rw [line]
      exact .cons newline (Or.inr (Or.inr (forall_head?_cons (Or.inl (by decide)) _))) number
    obtain ⟨found, same, value⟩ := Option.map_eq_some_iff.1 (clauseIn?_limitClause? written laid)
    rw [same, Option.map_some, value]

end Limit

/-! Comments and tabs. -/

theorem stripComments_clauseChars {front : List Char} (h : ∀ c ∈ front, isClauseChar c = true)
    (rest : List Char) : stripComments (front ++ rest) = front ++ stripComments rest := by
  refine stripComments_append (fun c hc => ?_) rest
  have apart (d : Char) (hd : isClauseChar d = false) : c ≠ d := ne_of_class (h c hc) hd
  exact ⟨apart '<' (by decide), apart '"' (by decide), apart '#' (by decide)⟩

section Declarations

variable {entries : List (String × String)} (declarable : ∀ e ∈ entries, IsDeclarable e)
include declarable

theorem stripComments_declarationLines (rest : List Char) :
    stripComments (entries.flatMap declarationLine ++ rest) =
      entries.flatMap declarationLine ++ stripComments rest := by
  induction entries with
  | nil => rfl
  | cons e entries ih =>
    obtain ⟨here, others⟩ := List.forall_mem_cons.1 declarable
    have front : ∀ c ∈ "PREFIX".toList ++ ' ' :: (e.1.toList ++ [':', ' ']),
        c ≠ '<' ∧ c ≠ '"' ∧ c ≠ '#' := by
      intro c hc
      have plain : isDeclaredChar c = true ∨ c ∈ [' ', ':'] := by
        simp only [List.mem_append, List.mem_cons, List.not_mem_nil, or_false] at hc ⊢
        rcases hc with letter | rfl | name | rfl | rfl
        · exact Or.inl (List.all_eq_true.1 (by decide) c letter)
        · exact Or.inr (Or.inl rfl)
        · exact Or.inl (here.name c name)
        · exact Or.inr (Or.inr rfl)
        · exact Or.inr (Or.inl rfl)
      rcases plain with plain | mark
      · exact ⟨ne_of_class plain (by decide), ne_of_class plain (by decide),
          ne_of_class plain (by decide)⟩
      · simp only [List.mem_cons, List.not_mem_nil, or_false] at mark
        rcases mark with rfl | rfl <;> decide
    have whole (back : List Char) : (e :: entries).flatMap declarationLine ++ back =
        ("PREFIX".toList ++ ' ' :: (e.1.toList ++ [':', ' '])) ++ (bracket e.2.toList ++
          '\n' :: (entries.flatMap declarationLine ++ back)) := by
      rw [List.flatMap_cons, List.append_assoc, declarationLine_append]
      simp only [bracket, List.append_assoc, List.cons_append, List.nil_append]
    rw [whole, stripComments_append front, stripComments_bracket here.iri,
      stripComments_char (by decide) (by decide) (by decide), ih others, whole]

theorem tab_notMem_declarationLines : '\t' ∉ entries.flatMap declarationLine := by
  intro tab
  obtain ⟨e, there, inside⟩ := List.mem_flatMap.1 tab
  have named : '\t' ∉ e.1.toList := fun tab =>
    absurd ((declarable e there).name '\t' tab) (by decide)
  have solid : '\t' ∉ e.2.toList := fun tab =>
    absurd ((declarable e there).iri '\t' tab) (by decide)
  rw [← List.append_nil (declarationLine e), declarationLine_append] at inside
  simp [named, solid] at inside

/-- The search for the choice passes over declarations whose namespaces hold none. -/
theorem find?_selectClause?_declarationLines
    (silent : ∀ e ∈ entries, find? selectClause? none e.2.toList = none) (rest : List Char) :
    find? selectClause? none (entries.flatMap declarationLine ++ rest) =
      find? selectClause? none rest := by
  induction entries with
  | nil => rfl
  | cons e entries ih =>
    obtain ⟨here, others⟩ := List.forall_mem_cons.1 declarable
    obtain ⟨quiet, silent⟩ := List.forall_mem_cons.1 silent
    rw [List.flatMap_cons, List.append_assoc, find?_selectClause?_declarationLine here quiet,
      find?_clear (by decide) selectClause?_clear, ih others silent]

end Declarations

section Patterns

variable {patterns : List TriplePattern}
  (terms : ∀ p ∈ patterns, ∀ t ∈ p.terms, t.IsToken ∧ t.IsLegible)
include terms

theorem stripComments_patternLines (rest : List Char) :
    stripComments (patterns.flatMap patternLine ++ rest) =
      patterns.flatMap patternLine ++ stripComments rest := by
  induction patterns with
  | nil => rfl
  | cons p patterns ih =>
    obtain ⟨here, others⟩ := List.forall_mem_cons.1 terms
    simp only [TriplePattern.terms, List.forall_mem_cons] at here
    obtain ⟨⟨subject, subject'⟩, ⟨predicate, predicate'⟩, ⟨object, object'⟩, -⟩ := here
    have pass (c : Char) (plain : c ∈ ['\n', ' ', '.']) (back : List Char) :
        stripComments (c :: back) = c :: stripComments back := by
      simp only [List.mem_cons, List.not_mem_nil, or_false] at plain
      rcases plain with rfl | rfl | rfl <;>
        exact stripComments_char (by decide) (by decide) (by decide)
    rw [List.flatMap_cons, List.append_assoc, List.append_assoc, patternLine_append,
      pass '\n' (by decide), pass ' ' (by decide), pass ' ' (by decide),
      stripComments_text subject subject', pass ' ' (by decide),
      stripComments_text predicate predicate', pass ' ' (by decide),
      stripComments_text object object', pass ' ' (by decide), pass '.' (by decide), ih others,
      patternLine_append]

theorem tab_notMem_patternLines : '\t' ∉ patterns.flatMap patternLine := by
  intro tab
  obtain ⟨p, there, inside⟩ := List.mem_flatMap.1 tab
  have clean (t : PatternTerm) (ht : t ∈ p.terms) : '\t' ∉ t.text.toList :=
    tab_notMem_text (terms p there t ht).1 (terms p there t ht).2
  simp only [TriplePattern.terms, List.forall_mem_cons] at clean
  obtain ⟨subject, predicate, object, -⟩ := clean
  simp [patternLine, toList_text_pattern, subject, predicate, object] at inside

end Patterns

/-! The whole text. -/

section Query

variable {q : SelectQuery} (read : q.IsRead)
include read

theorem isClauseChar_of_mem_headText : ∀ c ∈ headText q, isClauseChar c = true := by
  have word {item : String} (h : item.toList.all isClauseChar = true) :
      ∀ c ∈ item.toList, isClauseChar c = true := List.all_eq_true.1 h
  have chosen : ∀ c ∈ chosenText q.projection, isClauseChar c = true := by
    rw [chosenText]
    split
    · exact List.all_eq_true.1 (by decide)
    · simp only [namesText, List.mem_flatMap]
      rintro c ⟨name, there, hc⟩
      rcases List.mem_cons.1 hc with rfl | hc
      · decide
      rcases List.mem_cons.1 hc with rfl | hc
      · decide
      · exact (read.projection name there).isClauseChar c hc
  simp only [headText, toList_selectLine, List.forall_mem_append, List.forall_mem_cons]
  refine ⟨⟨word (by decide), ?_, chosen⟩, by decide, word (by decide), by decide, by decide,
    List.forall_mem_nil _⟩
  split
  · exact List.forall_mem_cons.2 ⟨by decide, word (by decide)⟩
  · exact List.forall_mem_nil _

theorem isClauseChar_of_mem_tailText : ∀ c ∈ tailText q, isClauseChar c = true :=
  List.forall_mem_cons.2 ⟨by decide, List.forall_mem_cons.2
    ⟨by decide, isClauseChar_of_mem_limitLine read.limit⟩⟩

variable (legible : q.IsLegible)
include legible

theorem isToken_isLegible : ∀ p ∈ q.patterns, ∀ t ∈ p.terms, t.IsToken ∧ t.IsLegible :=
  fun p hp t ht => ⟨read.terms p hp t ht, legible.terms p hp t ht⟩

theorem stripComments_query : stripComments q.text.toList = q.text.toList := by
  have last := stripComments_clauseChars (isClauseChar_of_mem_tailText read) []
  have none : stripComments [] = [] := by rw [stripComments]
  rw [none, List.append_nil] at last
  rw [toList_text_eq, stripComments_declarationLines read.declarable,
    stripComments_clauseChars (isClauseChar_of_mem_headText read),
    stripComments_patternLines (isToken_isLegible read legible), last]

theorem tab_notMem_query : '\t' ∉ q.text.toList := by
  have head : '\t' ∉ headText q := fun tab =>
    absurd (isClauseChar_of_mem_headText read '\t' tab) (by decide)
  have tail : '\t' ∉ tailText q := fun tab =>
    absurd (isClauseChar_of_mem_tailText read '\t' tab) (by decide)
  have declarations := tab_notMem_declarationLines read.declarable
  have patterns := tab_notMem_patternLines (isToken_isLegible read legible)
  rw [toList_text_eq]
  simp only [List.mem_append, not_or]
  exact ⟨declarations, head, patterns, tail⟩

theorem prefixClauses_query : prefixClauses q.text.toList = q.prefixes.entries := by
  have head : ':' ∉ headText q := fun colon =>
    absurd (isClauseChar_of_mem_headText read ':' colon) (by decide)
  have tail : ':' ∉ tailText q := fun colon =>
    absurd (isClauseChar_of_mem_tailText read ':' colon) (by decide)
  have undeclared := Undeclared.patternLines (isToken_isLegible read legible) head tail
  have blank : Blank [] := List.forall_mem_nil _
  rw [toList_text_eq]
  exact prefixClauses_declarationLines read.declarable undeclared blank

/-- The choice is found behind the declarations. -/
theorem clauseIn?_selectClause?_query :
    clauseIn? selectClause? q.text.toList = some (⟨q.distinct, q.projection⟩, blockText q) := by
  have line : selectClause? none (q.selectLine.toList ++ blockText q) =
      some (⟨q.distinct, q.projection⟩, blockText q) :=
    selectClause?_selectLine read.projection clear_none _
  have first : "SELECT".toList = 'S' :: "ELECT".toList := by decide
  have found : find? selectClause? none q.text.toList =
      some (⟨q.distinct, q.projection⟩, blockText q) := by
    rw [toList_text_eq_append, find?_selectClause?_declarationLines read.declarable legible.silent]
    rw [toList_selectLine, List.append_assoc, first, List.cons_append] at line ⊢
    exact find?_eq_some line
  refine clauseIn?_eq_some (tab_notMem_query read legible) found ?_
  rw [toList_text_eq_append, ← List.append_assoc]
  exact List.suffix_append _ _

/-- The block is found behind the choice. -/
theorem clauseIn?_blockClause?_query : clauseIn? blockClause? (blockText q) =
    some (q.patterns.flatMap patternLine ++ ['\n'], limitLine q.limit) := by
  have closed : closeBraces 1 (q.patterns.flatMap patternLine ++ tailText q) =
      some (limitLine q.limit) := by
    rw [tailText, closeBraces_patternLines legible.level]
  have body : q.patterns.flatMap patternLine ++ tailText q =
      (q.patterns.flatMap patternLine ++ ['\n']) ++ '\x7d' :: limitLine q.limit := by
    rw [tailText, List.append_assoc, List.singleton_append]
  have text : blockText q = ('\n' :: ("WHERE".toList ++ [' '])) ++
      '\x7b' :: (q.patterns.flatMap patternLine ++ tailText q) := by
    rw [blockText, List.cons_append, List.append_assoc, List.singleton_append]
  have other : ('\n' :: ("WHERE".toList ++ [' '])).all (· != '\x7b') = true := by decide
  have found : find? blockClause? none (blockText q) =
      some (q.patterns.flatMap patternLine ++ ['\n'], limitLine q.limit) := by
    rw [text, find?_append]
    · exact find?_eq_some (blockClause?_eq_some _ closed body)
    · intro back nonempty suffix before
      obtain ⟨c, back, rfl⟩ := List.exists_cons_of_ne_nil nonempty
      have plain := List.all_eq_true.1 other c (suffix.subset List.mem_cons_self)
      exact blockClause?_eq_none (by simpa using plain) before _
  refine clauseIn?_eq_some (fun tab => tab_notMem_query read legible ?_) found ?_
  · rw [toList_text_eq_append]
    exact List.mem_append_right _ (List.mem_append_right _ tab)
  · refine List.IsSuffix.trans ?_ (suffix_of_find?_blockClause? found)
    refine List.IsSuffix.trans ?_ (List.suffix_cons '\x7b' _)
    exact (List.suffix_cons '\x7d' _).trans (List.suffix_append _ _)

/-- The text of a query that reading can yield is read as this query, where the prefixes of the
surroundings are the first ones of the query. -/
theorem parse_text_of_isRead {surroundings : List (String × String)}
    (start : ((Table.ofList Namespace.standard).insertAll surroundings).keys <+: q.prefixes.keys) :
    parse surroundings q.text = .ok ⟨q, []⟩ := by
  have prefixes : prefixesOf surroundings q.text.toList = q.prefixes := by
    rw [prefixesOf, expandTabs_eq_self (tab_notMem_query read legible),
      prefixClauses_query read legible, Table.insertAll_entries read.once start]
  have patterns := statements_lineTokens (isToken_isLegible read legible)
  have tokens := tokensOf_patternLines (isToken_isLegible read legible)
  simp only [parse, stripComments_query read legible, clauseIn?_selectClause?_query read legible,
    clauseIn?_blockClause?_query read legible, tokens, prefixes, clauseIn?_limitLine read.limit,
    filterMap_eq patterns, filter_isNone_eq patterns]
  rfl

end Query

end Query

end Ontogram
