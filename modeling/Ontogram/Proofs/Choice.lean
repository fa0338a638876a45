import Ontogram.Proofs.Declaration

set_option autoImplicit false

namespace Ontogram.Query

open Text

/-- A character at which a choice shows what it asks for. -/
def isAsking (c : Char) : Bool :=
  ['*', '?', '$'].contains c

theorem eq_false_of_isAsking {p : Char → Bool}
    (apart : (['*', '?', '$'].all fun c => !p c) = true) {c : Char} (h : isAsking c = true) :
    p c = false := by
  apply eq_false_of_mem apart
  simpa [isAsking] using h

theorem isAsking_eq_false_of_class {p : Char → Bool}
    (apart : (['*', '?', '$'].all fun c => !p c) = true) {c : Char} (h : p c = true) :
    isAsking c = false := by
  cases asking : isAsking c with
  | false => rfl
  | true =>
    rw [eq_false_of_isAsking apart asking] at h
    contradiction

theorem variableToken?_asks {cs : List Char} {found : List Char × List Char}
    (h : variableToken? cs = some found) : ∃ c rest, cs = c :: rest ∧ isAsking c = true := by
  cases cs with
  | nil => contradiction
  | cons c cs =>
    refine ⟨c, cs, rfl, ?_⟩
    by_cases question : c = '?'
    · rw [question]
      decide
    · by_cases dollar : c = '$'
      · rw [dollar]
        decide
      · rw [variableToken?_eq_none cs question dollar] at h
        contradiction

/-- Text that can be read as a choice has no barrier in front of what it asks for. -/
def Asks (cs : List Char) : Prop :=
  ∃ front c rest, cs = front ++ c :: rest ∧ (∀ d ∈ front, isBarrier d = false) ∧ isAsking c = true

theorem Asks.append {front cs : List Char} (h : Asks cs)
    (free : ∀ c ∈ front, isBarrier c = false) : Asks (front ++ cs) := by
  obtain ⟨before, c, rest, rfl, others, asking⟩ := h
  exact ⟨front ++ before, c, rest, by simp, List.forall_mem_append.2 ⟨free, others⟩, asking⟩

theorem Asks.of_skipGap {cs : List Char} (h : Asks (skipGap cs)) : Asks cs := by
  obtain ⟨gap, split, free⟩ := exists_open_append_skipGap cs
  rw [split]
  exact h.append free

theorem Asks.of_keyword? {word : String} {before : Option Char} {cs rest : List Char}
    (h : keyword? word before cs = some rest) (letters : word.toList.all Char.isAlpha = true)
    (asks : Asks rest) : Asks cs := by
  obtain ⟨front, rfl, free⟩ := exists_open_of_keyword? h letters
  exact asks.append free

theorem asks_of_variableNames {cs : List Char} (h : (variableNames cs).1 ≠ []) : Asks cs := by
  rw [variableNames] at h
  split at h
  · rename_i found
    obtain ⟨c, rest, text, asking⟩ := variableToken?_asks found
    have asks : Asks (skipGap cs) := ⟨[], c, rest, text, by simp, asking⟩
    exact asks.of_skipGap
  · contradiction

/-- The star or the variables behind the keywords of a choice. -/
def chosen? (distinct : Bool) (cs : List Char) : Option (Choice × List Char) :=
  match cs with
  | '*' :: rest => some (⟨distinct, []⟩, rest)
  | _ =>
    if (variableNames cs).1.isEmpty then none
    else some (⟨distinct, (variableNames cs).1⟩, (variableNames cs).2)

theorem selectClause?_eq (before : Option Char) (cs : List Char) :
    selectClause? before cs = (keyword? "SELECT" before cs).bind fun rest =>
      match keyword? "DISTINCT" none (skipGap rest) with
      | some behind => chosen? true (skipGap behind)
      | none => chosen? false (skipGap rest) := by
  cases found : keyword? "SELECT" before cs with
  | none =>
    rw [selectClause?, found]
    rfl
  | some rest =>
    simp only [selectClause?, found, Option.bind_eq_bind, Option.bind_some]
    cases keyword? "DISTINCT" none (skipGap rest) with
    | none => rfl
    | some behind => rfl

theorem asks_of_chosen? {distinct : Bool} {cs : List Char} {found : Choice × List Char}
    (h : chosen? distinct cs = some found) : Asks cs := by
  unfold chosen? at h
  split at h
  · rename_i rest
    exact ⟨[], '*', rest, rfl, by simp, by decide⟩
  · split at h
    · contradiction
    · rename_i filled
      apply asks_of_variableNames
      simpa using filled

theorem asks_of_selectClause? {before : Option Char} {cs : List Char} {found : Choice × List Char}
    (h : selectClause? before cs = some found) : Asks cs := by
  rw [selectClause?_eq] at h
  obtain ⟨rest, hk, h⟩ := Option.bind_eq_some_iff.1 h
  apply Asks.of_keyword? hk (by decide)
  apply Asks.of_skipGap
  split at h
  · rename_i behind hd
    have asks := (asks_of_chosen? h).of_skipGap
    exact asks.of_keyword? hd (by decide)
  · exact asks_of_chosen? h

/-! The search for the choice. -/

theorem selectClause?_blank (c : Char) (cs : List Char) (before : Option Char)
    (h : c = ' ' ∨ c = '\n') : selectClause? before (c :: cs) = none := by
  have letter : upperChar c ≠ 'S' := by
    rcases h with rfl | rfl <;> decide
  rw [selectClause?, keyword?_eq_none (show "SELECT".toList = 'S' :: _ from rfl) letter]
  rfl

/-- What holds a barrier in front of all that asks is no choice. -/
theorem selectClause?_eq_none {front : List Char} {d : Char} (barrier : isBarrier d = true)
    (inside : d ∈ front) (plain : ∀ c ∈ front, isAsking c = false) (before : Option Char)
    (rest : List Char) : selectClause? before (front ++ rest) = none := by
  cases found : selectClause? before (front ++ rest) with
  | none => rfl
  | some choice =>
    obtain ⟨free, c, back, text, unbarred, asking⟩ := asks_of_selectClause? found
    have outside : d ∉ free := fun there => by simp [unbarred d there] at barrier
    rcases List.append_eq_append_iff.1 text with ⟨more, rfl, _⟩ | ⟨more, rfl, hm⟩
    · exact absurd (List.mem_append_left more inside) outside
    · cases more with
      | nil =>
        rw [List.append_nil] at inside
        exact absurd inside outside
      | cons e more =>
        obtain rfl : c = e := (List.cons.inj hm).1
        have there : c ∈ free ++ c :: more := List.mem_append_right free List.mem_cons_self
        rw [plain c there] at asking
        contradiction

theorem mem_of_suffix_concat {front back : List Char} {c : Char} (nonempty : back ≠ [])
    (suffix : back <:+ front ++ [c]) : c ∈ back := by
  obtain ⟨pre, text⟩ := suffix
  have last : (pre ++ back).getLast? = some c := by
    rw [text, List.getLast?_concat]
  rw [List.getLast?_append_of_ne_nil _ nonempty] at last
  exact List.mem_of_getLast? last

/-- Nothing in a declaration asks for a variable. -/
theorem isAsking_eq_false {word name iri gap other : List Char} {c : Char}
    (spelled : Spells word "PREFIX") (named : IsIdentifier name)
    (chars : iri.all isIriText = true) (blank : Blank gap) (spaced : Blank other)
    (h : c ∈ word ++ (gap ++ ((name ++ [':']) ++ (other ++ bracket iri)))) :
    isAsking c = false := by
  simp only [List.mem_append, bracket, List.mem_cons, List.not_mem_nil, or_false] at h
  rcases h with letter | space | (plain | rfl) | space | rfl | inside | rfl
  · exact isAsking_eq_false_of_class (by decide) (spelled.isAlpha (by decide) c letter)
  · exact isAsking_eq_false_of_class (by decide) (blank.isGap c space)
  · exact isAsking_eq_false_of_class (by decide) (named.plain c plain)
  · decide
  · exact isAsking_eq_false_of_class (by decide) (spaced.isGap c space)
  · decide
  · exact isAsking_eq_false_of_class (by decide) (List.all_eq_true.1 chars c inside)
  · decide

/-- The search for a choice passes over the declarations. -/
theorem find?_selectClause?_append {declared : List (String × String)}
    {items : List (List Char)} (h : DeclarationItems declared items) {front : List Char}
    (laid : LaidOut Blank Blank isBreak items front) {before : Option Char}
    (clear : before.any touchesKeyword = false) (rest : List Char) :
    ∃ behind : Option Char, behind.any touchesKeyword = false ∧
      find? selectClause? before (front ++ rest) = find? selectClause? behind rest := by
  induction h generalizing front before with
  | nil =>
    cases laid with
    | nil blank =>
      exact ⟨front.getLast?.or before, blank.clear clear,
        find?_blank blank selectClause?_blank before rest⟩
  | @cons word name iri declared items spelled named chars _ ih =>
    cases laid with
    | @cons _ gap _ _ blank _ laid =>
    cases laid with
    | @cons _ other _ _ spaced _ laid =>
    cases laid with
    | @cons _ third front _ last _ laid =>
    have bracketClear : (some '>').any touchesKeyword = false := by decide
    obtain ⟨behind, free, found⟩ := ih laid bracketClear
    refine ⟨behind, free, ?_⟩
    have closed : word ++ (other ++ ((name ++ [':']) ++ (third ++ bracket iri))) =
        word ++ (other ++ ((name ++ [':']) ++ (third ++ '<' :: iri))) ++ ['>'] := by
      simp [bracket]
    have pass : find? selectClause? (gap.getLast?.or before)
        (word ++ (other ++ ((name ++ [':']) ++ (third ++ bracket iri))) ++ (front ++ rest)) =
          find? selectClause? (some '>') (front ++ rest) := by
      rw [find?_append, closed, List.getLast?_concat, Option.some_or]
      intro back nonempty suffix before
      apply selectClause?_eq_none (d := '>') (by decide)
      · exact mem_of_suffix_concat nonempty (closed ▸ suffix)
      · exact fun c hc => isAsking_eq_false spelled named chars spaced last (suffix.subset hc)
    have text : gap ++ (word ++ (other ++ ((name ++ [':']) ++ (third ++ (bracket iri ++
        front))))) ++ rest = gap ++ (word ++ (other ++ ((name ++ [':']) ++ (third ++
          bracket iri))) ++ (front ++ rest)) := by
      simp only [List.append_assoc]
    rw [text, find?_blank blank selectClause?_blank, pass, found]

/-! The choice itself. -/

theorem variableNames_cons {cs text rest : List Char}
    (h : variableToken? (skipGap cs) = some (text, rest)) :
    variableNames cs =
      (String.ofList text.tail :: (variableNames rest).1, (variableNames rest).2) := by
  rw [variableNames]
  split
  · rename_i found
    rw [h] at found
    obtain ⟨rfl, rfl⟩ := Prod.mk.inj (Option.some.inj found)
    rfl
  · rename_i found
    rw [h] at found
    contradiction

theorem variableNames_nil {cs : List Char} (h : variableToken? (skipGap cs) = none) :
    variableNames cs = ([], cs) := by
  rw [variableNames]
  split
  · rename_i found
    rw [h] at found
    contradiction
  · rfl

theorem VariableText.ends {name : String} {text rest : List Char} (h : VariableText name text)
    (apart : text = ['\x7b'] ∨ text = ['\x7d'] ∨ Ends isBreak rest) : Ends isBreak rest := by
  cases h with
  | @var mark name marked _ _ =>
    have left : mark ≠ '\x7b' := by
      rcases marked with rfl | rfl <;> decide
    have right : mark ≠ '\x7d' := by
      rcases marked with rfl | rfl <;> decide
    exact ends_of_apart rfl left right apart

theorem VariableText.tail_eq {name : String} {text : List Char} (h : VariableText name text) :
    String.ofList text.tail = name := by
  cases h with
  | var _ _ _ => rfl

theorem Ends.isStop {rest : List Char} (h : Ends isBreak rest) : Ends Query.isStop rest :=
  h.mono fun c hc => by simp [Query.isStop, hc]

section

variable {item cs : List Char} {items back : List (List Char)} {names : List String}

/-- An item that is no variable ends the variables. -/
theorem variableNames_eq_nil (laid : LaidOut Blank Blank isBreak (item :: back) cs)
    (solid : IsItem item) (silent : ∀ c ∈ item.head?, isAsking c = false) :
    variableNames cs = ([], cs) := by
  obtain ⟨rest, skipped, _⟩ := laid.exists_skipGap solid
  obtain ⟨c, front, rfl, _⟩ := solid.exists_cons
  have quiet : isAsking c = false := silent c rfl
  have question : c ≠ '?' := by
    intro same
    rw [same] at quiet
    contradiction
  have dollar : c ≠ '$' := by
    intro same
    rw [same] at quiet
    contradiction
  apply variableNames_nil
  rw [skipped]
  exact variableToken?_eq_none (front ++ rest) question dollar

theorem variableNames_eq (h : ProjectionItems names items) (named : names ≠ [])
    (solid : IsItem item) (silent : ∀ c ∈ item.head?, isAsking c = false)
    (laid : LaidOut Blank Blank isBreak (items ++ item :: back) cs) :
    ∃ rest, variableNames cs = (names, rest) ∧ rest <:+ cs ∧
      LaidOut Blank Blank isBreak (item :: back) rest := by
  induction h generalizing cs with
  | all => contradiction
  | one h =>
    obtain ⟨rest, skipped, suffix, apart, behind⟩ := laid.exists_skipGap h.isItem
    have token := variableToken?_append h (h.ends apart).isStop
    rw [← skipped] at token
    have none := variableNames_eq_nil behind solid silent
    refine ⟨rest, ?_, ?_, behind⟩
    · rw [variableNames_cons token, none, h.tail_eq]
    · rw [skipped] at suffix
      exact (List.suffix_append _ rest).trans suffix
  | more h _ ih =>
    obtain ⟨rest, skipped, suffix, apart, behind⟩ := laid.exists_skipGap h.isItem
    have token := variableToken?_append h (h.ends apart).isStop
    rw [← skipped] at token
    obtain ⟨final, others, inner, after⟩ := ih (List.cons_ne_nil _ _) behind
    refine ⟨final, ?_, ?_, after⟩
    · rw [variableNames_cons token, others, h.tail_eq]
    · rw [skipped] at suffix
      exact (inner.trans (List.suffix_append _ rest)).trans suffix

theorem chosen?_of_names {rest : List Char} (h : variableNames cs = (names, rest))
    (named : names ≠ []) (distinct : Bool) :
    chosen? distinct cs = some (⟨distinct, names⟩, rest) := by
  unfold chosen?
  split
  · rename_i more
    have none : variableToken? (skipGap ('*' :: more)) = none := by
      have solid : isGap '*' = false := by decide
      rw [skipGap, List.dropWhile_cons_of_neg (by simp [solid])]
      exact variableToken?_eq_none more (by decide) (by decide)
    rw [variableNames_nil none] at h
    exact absurd (Prod.mk.inj h).1.symm named
  · simp [h, named]

theorem chosen?_eq (h : ProjectionItems names items) (solid : IsItem item)
    (silent : ∀ c ∈ item.head?, isAsking c = false)
    (laid : LaidOut Blank Blank isBreak (items ++ item :: back) cs) (distinct : Bool) :
    ∃ rest, chosen? distinct (skipGap cs) = some (⟨distinct, names⟩, rest) ∧ rest <:+ cs ∧
      LaidOut Blank Blank isBreak (item :: back) rest := by
  have gap : skipGap cs <:+ cs := List.dropWhile_suffix isGap
  cases h with
  | all =>
    obtain ⟨rest, skipped, _, _, behind⟩ := laid.exists_skipGap (isItem_mark (by decide))
    rw [skipped] at gap ⊢
    exact ⟨rest, rfl, (List.suffix_append ['*'] rest).trans gap, behind⟩
  | one h =>
    have inner := laid.skipGap h.isItem
    obtain ⟨rest, found, suffix, behind⟩ :=
      variableNames_eq (.one h) (List.cons_ne_nil _ _) solid silent inner
    exact ⟨rest, chosen?_of_names found (List.cons_ne_nil _ _) distinct, suffix.trans gap, behind⟩
  | more h others =>
    have inner := laid.skipGap h.isItem
    obtain ⟨rest, found, suffix, behind⟩ :=
      variableNames_eq (.more h others) (List.cons_ne_nil _ _) solid silent inner
    exact ⟨rest, chosen?_of_names found (List.cons_ne_nil _ _) distinct, suffix.trans gap, behind⟩

end

theorem ProjectionItems.exists_cons {names : List String} {items : List (List Char)}
    (h : ProjectionItems names items) :
    ∃ item others, items = item :: others ∧ IsItem item ∧ ∀ c ∈ item.head?, isAsking c = true := by
  have variable_first {name : String} {text : List Char} (h : VariableText name text) :
      ∀ c ∈ text.head?, isAsking c = true := by
    cases h with
    | @var mark name marked _ _ =>
      have asking : isAsking mark = true := by
        rcases marked with rfl | rfl <;> decide
      exact forall_head?_cons asking name
  cases h with
  | all => exact ⟨['*'], [], rfl, isItem_mark (by decide), forall_head?_cons (by decide) []⟩
  | one h => exact ⟨_, [], rfl, h.isItem, variable_first h⟩
  | more h _ => exact ⟨_, _, rfl, h.isItem, variable_first h⟩

/-- The choice that is read is the one written. -/
theorem selectClause?_append {word rest item : List Char} {distinct : Bool} {names : List String}
    {first items back : List (List Char)} (spelled : Spells word "SELECT")
    (hu : DistinctItems distinct first) (hv : ProjectionItems names items) (solid : IsItem item)
    (silent : ∀ c ∈ item.head?, isAsking c = false)
    (laid : LaidOut Blank Blank isBreak (first ++ (items ++ item :: back)) rest)
    (ends : Ends isBreak rest) {before : Option Char} (clear : before.any touchesKeyword = false) :
    ∃ behind, selectClause? before (word ++ rest) = some (⟨distinct, names⟩, behind) ∧
      behind <:+ rest ∧ LaidOut Blank Blank isBreak (item :: back) behind := by
  have word_eq := keyword?_append spelled (by decide) clear ends.touchesKeyword
  rw [selectClause?_eq, word_eq, Option.bind_some]
  cases hu with
  | no =>
    obtain ⟨asked, others, rfl, visible, asking⟩ := hv.exists_cons
    obtain ⟨more, skipped, _⟩ := laid.exists_skipGap visible
    have plain : keyword? "DISTINCT" none (skipGap rest) = none := by
      obtain ⟨c, front, rfl, _⟩ := visible.exists_cons
      have mark : isAsking c = true := asking c rfl
      have letter : (upperChar c == 'D') = false :=
        eq_false_of_isAsking (p := fun c => upperChar c == 'D') (by decide) mark
      simp only [beq_eq_false_iff_ne] at letter
      rw [skipped]
      exact keyword?_eq_none (by rfl) letter none (front ++ more)
    rw [plain]
    exact chosen?_eq hv solid silent laid false
  | @yes second spelled =>
    obtain ⟨more, skipped, suffix, apart, behind⟩ :=
      laid.exists_skipGap (spelled.isItem (by decide) (by decide))
    have after := spelled.ends (by decide) apart
    have distinct_eq : keyword? "DISTINCT" none (skipGap rest) = some more := by
      rw [skipped]
      exact keyword?_append spelled (by decide) rfl after.touchesKeyword
    obtain ⟨final, found, inner, last⟩ := chosen?_eq hv solid silent behind true
    rw [distinct_eq]
    refine ⟨final, found, ?_, last⟩
    rw [skipped] at suffix
    exact (inner.trans (List.suffix_append second more)).trans suffix

/-- In a whole text the choice that is read is the one written. -/
theorem clauseIn?_selectClause? {declared : List (String × String)} {distinct : Bool}
    {names : List String} {word item cs : List Char}
    {declarations first items back : List (List Char)} (hd : DeclarationItems declared declarations)
    (spelled : Spells word "SELECT") (hu : DistinctItems distinct first)
    (hv : ProjectionItems names items) (solid : IsItem item)
    (silent : ∀ c ∈ item.head?, isAsking c = false)
    (laid : LaidOut Blank Blank isBreak
      (declarations ++ word :: (first ++ (items ++ item :: back))) cs) (tab : '\t' ∉ cs) :
    ∃ rest, clauseIn? selectClause? cs = some (⟨distinct, names⟩, rest) ∧ '\t' ∉ rest ∧
      LaidOut Blank Blank isBreak (item :: back) rest := by
  obtain ⟨front, afterWord, rfl, before, apart, behind⟩ := laid.exists_append
  have ends := spelled.ends (by decide) apart
  obtain ⟨character, clear, pass⟩ :=
    find?_selectClause?_append hd before clear_none (word ++ afterWord)
  obtain ⟨rest, choice, inner, after⟩ := selectClause?_append spelled hu hv solid silent behind ends
    clear
  have found : find? selectClause? none (front ++ (word ++ afterWord)) =
      some (⟨distinct, names⟩, rest) := by
    obtain ⟨c, word, rfl⟩ := spelled.exists_cons (by decide)
    rw [pass]
    exact find?_eq_some choice
  have outer : afterWord <:+ front ++ (word ++ afterWord) :=
    (List.suffix_append word afterWord).trans (List.suffix_append front _)
  have suffix := inner.trans outer
  exact ⟨rest, clauseIn?_eq_some tab found suffix, fun m => tab (suffix.subset m), after⟩

end Ontogram.Query
