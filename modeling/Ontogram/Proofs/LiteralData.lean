import Ontogram.Proofs.ClauseBeforeQuote

set_option autoImplicit false

namespace Ontogram.Query

open Text

/-- Two lists that are the same but for one element. -/
inductive ChangedOnce {α : Type} (r : α → α → Prop) : List α → List α → Prop
  | here {x y : α} {xs : List α} : r x y → ChangedOnce r (x :: xs) (y :: xs)
  | there {x : α} {xs ys : List α} : ChangedOnce r xs ys → ChangedOnce r (x :: xs) (x :: ys)

namespace ChangedOnce

section Lists

variable {α β : Type} {r : α → α → Prop} {r' : β → β → Prop} {xs ys : List α}

theorem append (front : List α) (h : ChangedOnce r xs ys) :
    ChangedOnce r (front ++ xs) (front ++ ys) := by
  induction front with
  | nil => exact h
  | cons x front ih => exact .there ih

theorem length_eq (h : ChangedOnce r xs ys) : xs.length = ys.length := by
  induction h with
  | here _ => rfl
  | there _ ih => exact congrArg Nat.succ ih

theorem isEmpty_eq (h : ChangedOnce r xs ys) : xs.isEmpty = false ∧ ys.isEmpty = false := by
  cases h <;> exact ⟨rfl, rfl⟩

theorem map {f : α → β} (shows : ∀ x y, r x y → r' (f x) (f y)) (h : ChangedOnce r xs ys) :
    ChangedOnce r' (xs.map f) (ys.map f) := by
  induction h with
  | here changed => exact .here (shows _ _ changed)
  | there _ ih => exact .there ih

theorem filter {p : α → Bool} (passes : ∀ x y, r x y → p x = true ∧ p y = true)
    (h : ChangedOnce r xs ys) : ChangedOnce r (xs.filter p) (ys.filter p) := by
  induction h with
  | here changed =>
    obtain ⟨old, new⟩ := passes _ _ changed
    rw [List.filter_cons_of_pos old, List.filter_cons_of_pos new]
    exact .here changed
  | @there x _ _ _ ih =>
    by_cases hx : p x = true
    · rw [List.filter_cons_of_pos hx, List.filter_cons_of_pos hx]
      exact .there ih
    · rwa [List.filter_cons_of_neg hx, List.filter_cons_of_neg hx]

/-- The change shows in what is made of the elements, or among those of which nothing is made. -/
theorem filterMap {f : α → Option β}
    (shows : ∀ x y, r x y → (∃ a b, f x = some a ∧ f y = some b ∧ r' a b) ∨ f x = none ∧ f y = none)
    (h : ChangedOnce r xs ys) :
    (ChangedOnce r' (xs.filterMap f) (ys.filterMap f) ∧
        xs.filter (fun x => (f x).isNone) = ys.filter fun x => (f x).isNone) ∨
      (xs.filterMap f = ys.filterMap f ∧
        ChangedOnce r (xs.filter fun x => (f x).isNone) (ys.filter fun x => (f x).isNone)) := by
  induction h with
  | here changed =>
    rcases shows _ _ changed with ⟨a, b, old, new, made⟩ | ⟨old, new⟩
    · rw [List.filterMap_cons_some old, List.filterMap_cons_some new,
        List.filter_cons_of_neg (by simp [old]), List.filter_cons_of_neg (by simp [new])]
      exact Or.inl ⟨.here made, rfl⟩
    · rw [List.filterMap_cons_none old, List.filterMap_cons_none new,
        List.filter_cons_of_pos (by simp [old]), List.filter_cons_of_pos (by simp [new])]
      exact Or.inr ⟨rfl, .here changed⟩
  | @there x _ _ _ ih =>
    cases made : f x with
    | none =>
      rw [List.filterMap_cons_none made, List.filterMap_cons_none made,
        List.filter_cons_of_pos (by simp [made]), List.filter_cons_of_pos (by simp [made])]
      exact ih.imp (fun h => ⟨h.1, congrArg (x :: ·) h.2⟩) fun h => ⟨h.1, .there h.2⟩
    | some a =>
      rw [List.filterMap_cons_some made, List.filterMap_cons_some made,
        List.filter_cons_of_neg (by simp [made]), List.filter_cons_of_neg (by simp [made])]
      exact ih.imp (fun h => ⟨.there h.1, h.2⟩) fun h => ⟨congrArg (a :: ·) h.1, h.2⟩

end Lists

/-! Statements. -/

variable {r : List Char → List Char → Prop} {tokens tokens' : List (List Char)}

theorem consFirst {ss ss' : List (List (List Char))} (token : List Char)
    (h : ChangedOnce (ChangedOnce r) ss ss') :
    ChangedOnce (ChangedOnce r) (Query.consFirst token ss) (Query.consFirst token ss') := by
  cases h with
  | here changed => exact .here (.there changed)
  | there changed => exact .there changed

/-- A token that is changed is changed in one statement. -/
theorem statements (dotless : ∀ t u, r t u → t ≠ ['.'] ∧ u ≠ ['.'])
    (h : ChangedOnce r tokens tokens') :
    ChangedOnce (ChangedOnce r) (Query.statements tokens) (Query.statements tokens') := by
  induction h with
  | @here t u rest changed =>
    obtain ⟨old, new⟩ := dotless t u changed
    rw [Query.statements, Query.statements, if_neg old, if_neg new]
    cases Query.statements rest with
    | nil => exact .here (.here changed)
    | cons first others => exact .here (.here changed)
  | @there t rest rest' _ ih =>
    rw [Query.statements, Query.statements]
    split
    · exact .there ih
    · exact ih.consFirst t

end ChangedOnce

theorem patternOf?_of_length {s : List (List Char)} (h : s.length = 3) :
    ∃ p, patternOf? s = some p ∧ p.terms = s.map termOf := by
  obtain ⟨a, b, c, rfl⟩ := List.length_eq_three.1 h
  exact ⟨_, rfl, rfl⟩

theorem patternOf?_eq_none {s : List (List Char)} (h : s.length ≠ 3) : patternOf? s = none := by
  rw [patternOf?]
  rintro a b c rfl
  exact h rfl

/-- A changed token changes one term of one pattern, or belongs to a statement that is dropped. -/
theorem ChangedOnce.parsedOf {r : List Char → List Char → Prop}
    {r' : PatternTerm → PatternTerm → Prop} {tokens tokens' : List (List Char)}
    (dotless : ∀ t u, r t u → t ≠ ['.'] ∧ u ≠ ['.'])
    (terms : ∀ t u, r t u → r' (termOf t) (termOf u)) (h : ChangedOnce r tokens tokens')
    (prefixes : Table String) (choice : Choice) (limit : Option Nat) :
    let p := Query.parsedOf prefixes choice tokens limit
    let q := Query.parsedOf prefixes choice tokens' limit
    (ChangedOnce (fun p q => ChangedOnce r' p.terms q.terms) p.query.patterns q.query.patterns ∧
        p.dropped = q.dropped) ∨
      (p.query.patterns = q.query.patterns ∧
        ChangedOnce (ChangedOnce fun t u => r t.toList u.toList) p.dropped q.dropped) := by
  intro p q
  have shows (s s' : List (List Char)) (changed : ChangedOnce r s s') :
      (∃ p q, patternOf? s = some p ∧ patternOf? s' = some q ∧
          ChangedOnce r' p.terms q.terms) ∨ patternOf? s = none ∧ patternOf? s' = none := by
    by_cases three : s.length = 3
    · obtain ⟨p, read, made⟩ := patternOf?_of_length three
      obtain ⟨q, read', made'⟩ := patternOf?_of_length (changed.length_eq ▸ three)
      exact Or.inl ⟨p, q, read, read', by rw [made, made']; exact changed.map terms⟩
    · exact Or.inr ⟨patternOf?_eq_none three, patternOf?_eq_none (changed.length_eq ▸ three)⟩
  have nonempty := (h.statements dotless).filter (p := fun s => !s.isEmpty) fun s s' changed => by
    simp [changed.isEmpty_eq]
  rcases nonempty.filterMap shows with ⟨patterns, dropped⟩ | ⟨patterns, dropped⟩
  · exact Or.inl ⟨patterns, congrArg (List.map (List.map String.ofList)) dropped⟩
  · refine Or.inr ⟨patterns, dropped.map fun s s' changed => changed.map fun t u shown => ?_⟩
    rwa [String.toList_ofList, String.toList_ofList]

/-! The literal. -/

/-- The tag or datatype at the front of a text, if there is one, and what follows it. -/
def markAt (back : List Char) : List Char × List Char :=
  ((languageMark? back).or (typeMark? back)).getD ([], back)

section Literal

variable {value : List Char} (quotable : IsQuotable value)
include quotable

theorem quotedText?_inQuotes (back : List Char) :
    quotedText? (inQuotes value back) = some ('"' :: (value ++ ['"']), back) := by
  rw [inQuotes, quotedText?, quotable.tail_append]
  rfl

theorem literal?_inQuotes (back : List Char) :
    literal? (inQuotes value back) = some (inQuotes value (markAt back).1, (markAt back).2) := by
  rw [literal?, marked?, quotedText?_inQuotes quotable, markAt]
  cases mark : (languageMark? back).or (typeMark? back) <;> simp [inQuotes, mark]

theorem lexeme?_inQuotes (back : List Char) :
    (bracketed? (inQuotes value back)).or (literal? (inQuotes value back)) =
      some (inQuotes value (markAt back).1, (markAt back).2) := by
  have unbracketed : bracketed? (inQuotes value back) = none := bracketed?_eq_none (by decide)
  rw [unbracketed, Option.none_or, literal?_inQuotes quotable]

theorem stripComments_inQuotes (back : List Char) : stripComments (inQuotes value back) =
    inQuotes value ((markAt back).1 ++ stripComments (markAt back).2) := by
  rw [stripComments_kept (lexeme?_inQuotes quotable back), inQuotes_append]

theorem tokensOf_inQuotes (back : List Char) : tokensOf (inQuotes value back) =
    inQuotes value (markAt back).1 :: tokensOf (markAt back).2 := by
  have read : lexeme? (inQuotes value back) =
      some (inQuotes value (markAt back).1, (markAt back).2) := by
    have unbracketed : bracketed? (inQuotes value back) = none := bracketed?_eq_none (by decide)
    rw [lexeme?, unbracketed, Option.none_or, literal?_inQuotes quotable, Option.some_or]
  have visible : isBlank '"' = false := by decide
  rw [inQuotes] at read ⊢
  rw [tokenizes.visible _ _ visible, cut_eq_lexeme, read]

/-- The value of a literal is what stands between its quotes, and its mark says the rest. -/
theorem termOf_inQuotes (mark : List Char) : termOf (inQuotes value mark) =
    .literal
      { literalOf (inQuotes [] mark) with value := String.ofList (unescapeQuotes value) } := by
  have body : ('"' :: (value ++ ['"'])).tail.dropLast = value := by
    rw [List.tail_cons, List.dropLast_concat]
  have empty : quotedText? (inQuotes [] mark) = some (['"', '"'], mark) :=
    quotedText?_inQuotes (isQuotable_of_notMem (by simp) (by simp)) mark
  have literal : termOf (inQuotes value mark) = .literal (literalOf (inQuotes value mark)) := by
    rw [inQuotes, termOf]
  rw [literal, literalOf, literalOf, quotedText?_inQuotes quotable, empty]
  simp only [body]
  split <;> rfl

end Literal

/-! The place of a literal. -/

/-- A quoted literal that is a term of a query: the parts of the query around it, as its clauses are
found, and the scans of comments and of tokens come to its opening quote. -/
structure LiteralPlace (front value back : List Char) where
  choice : Choice
  /-- What stands between the choice of variables and the literal. -/
  room : List Char
  /-- What stands in the block in front of the literal. -/
  body : List Char
  /-- What stands behind the literal, without comments. -/
  behind : List Char
  /-- What stands in the block behind the literal. -/
  rest : List Char
  /-- What stands behind the block. -/
  tail : List Char
  quotable : IsQuotable value
  comments : Reaches passKept (front ++ inQuotes value back) (inQuotes value back)
  strip : stripComments (inQuotes value back) = inQuotes value behind
  select : clauseIn? selectClause? (stripComments (front ++ inQuotes value back)) =
    some (choice, room ++ inQuotes value behind)
  block : find? blockClause? none (expandTabs (room ++ inQuotes value behind)) =
    some (body ++ inQuotes value rest, tail)
  split : expandTabs behind = rest ++ '\x7d' :: tail
  tokens : Reaches passToken (body ++ inQuotes value rest) (inQuotes value rest)

namespace LiteralPlace

variable {front value back : List Char}

/-- Nothing runs into the literal: no angle bracket is open in front of it, no tab stands between
its quotes or behind it in its line, and no prefix declaration starts between its quotes. -/
structure IsClear (place : LiteralPlace front value back) : Prop where
  bracket : opens front = false
  tab : '\t' ∉ value
  line : '\t' ∉ firstLine place.behind
  undeclared : declaresIn (some '"') ('"' :: place.behind) value = false

/-- From each brace in front of the literal, up to the one that opens its block, the scan of braces
comes to the opening quote. -/
def BracesReach (place : LiteralPlace front value back) (other : List Char) : Prop :=
  ∀ front, place.body <:+ front → '\x7b' :: front <:+ expandTabs place.room →
    Reaches passBrace (front ++ inQuotes other (expandTabs place.behind))
      (inQuotes other (expandTabs place.behind))

/-- The scan of braces makes no difference between the value and another. -/
inductive BracesAgree (place : LiteralPlace front value back) (other : List Char) : Prop
  /-- It comes to the opening quote and reads the literal as a quoted text. Of an empty literal that
  does not show for another value. -/
  | read (closed : (quotedRest? (inQuotes value (expandTabs place.behind))).isSome = true)
      (reach : place.BracesReach value) (fresh : value = [] → place.BracesReach other)
  /-- There is nothing for it to look at. -/
  | inert (nonempty : value ≠ [] ∧ other ≠ []) (values : IsInertValue value ∧ IsInertValue other)

variable {place : LiteralPlace front value back}

theorem BracesAgree.alike {other : List Char} (h : place.BracesAgree other)
    (plain : IsPlainValue other) : BracesAlike (fun v => v = value ∨ v = other)
      (expandTabs place.room) place.body (expandTabs place.behind) := by
  intro room suffix brace
  cases h with
  | read closed reach fresh =>
    have unbroken := isUnbroken_of_closed place.quotable closed
    have fresh : Reaches passBrace (room ++ inQuotes other (expandTabs place.behind))
        (inQuotes other (expandTabs place.behind)) := by
      by_cases empty : value = []
      · exact fresh empty room suffix brace
      · exact (reach room suffix brace).requoted empty place.quotable unbroken plain
    refine closedAlike_of_reaches (Or.inl rfl) (fun depth => ?_) ?_ 1
    · obtain ⟨result, same⟩ := exists_closeBraces_inQuotes unbroken closed depth
      refine ⟨result, ?_⟩
      rintro v (rfl | rfl)
      · exact same v unbroken
      · exact same v plain.isUnbroken
    · rintro v (rfl | rfl)
      · exact reach room suffix brace
      · exact fresh
  | inert nonempty values =>
    refine (closedAlike_of_isInertValue _ room 1).mono ?_
    rintro v (rfl | rfl)
    · exact ⟨nonempty.1, values.1⟩
    · exact ⟨nonempty.2, values.2⟩

/-- Without the comments of its text the literal stands behind the same front for every value. -/
theorem IsClear.exists_kept (clear : place.IsClear) : ∃ kept, opens kept = false ∧
    ∀ other, IsQuotable other →
      stripComments (front ++ inQuotes other back) = kept ++ inQuotes other place.behind := by
  obtain ⟨kept, state, strip⟩ := keptInFront place.quotable clear.bracket place.comments
  have behind : (markAt back).1 ++ stripComments (markAt back).2 = place.behind := by
    have same := (stripComments_inQuotes place.quotable back).symm.trans place.strip
    simpa [inQuotes] using same
  refine ⟨kept, (state false).trans clear.bracket, fun other quotable => ?_⟩
  rw [inQuotes, strip, ← inQuotes, stripComments_inQuotes quotable, behind]

theorem length_expandTabs_inQuotes (other : List Char) :
    (expandTabs place.room ++ inQuotes other (expandTabs place.behind)).length =
      (expandTabs place.room).length + other.length + place.rest.length + 3 +
        place.tail.length := by
  simp only [inQuotes, place.split, List.length_append, List.length_cons]
  omega

/-- What is left behind the block does not depend on the value. -/
theorem drop_inQuotes (other : List Char) :
    (place.room ++ inQuotes other place.behind).drop
        ((expandTabs place.room ++ inQuotes other (expandTabs place.behind)).length -
          place.tail.length) =
      place.behind.drop ((expandTabs place.room).length - place.room.length +
        place.rest.length + 1) := by
  have longer := length_le_expandTabs place.room
  have text : place.room ++ inQuotes other place.behind =
      (place.room ++ '"' :: (other ++ ['"'])) ++ place.behind := by simp [inQuotes]
  have cut : (expandTabs place.room ++ inQuotes other (expandTabs place.behind)).length -
      place.tail.length = (place.room ++ '"' :: (other ++ ['"'])).length +
        ((expandTabs place.room).length - place.room.length + place.rest.length + 1) := by
    rw [length_expandTabs_inQuotes]
    simp only [List.length_append, List.length_cons, List.length_nil]
    omega
  rw [text, cut, List.drop_length_add_append]

/-- The clauses around the literal are the same for all values of a class which the scan of braces
treats alike. -/
theorem IsClear.exists_clauses (clear : place.IsClear) {p : List Char → Prop} (own : p value)
    (alike : BracesAlike p (expandTabs place.room) place.body (expandTabs place.behind)) :
    ∃ kept tokens left, opens kept = false ∧
    ∀ other, p other → IsQuotable other → '\t' ∉ other →
      stripComments (front ++ inQuotes other back) = kept ++ inQuotes other place.behind ∧
      clauses clauseIn? (kept ++ inQuotes other place.behind) =
        .ok (place.choice,
          tokens ++ inQuotes other (markAt place.rest).1 :: tokensOf (markAt place.rest).2,
          (clauseIn? limitClause? left).map Prod.fst) := by
  obtain ⟨kept, closed, strip⟩ := clear.exists_kept
  have select := place.select
  rw [strip value place.quotable] at select
  have block := place.block
  rw [expandTabs_inQuotes clear.tab clear.line] at block
  obtain ⟨within, -⟩ := clauseIn?_selectClause?_inQuotes clear.tab clear.tab clear.line select
  have found (other : List Char) (hp : p other) :=
    find?_blockClause?_inQuotes own hp alike place.split block
  have closed' : opens place.body = false := by
    have room := opens_of_suffix closed within
    rw [opens, ← foldl_opensAfter_expandFrom place.room 0] at room
    exact opens_of_suffix room (found value own).1
  obtain ⟨tokens, read⟩ := exists_tokensOf_front place.quotable closed' place.tokens
  refine ⟨kept, tokens, place.behind.drop ((expandTabs place.room).length - place.room.length +
    place.rest.length + 1), closed, fun other hp quotable tab => ⟨strip other quotable, ?_⟩⟩
  have choice := (clauseIn?_selectClause?_inQuotes clear.tab tab clear.line select).2
  have body : clauseIn? blockClause? (place.room ++ inQuotes other place.behind) =
      some (place.body ++ inQuotes other place.rest, place.behind.drop
        ((expandTabs place.room).length - place.room.length + place.rest.length + 1)) := by
    rw [clauseIn?, expandTabs_inQuotes tab clear.line]
    simp only [(found other hp).2, Option.map_some, drop_inQuotes]
  have literal : tokensOf (place.body ++ inQuotes other place.rest) =
      tokens ++ inQuotes other (markAt place.rest).1 :: tokensOf (markAt place.rest).2 := by
    rw [← tokensOf_inQuotes quotable, inQuotes, read]
  simp only [clauses, choice, body, literal]

end LiteralPlace

/-- Two tokens that are a literal with one value and with another. -/
def Requoted (old new t u : List Char) : Prop :=
  ∃ mark, t = inQuotes old mark ∧ u = inQuotes new mark

/-- Two terms that are a literal with some value and with a given one. -/
def Revalued (value : String) (t u : PatternTerm) : Prop :=
  ∃ l : Literal, t = .literal l ∧ u = .literal { l with value := value }

theorem Requoted.ne_dot {old new t u : List Char} (h : Requoted old new t u) :
    t ≠ ['.'] ∧ u ≠ ['.'] := by
  obtain ⟨mark, rfl, rfl⟩ := h
  simp [inQuotes]

theorem Requoted.termOf {old new t u : List Char} (quotable : IsQuotable old)
    (plain : IsPlainValue new) (h : Requoted old new t u) :
    Revalued (String.ofList new) (termOf t) (termOf u) := by
  obtain ⟨mark, rfl, rfl⟩ := h
  have slash : '\\' ∉ new := plain.notMem (by decide)
  have same := termOf_inQuotes plain.isQuotable mark
  rw [unescapeQuotes_eq slash] at same
  exact ⟨_, termOf_inQuotes quotable mark, same⟩

/-- Two queries that are the same but for the value of one literal. The literal is a term of a
pattern or belongs to a dropped statement. -/
structure DifferInValue (old new : List Char) (p q : Parsed) : Prop where
  prefixes : q.query.prefixes = p.query.prefixes
  projection : q.query.projection = p.query.projection
  distinct : q.query.distinct = p.query.distinct
  limit : q.query.limit = p.query.limit
  literal :
    (ChangedOnce (fun p q => ChangedOnce (Revalued (String.ofList new)) p.terms q.terms)
        p.query.patterns q.query.patterns ∧ p.dropped = q.dropped) ∨
      (p.query.patterns = q.query.patterns ∧
        ChangedOnce (ChangedOnce fun t u => Requoted old new t.toList u.toList) p.dropped q.dropped)

/-- Another value for a literal leaves a query as it is but for that value, where nothing runs into
the literal and no prefix declaration starts in the new value either: its prefixes, its variables,
its limit and all other terms of its patterns. -/
theorem parse_requoted (surroundings : List (String × String)) {front old new back : List Char}
    (place : LiteralPlace front old back) (clear : place.IsClear) (plain : IsPlainValue new)
    (undeclared : declaresIn (some '"') ('"' :: place.behind) new = false)
    (braces : place.BracesAgree new) :
    ∃ p q, parse surroundings (String.ofList (front ++ inQuotes old back)) = .ok p ∧
      parse surroundings (String.ofList (front ++ inQuotes new back)) = .ok q ∧
      DifferInValue old new p q := by
  obtain ⟨kept, tokens, left, closed, each⟩ :=
    clear.exists_clauses (Or.inl rfl) (braces.alike plain)
  have read (value : List Char) (hv : value = old ∨ value = new) (quotable : IsQuotable value)
      (tab : '\t' ∉ value)
      (undeclared : declaresIn (some '"') ('"' :: place.behind) value = false) :
      parse surroundings (String.ofList (front ++ inQuotes value back)) =
        .ok (parsedOf (prefixesOf surroundings (kept ++ inQuotes [] place.behind)) place.choice
          (tokens ++ inQuotes value (markAt place.rest).1 :: tokensOf (markAt place.rest).2)
          ((clauseIn? limitClause? left).map Prod.fst)) := by
    obtain ⟨strip, clauses⟩ := each value hv quotable tab
    -- The declarations are those of the query without the value.
    have prefixes : prefixesOf surroundings (kept ++ inQuotes value place.behind) =
        prefixesOf surroundings (kept ++ inQuotes [] place.behind) := by
      rw [prefixesOf, prefixesOf, prefixClauses_expandTabs, prefixClauses_expandTabs,
        prefixClauses_inQuotes closed undeclared]
    rw [parse_eq_clauses, String.toList_ofList, strip, clauses, prefixes]
    rfl
  have changed : ChangedOnce (Requoted old new)
      (tokens ++ inQuotes old (markAt place.rest).1 :: tokensOf (markAt place.rest).2)
      (tokens ++ inQuotes new (markAt place.rest).1 :: tokensOf (markAt place.rest).2) :=
    .append tokens (.here ⟨_, rfl, rfl⟩)
  refine ⟨_, _, read old (Or.inl rfl) place.quotable clear.tab clear.undeclared,
    read new (Or.inr rfl) plain.isQuotable (plain.notMem (by decide)) undeclared,
    rfl, rfl, rfl, rfl, ?_⟩
  exact changed.parsedOf (fun _ _ h => h.ne_dot) (fun _ _ h => h.termOf place.quotable plain) _ _ _

/-! A query for all that has a remark. -/

deriving instance DecidableEq for Choice

def remarkPlace : LiteralPlace "SELECT ?s \x7b ?s ?p ".toList "old".toList
    "@en . ?s ?q ?o \x7d LIMIT 5".toList where
  choice := ⟨false, ["s"]⟩
  room := " \x7b ?s ?p ".toList
  body := " ?s ?p ".toList
  behind := "@en . ?s ?q ?o \x7d LIMIT 5".toList
  rest := "@en . ?s ?q ?o ".toList
  tail := " LIMIT 5".toList
  quotable := isQuotable_of_notMem (by decide +kernel) (by decide +kernel)
  comments := ⟨18, by decide +kernel⟩
  strip := by decide +kernel
  select := by decide +kernel
  block := by decide +kernel
  split := by decide +kernel
  tokens := ⟨5, by decide +kernel⟩

theorem isClear_remarkPlace : remarkPlace.IsClear where
  bracket := by decide +kernel
  tab := by decide +kernel
  line := by decide +kernel
  undeclared := by decide +kernel

/-- The block is the only brace in front of the remark, and its scan comes to the quote. -/
theorem bracesAgree_remarkPlace (new : List Char) : remarkPlace.BracesAgree new := by
  refine .read (by decide +kernel) ?_ fun empty => absurd empty (by decide +kernel)
  intro front _ brace
  have only : ∀ t ∈ (expandTabs remarkPlace.room).tails, t.head? = some '\x7b' →
      t = '\x7b' :: remarkPlace.body := by decide +kernel
  have own := only _ ((List.mem_tails _ _).2 brace) rfl
  rw [(List.cons.inj own).2]
  exact ⟨7, by decide +kernel⟩

/-- Braces, a hash sign, brackets and keywords are nothing special in a remark. -/
theorem parse_requoted_remark :
    let front := "SELECT ?s \x7b ?s ?p ".toList
    let new := "SELECT ?x \x7b # <b> \x7d LIMIT 9 PREFIX".toList
    let back := "@en . ?s ?q ?o \x7d LIMIT 5".toList
    remarkPlace.IsClear ∧ IsPlainValue new ∧
      declaresIn (some '"') ('"' :: remarkPlace.behind) new = false ∧
      remarkPlace.BracesAgree new ∧
      ∃ p q, parse [] (String.ofList (front ++ inQuotes "old".toList back)) = .ok p ∧
        parse [] (String.ofList (front ++ inQuotes new back)) = .ok q ∧
        DifferInValue "old".toList new p q := by
  intro front new back
  have plain : IsPlainValue new := by
    unfold IsPlainValue
    decide +kernel
  have undeclared : declaresIn (some '"') ('"' :: remarkPlace.behind) new = false := by
    decide +kernel
  exact ⟨isClear_remarkPlace, plain, undeclared, bracesAgree_remarkPlace new,
    parse_requoted [] remarkPlace isClear_remarkPlace plain undeclared
      (bracesAgree_remarkPlace new)⟩

/-- A prefix declaration between the quotes of a literal counts as one of the query. -/
theorem parse_requoted_ne :
    ¬ ∀ (surroundings : List (String × String)) (front old new back : List Char),
      LiteralPlace front old back → IsPlainValue new → '\x7b' ∉ new → '\x7d' ∉ new →
      (parse surroundings (String.ofList (front ++ inQuotes new back))).toOption.map
          (fun p => p.query.prefixes) =
        (parse surroundings (String.ofList (front ++ inQuotes old back))).toOption.map
          fun p => p.query.prefixes := by
  intro claim
  have plain : IsPlainValue "PREFIX rdf: <http://e/>".toList := by
    unfold IsPlainValue
    decide +kernel
  have same := claim [] _ _ _ _ remarkPlace plain (by decide +kernel) (by decide +kernel)
  have names := congrArg (Option.map fun prefixes => prefixes.get? "rdf") same
  rw [Option.map_map, Option.map_map] at names
  have declared : (parse [] (String.ofList ("SELECT ?s \x7b ?s ?p ".toList ++
      inQuotes "PREFIX rdf: <http://e/>".toList "@en . ?s ?q ?o \x7d LIMIT 5".toList))).toOption.map
        (fun p => p.query.prefixes.get? "rdf") = some (some "http://e/") := by decide +kernel
  have standard : (parse [] (String.ofList ("SELECT ?s \x7b ?s ?p ".toList ++
      inQuotes "old".toList "@en . ?s ?q ?o \x7d LIMIT 5".toList))).toOption.map
        (fun p => p.query.prefixes.get? "rdf") = some (some (Namespace.rdf)) := by decide +kernel
  have equal := declared.symm.trans (names.trans standard)
  exact absurd equal (by decide +kernel)

end Ontogram.Query
