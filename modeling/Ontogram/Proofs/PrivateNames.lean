import Ontogram.Proofs.LiteralData
import Ontogram.Query.Frame

set_option autoImplicit false

namespace Ontogram.Query

open Text

/-- What the scan of comments keeps at once starts with a bracket or a quote. -/
theorem exists_cons_of_kept {cs kept rest : List Char}
    (h : (bracketed? cs).or (literal? cs) = some (kept, rest)) :
    ∃ c inner, kept = c :: inner ∧ (c = '<' ∨ c = '"') := by
  obtain ⟨text, filled⟩ := takes_or takes_bracketed takes_literal _ _ _ h
  obtain ⟨c, inner, rfl⟩ := List.exists_cons_of_ne_nil filled
  refine ⟨c, inner, rfl, ?_⟩
  by_contra other
  obtain ⟨left, quote⟩ := not_or.1 other
  rw [← text, List.cons_append, bracketed?_eq_none left, literal?_eq_none quote] at h
  cases h

/-- Induction along the scan of comments. -/
theorem passKept_induction {motive : List Char → Prop} (nil : motive [])
    (cons : ∀ c cs, motive (passKept (c :: cs)) → motive (c :: cs)) (cs : List Char) :
    motive cs := by
  induction length : cs.length using Nat.strong_induction_on generalizing cs with
  | _ k ih =>
  subst length
  cases cs with
  | nil => exact nil
  | cons c cs =>
    have shorter := (advances_passKept (c :: cs)).length_le
    exact cons c cs (ih _ (Nat.lt_succ_of_le shorter) _ rfl)

theorem head?_stripComments (cs : List Char) : (stripComments cs).head? ≠ some '#' := by
  induction cs using passKept_induction with
  | nil => simp [stripComments]
  | cons c cs ih =>
    cases read : (bracketed? (c :: cs)).or (literal? (c :: cs)) with
    | some found =>
      obtain ⟨d, inner, kept, marks⟩ := exists_cons_of_kept read
      rw [stripComments_kept read, kept, List.cons_append, List.head?_cons]
      rcases marks with rfl | rfl <;> decide
    | none =>
      rw [passKept_cons read] at ih
      rw [stripComments_cons read]
      by_cases hash : c = '#'
      · rwa [if_pos hash] at ih ⊢
      · rw [if_neg hash, List.head?_cons]
        exact fun same => hash (Option.some.inj same)

/-- The IRIs and literals that the scan of comments comes to and keeps, each with what follows
it. -/
def Keeps (cs kept rest : List Char) : Prop :=
  ∃ n, (bracketed? (passKept^[n] cs)).or (literal? (passKept^[n] cs)) = some (kept, rest)

theorem Keeps.step {cs kept rest : List Char} (h : Keeps (passKept cs) kept rest) :
    Keeps cs kept rest := by
  obtain ⟨n, read⟩ := h
  exact ⟨n + 1, read⟩

theorem Keeps.isInfix {cs kept rest : List Char} (h : Keeps cs kept rest) : kept <:+: cs := by
  obtain ⟨n, read⟩ := h
  obtain ⟨text, -⟩ := takes_or takes_bracketed takes_literal _ _ _ read
  have left : passKept^[n] cs <:+ cs := advances_passKept.suffix_iterate n cs
  have front : kept <+: passKept^[n] cs := ⟨rest, text⟩
  exact front.isInfix.trans left.isInfix

/-- A hash sign that outlives the comments stands in an IRI or a literal, and with it the character
in front of it. -/
theorem exists_keeps_of_suffix {cs behind : List Char} {c : Char}
    (h : c :: '#' :: behind <:+ stripComments cs) : ∃ front back rest,
    Keeps cs (front ++ c :: '#' :: back) rest ∧ behind = back ++ stripComments rest := by
  induction cs using passKept_induction with
  | nil => simp [stripComments] at h
  | cons d cs ih =>
    have later (within : c :: '#' :: behind <:+ stripComments (passKept (d :: cs))) :
        ∃ front back rest, Keeps (d :: cs) (front ++ c :: '#' :: back) rest ∧
          behind = back ++ stripComments rest := by
      obtain ⟨front, back, rest, keeps, text⟩ := ih within
      exact ⟨front, back, rest, keeps.step, text⟩
    cases read : (bracketed? (d :: cs)).or (literal? (d :: cs)) with
    | some found =>
      obtain ⟨kept, rest⟩ := found
      rw [passKept_kept read] at later
      rw [stripComments_kept read] at h
      obtain ⟨front, text⟩ := h
      rcases List.append_eq_append_iff.1 text with ⟨inner, kept_eq, beyond⟩ | ⟨inner, -, within⟩
      · -- Neither the hash sign nor the character in front of it starts what follows.
        cases inner with
        | nil => exact later ⟨[], beyond⟩
        | cons e inner =>
          obtain ⟨rfl, tail⟩ := List.cons.inj beyond
          cases inner with
          | nil =>
            have whole : '#' :: behind = stripComments rest := tail
            exact absurd (whole ▸ rfl) (head?_stripComments rest)
          | cons hash back =>
            obtain ⟨rfl, ends⟩ := List.cons.inj tail
            exact ⟨front, back, rest, ⟨0, kept_eq ▸ read⟩, ends⟩
      · exact later ⟨inner, within.symm⟩
    | none =>
      rw [passKept_cons read] at later
      rw [stripComments_cons read] at h
      by_cases hash : d = '#'
      · rw [if_pos hash] at h later
        exact later h
      · rw [if_neg hash] at h later
        rcases List.suffix_cons_iff.1 h with whole | within
        · have tail : '#' :: behind = stripComments cs := (List.cons.inj whole).2
          exact absurd (tail ▸ rfl) (head?_stripComments cs)
        · exact later within

/-! Tab stops. -/

theorem suffix_of_replicate {c d : Char} (apart : c ≠ d) {cs rest : List Char} {n : Nat}
    (h : c :: cs <:+ List.replicate n d ++ rest) : c :: cs <:+ rest := by
  induction n with
  | zero => exact h
  | succ n ih =>
    rw [List.replicate_succ, List.cons_append] at h
    rcases List.suffix_cons_iff.1 h with whole | within
    · exact absurd (List.cons.inj whole).1 apart
    · exact ih within

/-- What ends a text with tab stops, and starts with no blank, is the end of the text. -/
theorem exists_suffix_of_expandFrom {c : Char} (solid : c ≠ ' ') {column : Nat}
    {cs behind : List Char} (h : c :: behind <:+ expandFrom column cs) :
    ∃ place rest, c :: rest <:+ cs ∧ c :: behind = expandFrom place (c :: rest) := by
  induction cs generalizing column with
  | nil => simp [expandFrom] at h
  | cons d cs ih =>
    have later {next : Nat} (within : c :: behind <:+ expandFrom next cs) :
        ∃ place rest, c :: rest <:+ d :: cs ∧ c :: behind = expandFrom place (c :: rest) := by
      obtain ⟨place, rest, suffix, text⟩ := ih within
      exact ⟨place, rest, suffix.trans (List.suffix_cons d cs), text⟩
    have here (next : Nat) (tab : d ≠ '\t')
        (step : expandFrom column (d :: cs) = d :: expandFrom next cs) :
        ∃ place rest, c :: rest <:+ d :: cs ∧ c :: behind = expandFrom place (c :: rest) := by
      rw [step] at h
      rcases List.suffix_cons_iff.1 h with whole | within
      · obtain ⟨rfl, -⟩ := List.cons.inj whole
        exact ⟨column, cs, List.suffix_rfl, whole.trans step.symm⟩
      · exact later within
    by_cases tab : d = '\t'
    · rw [expandFrom, if_pos tab] at h
      exact later (suffix_of_replicate solid h)
    · by_cases line : d = '\n' ∨ d = '\r'
      · exact here 0 tab (by rw [expandFrom, if_neg tab, if_pos line])
      · exact here (column + 1) tab (by rw [expandFrom, if_neg tab, if_neg line])

/-- No tab becomes a hash sign. -/
theorem exists_of_expandFrom_hash {column : Nat} {cs behind : List Char}
    (h : expandFrom column cs = '#' :: behind) : ∃ rest, cs = '#' :: rest := by
  cases cs with
  | nil => cases h
  | cons d cs =>
    rw [expandFrom] at h
    split at h
    · have some : 8 - column % 8 ≠ 0 := by omega
      obtain ⟨n, width⟩ := Nat.exists_eq_succ_of_ne_zero some
      simp only [width, List.replicate_succ, List.cons_append] at h
      cases h
    · split at h <;> exact ⟨cs, by rw [(List.cons.inj h).1]⟩

/-! Tokens. -/

/-- The mark of a variable stands inside an IRI or a literal which the scan of comments keeps, in
front of a hash sign, and the name is read from there. It may well go on behind what is kept. -/
def StandsInKept (cs : List Char) (mark : Char) (name : List Char) : Prop :=
  (mark = '?' ∨ mark = '$') ∧ ∃ front back rest column,
    Keeps cs (front ++ mark :: '#' :: back) rest ∧ front ≠ [] ∧
      mark :: name <+: expandFrom column (mark :: '#' :: (back ++ stripComments rest))

theorem standsInKept_of_mem_tokensOf {cs text body rest name : List Char} {mark : Char}
    (suffix : text <:+ stripComments cs)
    (block : find? blockClause? none (expandTabs text) = some (body, rest))
    (marked : mark = '?' ∨ mark = '$') (h : mark :: '#' :: name ∈ tokensOf body) :
    StandsInKept cs mark ('#' :: name) := by
  have solid : mark ≠ ' ' := by rcases marked with rfl | rfl <;> decide
  obtain ⟨behind, within⟩ := tokenizes.exists_suffix_of_mem h
  have inside : mark :: ('#' :: (name ++ (behind ++ '\x7d' :: rest))) <:+ expandTabs text := by
    obtain ⟨front, body_eq⟩ := within
    have whole := suffix_of_find?_blockClause? block
    rw [← body_eq] at whole
    refine List.IsSuffix.trans ⟨'\x7b' :: front, ?_⟩ whole
    simp
  obtain ⟨column, after, ends, shown⟩ := exists_suffix_of_expandFrom solid inside
  have next : ∃ column', expandFrom column (mark :: after) = mark :: expandFrom column' after := by
    rcases marked with rfl | rfl <;> exact ⟨column + 1, rfl⟩
  obtain ⟨column', step⟩ := next
  rw [step] at shown
  obtain ⟨after, rfl⟩ := exists_of_expandFrom_hash (List.cons.inj shown).2.symm
  obtain ⟨front, back, left, keeps, after_eq⟩ := exists_keeps_of_suffix (ends.trans suffix)
  refine ⟨marked, front, back, left, column, keeps, ?_, ?_⟩
  · rintro rfl
    obtain ⟨n, read⟩ := keeps
    obtain ⟨c, inner, kept, first⟩ := exists_cons_of_kept read
    obtain rfl := (List.cons.inj kept).1
    rcases marked with rfl | rfl <;> simp at first
  · rw [← after_eq, step, ← shown]
    exact ⟨behind ++ '\x7d' :: rest, by simp⟩

/-! The names of a query. -/

theorem isPrivate_iff {name : String} :
    Frame.isPrivate name = true ↔ ∃ cs, name.toList = '#' :: cs := by
  rw [Frame.isPrivate, beq_iff_eq, List.head?_eq_some_iff]

/-- The name of a variable that is asked for starts with a letter, a digit or an underscore. -/
theorem isPrivate_of_variableToken? {cs token rest : List Char}
    (h : variableToken? cs = some (token, rest)) :
    Frame.isPrivate (String.ofList token.tail) = false := by
  unfold variableToken? at h
  split at h
  · split at h
    · rename_i c d _ chars
      obtain ⟨rfl, -⟩ := Prod.mk.inj (Option.some.inj h)
      have apart : d ≠ '#' := ne_of_class chars.2 (by decide)
      simp [Frame.isPrivate, apart]
    · cases h
  · cases h

/-! The variables that are asked for are such tokens. -/

theorem exists_token_of_mem_variableNames {cs : List Char} {name : String}
    (h : name ∈ (variableNames cs).1) : ∃ text token rest,
      variableToken? text = some (token, rest) ∧ name = String.ofList token.tail := by
  fun_induction variableNames cs with
  | case1 cs token rest read names more behind ih =>
    rw [behind] at ih
    rcases List.mem_cons.1 h with rfl | h
    · exact ⟨_, token, rest, read, rfl⟩
    · exact ih h
  | case2 => simp at h

theorem exists_token_of_chosen? {distinct : Bool} {cs : List Char} {found : Choice × List Char}
    (h : chosen? distinct cs = some found) {name : String} (asked : name ∈ found.1.projection) :
    ∃ text token rest, variableToken? text = some (token, rest) ∧
      name = String.ofList token.tail := by
  unfold chosen? at h
  split at h
  · cases h
    cases asked
  · split at h
    · cases h
    · cases h
      exact exists_token_of_mem_variableNames asked

theorem exists_token_of_find?_selectClause? {before : Option Char} {cs : List Char}
    {found : Choice × List Char} (h : find? selectClause? before cs = some found) {name : String}
    (asked : name ∈ found.1.projection) : ∃ text token rest,
      variableToken? text = some (token, rest) ∧ name = String.ofList token.tail := by
  obtain ⟨place, back, -, read⟩ := exists_of_find? h
  rw [selectClause?_eq] at read
  obtain ⟨rest, -, read⟩ := Option.bind_eq_some_iff.1 read
  split at read
  · exact exists_token_of_chosen? read asked
  · exact exists_token_of_chosen? read asked

/-- Only a token with the mark of a variable is one. -/
theorem termOf_eq_var_iff {token : List Char} {name : String} :
    termOf token = .var name ↔ ∃ mark, (mark = '?' ∨ mark = '$') ∧ token = mark :: name.toList := by
  constructor
  · intro h
    unfold termOf at h
    split at h
    · obtain rfl := PatternTerm.var.inj h
      exact ⟨'?', Or.inl rfl, by rw [String.toList_ofList]⟩
    · obtain rfl := PatternTerm.var.inj h
      exact ⟨'$', Or.inr rfl, by rw [String.toList_ofList]⟩
    · cases h
    · cases h
    · split at h
      · cases h
      · split at h <;> cases h
  · rintro ⟨mark, rfl | rfl, rfl⟩
    · exact congrArg PatternTerm.var (String.ofList_toList)
    · exact congrArg PatternTerm.var (String.ofList_toList)

theorem name?_eq_some_iff {term : PatternTerm} {name : String} :
    term.name? = some name ↔ term = .var name := by
  cases term <;> simp [PatternTerm.name?]

/-- The variables of the patterns are the tokens with a mark in the statements of three terms. -/
theorem mem_variablesOf_parsedOf_iff (prefixes : Table String) (choice : Choice)
    (tokens : List (List Char)) (limit : Option Nat) (name : String) :
    (∃ p ∈ (parsedOf prefixes choice tokens limit).query.patterns, name ∈ Frame.variablesOf p) ↔
      ∃ statement ∈ statements tokens, statement.length = 3 ∧
        ∃ mark, (mark = '?' ∨ mark = '$') ∧ mark :: name.toList ∈ statement := by
  have named (p : TriplePattern) (statement : List (List Char))
      (terms : p.terms = statement.map termOf) : name ∈ Frame.variablesOf p ↔
        ∃ mark, (mark = '?' ∨ mark = '$') ∧ mark :: name.toList ∈ statement := by
    simp only [Frame.variablesOf, mem_firsts, List.mem_filterMap, terms, List.mem_map,
      name?_eq_some_iff]
    constructor
    · rintro ⟨_, ⟨token, inside, rfl⟩, var⟩
      obtain ⟨mark, marked, rfl⟩ := termOf_eq_var_iff.1 var
      exact ⟨mark, marked, inside⟩
    · rintro ⟨mark, marked, inside⟩
      exact ⟨_, ⟨_, inside, rfl⟩, termOf_eq_var_iff.2 ⟨mark, marked, rfl⟩⟩
  simp only [parsedOf, List.mem_filterMap, List.mem_filter]
  constructor
  · rintro ⟨p, ⟨statement, ⟨found, -⟩, read⟩, var⟩
    have three : statement.length = 3 := by
      by_contra other
      rw [patternOf?_eq_none other] at read
      cases read
    obtain ⟨q, same, terms⟩ := patternOf?_of_length three
    obtain rfl := Option.some.inj (same.symm.trans read)
    exact ⟨statement, found, three, (named q statement terms).1 var⟩
  · rintro ⟨statement, found, three, var⟩
    obtain ⟨p, read, terms⟩ := patternOf?_of_length three
    have filled : (!statement.isEmpty) = true := by
      cases statement with
      | nil => cases three
      | cons => rfl
    exact ⟨p, ⟨statement, ⟨found, filled⟩, read⟩, (named p statement terms).2 var⟩

theorem mem_of_mem_statements {tokens statement : List (List Char)} {token : List Char}
    (found : statement ∈ statements tokens) (h : token ∈ statement) : token ∈ tokens := by
  induction tokens generalizing statement with
  | nil =>
    rw [List.mem_singleton.1 found] at h
    cases h
  | cons t ts ih =>
    rw [statements] at found
    split at found
    · rcases List.mem_cons.1 found with rfl | found
      · cases h
      · exact List.mem_cons_of_mem t (ih found h)
    · cases split : statements ts with
      | nil =>
        rw [split] at found
        obtain rfl := List.mem_singleton.1 found
        exact List.mem_singleton.1 h ▸ List.mem_cons_self
      | cons first others =>
        rw [split] at found ih
        rcases List.mem_cons.1 found with rfl | found
        · rcases List.mem_cons.1 h with rfl | h
          · exact List.mem_cons_self
          · exact List.mem_cons_of_mem t (ih List.mem_cons_self h)
        · exact List.mem_cons_of_mem t (ih (List.mem_cons_of_mem first found) h)

/-- Where the clauses of a query are found. -/
theorem exists_of_clauses {cs : List Char} {choice : Choice} {tokens : List (List Char)}
    {limit : Option Nat} (h : clauses clauseIn? cs = .ok (choice, tokens, limit)) :
    (∃ rest, find? selectClause? none (expandTabs cs) = some (choice, rest)) ∧
    ∃ text body rest, text <:+ cs ∧ tokens = tokensOf body ∧
      find? blockClause? none (expandTabs text) = some (body, rest) := by
  unfold clauses at h
  split at h
  · cases h
  rename_i chosen rest select
  split at h
  · cases h
  rename_i body back block
  cases h
  obtain ⟨found, here, cut⟩ := Option.map_eq_some_iff.1 select
  obtain ⟨found', inside, cut'⟩ := Option.map_eq_some_iff.1 block
  obtain ⟨rfl, rfl⟩ := Prod.mk.inj cut
  obtain ⟨rfl, -⟩ := Prod.mk.inj cut'
  exact ⟨⟨found.2, here⟩, _, found'.1, found'.2, List.drop_suffix _ _, rfl, inside⟩

section Read

variable {surroundings : List (String × String)} {s : String} {parsed : Parsed}
  (read : parse surroundings s = .ok parsed)
include read

theorem exists_clauses_of_parse : ∃ choice tokens limit,
    clauses clauseIn? (stripComments s.toList) = .ok (choice, tokens, limit) ∧
      parsed = parsedOf (prefixesOf surroundings (stripComments s.toList)) choice tokens limit := by
  rw [parse_eq_clauses] at read
  cases found : clauses clauseIn? (stripComments s.toList) with
  | error e =>
    rw [found] at read
    cases read
  | ok parts =>
    rw [found] at read
    exact ⟨parts.1, parts.2.1, parts.2.2, rfl, (Except.ok.inj read).symm⟩

theorem isPrivate_of_mem_projection :
    ∀ name ∈ parsed.query.projection, Frame.isPrivate name = false := by
  obtain ⟨choice, tokens, limit, found, rfl⟩ := exists_clauses_of_parse read
  obtain ⟨⟨rest, select⟩, -⟩ := exists_of_clauses found
  intro name asked
  obtain ⟨_, token, _, there, rfl⟩ := exists_token_of_find?_selectClause? select asked
  exact isPrivate_of_variableToken? there

theorem mem_variablesOf_iff_of_isPrivate {name : String} (hidden : Frame.isPrivate name = true) :
    (∃ p ∈ parsed.query.patterns, name ∈ Frame.variablesOf p) ↔ ∃ choice tokens limit,
      clauses clauseIn? (stripComments s.toList) = .ok (choice, tokens, limit) ∧
      ∃ statement ∈ statements tokens, statement.length = 3 ∧
        ∃ mark, mark :: name.toList ∈ statement ∧ StandsInKept s.toList mark name.toList := by
  obtain ⟨choice, tokens, limit, found, rfl⟩ := exists_clauses_of_parse read
  obtain ⟨-, text, body, back, suffix, cut, block⟩ := exists_of_clauses found
  obtain ⟨cs, hash⟩ := isPrivate_iff.1 hidden
  rw [mem_variablesOf_parsedOf_iff]
  constructor
  · rintro ⟨statement, inside, three, mark, marked, here⟩
    have token := mem_of_mem_statements inside here
    rw [cut, hash] at token
    refine ⟨choice, tokens, limit, found, statement, inside, three, mark, here, ?_⟩
    rw [hash]
    exact standsInKept_of_mem_tokensOf suffix block marked token
  · rintro ⟨_, _, _, same, statement, inside, three, mark, here, marked, -⟩
    rw [found] at same
    cases same
    exact ⟨statement, inside, three, mark, marked, here⟩

/-- A query asks for no variable whose name starts with a hash sign. Its patterns have one exactly
where a token of a statement of three terms stands, with its mark, inside an IRI or a literal which
the scan of comments keeps; so they have none where nothing that is kept has the mark of a variable
in front of a hash sign. -/
theorem parse_names :
    (∀ name ∈ parsed.query.projection, Frame.isPrivate name = false) ∧
    (∀ name, Frame.isPrivate name = true →
      ((∃ p ∈ parsed.query.patterns, name ∈ Frame.variablesOf p) ↔ ∃ choice tokens limit,
        clauses clauseIn? (stripComments s.toList) = .ok (choice, tokens, limit) ∧
        ∃ statement ∈ statements tokens, statement.length = 3 ∧
          ∃ mark, mark :: name.toList ∈ statement ∧ StandsInKept s.toList mark name.toList)) ∧
    ((∀ kept rest, Keeps s.toList kept rest → ¬ ['?', '#'] <:+: kept ∧ ¬ ['$', '#'] <:+: kept) →
      ∀ p ∈ parsed.query.patterns, ∀ name ∈ Frame.variablesOf p,
        Frame.isPrivate name = false) := by
  refine ⟨isPrivate_of_mem_projection read,
    fun name hidden => mem_variablesOf_iff_of_isPrivate read hidden, ?_⟩
  intro plain p hp name var
  refine Bool.eq_false_iff.2 fun hidden => ?_
  obtain ⟨_, _, _, -, _, -, -, mark, -, marked, front, back, rest, _, keeps, -, -⟩ :=
    (mem_variablesOf_iff_of_isPrivate read hidden).1 ⟨p, hp, var⟩
  have within : [mark, '#'] <:+: front ++ mark :: '#' :: back := ⟨front, back, by simp⟩
  obtain ⟨question, dollar⟩ := plain _ rest keeps
  rcases marked with rfl | rfl
  · exact question within
  · exact dollar within

end Read

/-- The braces stand between quotes, which the scan of comments keeps and the search for the block
does not heed. -/
def quotedBlock : String :=
  "SELECT ?x \"\x7b ?x ?p ?#match \x7d\""

theorem exists_parse_quotedBlock : ∃ parsed, parse [] quotedBlock = .ok parsed ∧
    parsed.query.projection = ["x"] ∧
    ∃ p ∈ parsed.query.patterns, "#match" ∈ Frame.variablesOf p := by
  have names : (parse [] quotedBlock).toOption.map (fun parsed =>
      (parsed.query.projection, parsed.query.patterns.flatMap Frame.variablesOf)) =
        some (["x"], ["x", "p", "#match"]) := by
    decide +kernel
  cases read : parse [] quotedBlock with
  | error e =>
    rw [read] at names
    cases names
  | ok parsed =>
    rw [read] at names
    obtain ⟨asked, bound⟩ := Prod.mk.inj (Option.some.inj names)
    have var : "#match" ∈ parsed.query.patterns.flatMap Frame.variablesOf := by
      rw [bound]
      decide
    exact ⟨parsed, rfl, asked, List.mem_flatMap.1 var⟩

/-- A literal that starts with a hash sign, but holds no mark in front of one. -/
def quotedHash : String :=
  "SELECT ?x \x7b ?x ?p \"#1\" \x7d"

theorem not_isInfix_quotedHash {kept rest : List Char} (h : Keeps quotedHash.toList kept rest) :
    ¬ ['?', '#'] <:+: kept ∧ ¬ ['$', '#'] <:+: kept := by
  have question : ¬ ['?', '#'] <:+: quotedHash.toList := by decide
  have dollar : ¬ ['$', '#'] <:+: quotedHash.toList := by decide
  exact ⟨fun within => question (within.trans h.isInfix),
    fun within => dollar (within.trans h.isInfix)⟩

theorem parse_names_quotedBlock :
    (∃ parsed, parse [] quotedBlock = .ok parsed ∧ Frame.isPrivate "x" = false ∧
      ∃ mark, StandsInKept quotedBlock.toList mark "#match".toList) ∧
    ∃ parsed, parse [] quotedHash = .ok parsed ∧ parsed.query.patterns.length = 1 ∧
      ∀ p ∈ parsed.query.patterns, ∀ name ∈ Frame.variablesOf p,
        Frame.isPrivate name = false := by
  constructor
  · obtain ⟨parsed, read, asked, var⟩ := exists_parse_quotedBlock
    obtain ⟨projection, stands, -⟩ := parse_names read
    obtain ⟨_, _, _, -, _, -, -, mark, -, kept⟩ := (stands "#match" (by decide)).1 var
    exact ⟨parsed, read, projection "x" (by rw [asked]; decide), mark, kept⟩
  · have one : (parse [] quotedHash).toOption.map (fun parsed => parsed.query.patterns.length) =
        some 1 := by
      decide +kernel
    cases read : parse [] quotedHash with
    | error e =>
      rw [read] at one
      cases one
    | ok parsed =>
      rw [read] at one
      obtain ⟨-, -, plain⟩ := parse_names read
      exact ⟨parsed, rfl, Option.some.inj one, plain fun _ _ kept => not_isInfix_quotedHash kept⟩

/-- The text of a query can give a variable the name of a column of the evaluator. -/
theorem parse_names_ne :
    ¬ ∀ (surroundings : List (String × String)) (s : String) (parsed : Parsed),
      parse surroundings s = .ok parsed →
        (∀ name ∈ parsed.query.projection, Frame.isPrivate name = false) ∧
          ∀ p ∈ parsed.query.patterns, ∀ name ∈ Frame.variablesOf p,
            Frame.isPrivate name = false := by
  intro claim
  obtain ⟨parsed, read, -, p, hp, var⟩ := exists_parse_quotedBlock
  exact absurd ((claim [] quotedBlock parsed read).2 p hp "#match" var) (by decide)

end Ontogram.Query
