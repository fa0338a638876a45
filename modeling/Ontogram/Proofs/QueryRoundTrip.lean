import Ontogram.Proofs.PrintedQuery
import Ontogram.Proofs.TokenTerm

set_option autoImplicit false

namespace Ontogram.Query

open Text

theorem isDeclarable_of_prefixClause? {before : Option Char} {cs : List Char}
    {found : (String × String) × List Char} (h : prefixClause? before cs = some found) :
    IsDeclarable found.1 := by
  obtain ⟨afterWord, -, read⟩ := Option.bind_eq_some_iff.1 h
  simp only at read
  split at read
  · rename_i afterColon _
    obtain ⟨⟨iri, rest⟩, bracketed, read⟩ := Option.bind_eq_some_iff.1 read
    obtain ⟨name, rfl, chars⟩ := exists_name_of_bracketed? bracketed
    cases read
    refine ⟨fun c hc => ?_, fun c hc => ?_⟩
    · rw [String.toList_ofList] at hc
      exact List.mem_takeWhile_imp hc
    · rw [String.toList_ofList] at hc
      change c ∈ (bracket name).tail.dropLast at hc
      rw [tail_dropLast_bracket] at hc
      exact chars c hc
  · cases read

theorem isDeclarable_of_mem_prefixClauses {cs : List Char} :
    ∀ e ∈ prefixClauses cs, IsDeclarable e := by
  fun_induction prefixClauses cs with
  | case1 cs declared rest found ih =>
    obtain ⟨place, back, -, read⟩ := exists_of_find? found
    exact List.forall_mem_cons.2 ⟨isDeclarable_of_prefixClause? read, ih⟩
  | case2 => exact List.forall_mem_nil _

theorem isDeclarable_standard : ∀ e ∈ Namespace.standard, IsDeclarable e := by
  have chars : (Namespace.standard.all fun e =>
      e.1.toList.all isDeclaredChar && e.2.toList.all isBracketChar) = true := by decide +kernel
  intro e he
  have parts := Bool.and_eq_true_iff.1 (List.all_eq_true.1 chars e he)
  exact ⟨List.all_eq_true.1 parts.1, List.all_eq_true.1 parts.2⟩

theorem isDeclarable_of_mem_prefixesOf {surroundings : List (String × String)}
    (declarable : ∀ e ∈ surroundings, IsDeclarable e) (cs : List Char) :
    ∀ e ∈ (prefixesOf surroundings cs).entries, IsDeclarable e := by
  intro e he
  rcases Table.mem_entries_insertAll he with he | he
  · rcases Table.mem_entries_insertAll he with he | he
    · rcases Table.mem_entries_insertAll he with he | he
      · cases he
      · exact isDeclarable_standard e he
    · exact declarable e he
  · exact isDeclarable_of_mem_prefixClauses e he

theorem nodup_keys_prefixesOf (surroundings : List (String × String)) (cs : List Char) :
    (prefixesOf surroundings cs).keys.Nodup := by
  have standard : (Table.ofList Namespace.standard).keys.Nodup :=
    Table.nodup_keys_insertAll (t := ⟨[]⟩) List.nodup_nil Namespace.standard
  exact Table.nodup_keys_insertAll (Table.nodup_keys_insertAll standard surroundings) _

theorem variableText_of_find?_selectClause? {before : Option Char} {cs : List Char}
    {found : Choice × List Char} (h : find? selectClause? before cs = some found) :
    ∀ name ∈ found.1.projection, VariableText name ('?' :: name.toList) := by
  intro name asked
  obtain ⟨_, token, _, read, rfl⟩ := exists_token_of_find?_selectClause? h asked
  obtain ⟨mark, word, -, rfl, nonempty, chars⟩ := exists_of_variableToken? read
  rw [List.tail_cons, String.toList_ofList]
  exact .var (Or.inl rfl) nonempty chars

/-- The terms of the patterns are those of the tokens. -/
theorem isToken_of_mem_patterns {cs : List Char} (tab : '\t' ∉ cs) (prefixes : Table String)
    (choice : Choice) (limit : Option Nat) :
    ∀ p ∈ (parsedOf prefixes choice (tokensOf cs) limit).query.patterns,
      ∀ t ∈ p.terms, t.IsToken := by
  intro p hp t ht
  obtain ⟨statement, found, read⟩ := List.mem_filterMap.1 hp
  have within := (List.mem_filter.1 found).1
  have three : statement.length = 3 := by
    by_contra other
    rw [patternOf?_eq_none other] at read
    cases read
  obtain ⟨q, same, terms⟩ := patternOf?_of_length three
  obtain rfl := Option.some.inj (same.symm.trans read)
  rw [terms] at ht
  obtain ⟨token, inside, rfl⟩ := List.mem_map.1 ht
  exact isToken_termOf tab (mem_of_mem_statements within inside)

section Read

variable {surroundings : List (String × String)} {s : String} {parsed : Parsed}

/-- What is read can be written. -/
theorem isRead_of_parse (declarable : ∀ e ∈ surroundings, IsDeclarable e)
    (read : parse surroundings s = .ok parsed) : parsed.query.IsRead := by
  obtain ⟨choice, tokens, limit, found, rfl⟩ := exists_clauses_of_parse read
  obtain ⟨⟨rest, select⟩, text, body, back, -, rfl, block⟩ := exists_of_clauses found
  have tab : '\t' ∉ body := fun inside => tab_notMem_expandFrom 0 text
    ((suffix_of_find?_blockClause? block).subset
      (List.mem_cons_of_mem _ (List.mem_append_left _ inside)))
  refine ⟨variableText_of_find?_selectClause? select, isToken_of_mem_patterns tab _ _ _,
    isDeclarable_of_mem_prefixesOf declarable _, nodup_keys_prefixesOf _ _, ?_⟩
  intro n hn
  obtain ⟨m, -, rfl⟩ := Option.mem_map.1 hn
  exact Int.natCast_nonneg m

/-- A query that was read, and whose text is legible, is read again from its text, in the same
surroundings or in none, and nothing of the text is dropped. -/
theorem parse_text (declarable : ∀ e ∈ surroundings, IsDeclarable e)
    (read : parse surroundings s = .ok parsed) (legible : parsed.query.IsLegible) :
    parse surroundings parsed.query.text = .ok ⟨parsed.query, []⟩ ∧
      parse [] parsed.query.text = .ok ⟨parsed.query, []⟩ := by
  have written := isRead_of_parse declarable read
  obtain ⟨_, _, _, -, rfl⟩ := exists_clauses_of_parse read
  have start := Table.keys_isPrefix_insertAll
    ((Table.ofList Namespace.standard).insertAll surroundings)
    (prefixClauses (expandTabs (stripComments s.toList)))
  have standard := Table.keys_isPrefix_insertAll (Table.ofList Namespace.standard) surroundings
  exact ⟨parse_text_of_isRead written legible start,
    parse_text_of_isRead written legible (standard.trans start)⟩

end Read

def remarksQuery : String :=
  "prefix e: <http://e/#> # cars\nselect distinct $x ?n \x7b ?x a e:Car . ?x e:size +4.5 . " ++
    "?x <e:note> \"a # \x7bb\x7d \\n\"@en-GB . ?x e:made \"1999\"^^e:year \x7d limit 010"

def remarksPatterns : List TriplePattern :=
  [⟨.var "x", .iri (Namespace.rdf ++ "type"), .iri "e:Car"⟩,
   ⟨.var "x", .iri "e:size", .literal ⟨"+4.5", none, none⟩⟩,
   ⟨.var "x", .iri "e:note", .literal ⟨"a # \x7bb\x7d \\n", some "en-GB", none⟩⟩,
   ⟨.var "x", .iri "e:made", .literal ⟨"1999", none, some "e:year"⟩⟩]

theorem parse_text_remarks : ∃ q, parse [] remarksQuery = .ok ⟨q, []⟩ ∧
    q.patterns = remarksPatterns ∧ q.limit = some 10 ∧ parse [] q.text = .ok ⟨q, []⟩ := by
  have shape : (parse [] remarksQuery).toOption.map (fun parsed => (parsed.query.patterns,
      parsed.query.limit, parsed.dropped, decide parsed.query.IsLegible)) =
        some (remarksPatterns, some 10, [], true) := by
    decide +kernel
  cases read : parse [] remarksQuery with
  | error e =>
    rw [read] at shape
    cases shape
  | ok parsed =>
    rw [read] at shape
    obtain ⟨patterns, rest⟩ := Prod.mk.inj (Option.some.inj shape)
    obtain ⟨limit, rest⟩ := Prod.mk.inj rest
    obtain ⟨dropped, legible⟩ := Prod.mk.inj rest
    have alone : ∀ e ∈ [], IsDeclarable e := List.forall_mem_nil _
    have whole := parse_text alone read (of_decide_eq_true legible)
    exact ⟨parsed.query, by rw [← dropped], patterns, limit, whole.1⟩

/-- A quote in the value of a literal ends it too early in the text of the query. -/
theorem not_parse_text : ¬ ∀ (s : String) (parsed : Parsed), parse [] s = .ok parsed →
    ∃ again, parse [] parsed.query.text = .ok again ∧ again.query = parsed.query := by
  intro claim
  have first : (parse [] "SELECT ?s \x7b ?s ?p \"a\\\"b\" \x7d").toOption.map
      (fun parsed => parsed.query.patterns.length) = some 1 := by
    decide +kernel
  have second : ((parse [] "SELECT ?s \x7b ?s ?p \"a\\\"b\" \x7d").toOption.bind fun parsed =>
      (parse [] parsed.query.text).toOption.map fun again => again.query.patterns.length) =
        some 0 := by
    decide +kernel
  cases read : parse [] "SELECT ?s \x7b ?s ?p \"a\\\"b\" \x7d" with
  | error e =>
    rw [read] at first
    cases first
  | ok parsed =>
    obtain ⟨again, reread, same⟩ := claim _ parsed read
    rw [read] at first second
    change (parse [] parsed.query.text).toOption.map
      (fun again => again.query.patterns.length) = some 0 at second
    have one : parsed.query.patterns.length = 1 := Option.some.inj first
    rw [reread] at second
    have zero : again.query.patterns.length = 0 := Option.some.inj second
    rw [same, one] at zero
    cases zero

end Ontogram.Query
