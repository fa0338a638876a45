import Ontogram.Proofs.Answer
import Ontogram.Proofs.DisplayedLiteral

set_option autoImplicit false

namespace Ontogram

namespace Text

theorem mem_escape {cs : List Char} {c : Char} (h : c ∈ escape cs) : c = '\\' ∨ c ∈ cs := by
  obtain ⟨d, hd, hc⟩ := List.mem_flatMap.1 h
  unfold escapeChar at hc
  split at hc
  · rcases List.mem_cons.1 hc with rfl | hc
    · exact Or.inl rfl
    · exact Or.inr (List.mem_singleton.1 hc ▸ hd)
  · exact Or.inr (List.mem_singleton.1 hc ▸ hd)

end Text

namespace Query

/-- A character that is neither a tab nor a line break. -/
def staysInLine (c : Char) : Bool :=
  c != '\t' && c != '\n' && c != '\r'

/-- The literals whose display text can stand in a query: the value has neither tabs nor line
breaks, and the mark is plain. -/
structure IsAskable (l : Literal) : Prop where
  line : l.value.toList.all staysInLine = true
  plain : Literal.PlainMark l.language l.datatype

/-- The pattern block of a lookup, between its braces. -/
def lookupBody (predicate : String) (l : Literal) : List Char :=
  " ?s ".toList ++ (bracket predicate.toList ++ (' ' :: (l.display.toList ++ [' '])))

/-- A query for the subjects of which a predicate says a literal. -/
def lookupText (predicate : String) (l : Literal) : String :=
  "SELECT ?s \x7b ?s <" ++ predicate ++ "> " ++ l.display ++ " \x7d"

theorem toList_lookupText (predicate : String) (l : Literal) :
    (lookupText predicate l).toList =
      "SELECT ?s \x7b".toList ++ (lookupBody predicate l ++ ['\x7d']) := by
  have opening : "SELECT ?s \x7b ?s <".toList =
      "SELECT ?s \x7b".toList ++ (" ?s ".toList ++ ['<']) := by decide
  have middle : "> ".toList = ['>', ' '] := by decide
  have closing : " \x7d".toList = [' ', '\x7d'] := by decide
  have split (a b c d e : String) : (a ++ b ++ c ++ d ++ e).toList =
      a.toList ++ (b.toList ++ (c.toList ++ (d.toList ++ e.toList))) := by
    simp
  refine (split _ _ _ _ _).trans ?_
  simp only [opening, middle, closing, lookupBody, bracket, List.append_assoc, List.cons_append,
    List.nil_append]

/-- The query that a lookup asks: the value has every backslash twice. -/
def lookupQuery (surroundings : List (String × String)) (predicate : String) (l : Literal) :
    SelectQuery where
  projection := ["s"]
  patterns := [⟨.var "s", .iri predicate,
    .literal { l with value := String.ofList (Text.double l.value.toList) }⟩]
  prefixes := prefixesOf surroundings (lookupText predicate l).toList

/-- Whether the comment reader passes over a character. -/
def isCommentFree (c : Char) : Bool :=
  c != '<' && c != '"' && c != '#'

theorem stripComments_append_of_all {front : List Char} (h : front.all isCommentFree = true)
    (rest : List Char) : stripComments (front ++ rest) = front ++ stripComments rest := by
  refine stripComments_append (fun c hc => ?_) rest
  simpa [isCommentFree, and_assoc] using List.all_eq_true.1 h c hc

/-- The choice of a lookup. -/
theorem selectClause?_lookup (tail : List Char) :
    selectClause? none ("SELECT ?s \x7b".toList ++ tail) =
      some (⟨false, ["s"]⟩, ' ' :: '\x7b' :: tail) := by
  have text : "SELECT ?s \x7b".toList ++ tail = "SELECT".toList ++ (' ' :: '?' :: 's' :: ' ' ::
      '\x7b' :: tail) := by
    have opening : "SELECT ?s \x7b".toList =
        "SELECT".toList ++ [' ', '?', 's', ' ', '\x7b'] := by decide
    rw [opening, List.append_assoc]
    rfl
  have word : keyword? "SELECT" none
      ("SELECT".toList ++ (' ' :: '?' :: 's' :: ' ' :: '\x7b' :: tail)) =
        some (' ' :: '?' :: 's' :: ' ' :: '\x7b' :: tail) :=
    keyword?_append (show Spells "SELECT".toList "SELECT" by decide) (by decide) rfl
      (Text.forall_head?_cons (by decide) _)
  have skip (c : Char) (hc : isGap c = false) (rest : List Char) :
      skipGap (' ' :: c :: rest) = c :: rest := by
    simp [skipGap, hc, show isGap ' ' = true from rfl]
  have plain : keyword? "DISTINCT" none ('?' :: 's' :: ' ' :: '\x7b' :: tail) = none :=
    keyword?_eq_none (show "DISTINCT".toList = 'D' :: "ISTINCT".toList by decide) (by decide) none _
  have token : variableToken? (skipGap ('?' :: 's' :: ' ' :: '\x7b' :: tail)) =
      some (['?', 's'], ' ' :: '\x7b' :: tail) := rfl
  have last : variableNames (' ' :: '\x7b' :: tail) = ([], ' ' :: '\x7b' :: tail) :=
    variableNames_nil (by
      rw [skip '\x7b' (by decide)]
      exact variableToken?_eq_none tail (by decide) (by decide))
  have names : variableNames ('?' :: 's' :: ' ' :: '\x7b' :: tail) =
      (["s"], ' ' :: '\x7b' :: tail) := by
    rw [variableNames_cons token, last]
    rfl
  rw [text, selectClause?_eq, word, Option.bind_some, skip '?' (by decide), plain]
  exact chosen?_of_names names (by simp) false

section Parts

variable {predicate : String} {l : Literal} (chars : predicate.toList.all isIriText = true)
  (askable : IsAskable l)
include chars askable

theorem tab_notMem_lookupBody : '\t' ∉ lookupBody predicate l := by
  have iri : '\t' ∉ bracket predicate.toList := Text.notMem_of_all
    (all_isTermChar_bracket chars) (by decide)
  have mark : '\t' ∉ l.mark := Text.notMem_of_all
    askable.plain.markText.all_isTermChar (by decide)
  have value : '\t' ∉ Text.escape l.value.toList := fun mem =>
    (Text.mem_escape mem).elim (by decide) (Text.notMem_of_all askable.line (by decide))
  simp [lookupBody, Literal.toList_display, iri, mark, value]

/-- A lookup holds no comment. -/
theorem stripComments_lookupText :
    stripComments (lookupText predicate l).toList = (lookupText predicate l).toList := by
  have iri (rest : List Char) :
      stripComments (bracket predicate.toList ++ rest) =
        bracket predicate.toList ++ stripComments rest :=
    stripComments_kept (by rw [bracketed?_bracket chars, Option.some_or])
  have ends : Ends isStop [' ', '\x7d'] := Text.forall_head?_cons (Or.inl (by decide)) _
  have literal := Literal.stripComments_display askable.plain ends
  have closing : stripComments [' ', '\x7d'] = [' ', '\x7d'] := by
    have plain : [' ', '\x7d'].all isCommentFree = true := by decide
    have stripped := stripComments_append_of_all plain []
    rwa [stripComments] at stripped
  rw [toList_lookupText, stripComments_append_of_all (by decide), lookupBody]
  simp only [List.append_assoc, List.cons_append, List.nil_append]
  rw [stripComments_append_of_all (by decide), iri,
    stripComments_char (by decide) (by decide) (by decide), literal, closing]

/-- The block of a lookup is closed by its last brace. -/
theorem closeBraces_lookupBody : closeBraces 1 (lookupBody predicate l ++ ['\x7d']) = some [] := by
  have subject : ∀ c ∈ " ?s ".toList, isInert c = true := List.all_eq_true.1 (by decide)
  have iri := isInert_of_all_isTermChar (all_isTermChar_bracket chars)
  have line (c : Char) (hc : c ∈ l.value.toList) : c ≠ '\n' ∧ c ≠ '\r' := by
    have stays := List.all_eq_true.1 askable.line c hc
    exact ⟨Text.ne_of_class stays (by decide), Text.ne_of_class stays (by decide)⟩
  rw [lookupBody, List.append_assoc, closeBraces_append subject, List.append_assoc,
    closeBraces_append iri, List.cons_append, closeBraces_char (by decide), List.append_assoc,
    Literal.closeBraces_display askable.plain line (by simp), List.singleton_append,
    closeBraces_char (by decide), closeBraces_close]

/-- The block of a lookup has three tokens. -/
theorem tokensOf_lookupBody : tokensOf (lookupBody predicate l) =
    ["?s".toList, bracket predicate.toList, l.display.toList] := by
  have blank : Blank [' '] := by simp [Blank]
  have skip (rest : List Char) : tokensOf (' ' :: rest) = tokensOf rest :=
    blank.tokensOf_append rest
  have spaced (rest : List Char) : Ends isSpace (' ' :: rest) :=
    Text.forall_head?_cons (Or.inl (by decide)) _
  have subject : TermText (.var "s") "?s".toList := .var (.var (Or.inl rfl) (by decide) (by decide))
  have iri : TermText (.iri predicate) (bracket predicate.toList) := by
    have named := TermText.iri chars
    rwa [String.ofList_toList] at named
  have text : lookupBody predicate l = ' ' :: ("?s".toList ++ (' ' :: (bracket predicate.toList ++
      (' ' :: (l.display.toList ++ [' ']))))) := by
    simp [lookupBody]
  have none : tokensOf [] = [] := tokenizes.nil
  rw [text, skip, subject.tokensOf_append (spaced _), skip, iri.tokensOf_append (spaced _), skip,
    Literal.tokensOf_display askable.plain (spaced []).stop, skip, none]

/-- A lookup is read as its query. -/
theorem parse_lookupText (surroundings : List (String × String)) :
    parse surroundings (lookupText predicate l) =
      .ok ⟨lookupQuery surroundings predicate l, []⟩ := by
  have clean := stripComments_lookupText chars askable
  have tab := tab_notMem_lookupBody chars askable
  have whole := toList_lookupText predicate l
  have choice : clauseIn? selectClause? (lookupText predicate l).toList =
      some (⟨false, ["s"]⟩, ' ' :: '\x7b' :: (lookupBody predicate l ++ ['\x7d'])) := by
    have found := selectClause?_lookup (lookupBody predicate l ++ ['\x7d'])
    have suffix : ' ' :: '\x7b' :: (lookupBody predicate l ++ ['\x7d']) <:+
        (lookupText predicate l).toList :=
      ⟨"SELECT ?s".toList, by simp [whole]⟩
    refine clauseIn?_eq_some (by simp [whole, tab]) ?_ suffix
    have front : "SELECT ?s \x7b".toList = 'S' :: "ELECT ?s \x7b".toList := by decide
    rw [front, List.cons_append] at found
    rw [whole, front, List.cons_append, find?_eq_some found]
  have closed : blockClause? (some ' ') ('\x7b' :: (lookupBody predicate l ++ ['\x7d'])) =
      some (lookupBody predicate l, []) := by
    rw [blockClause?, closeBraces_lookupBody chars askable, Option.map_some]
    simp
  have block : clauseIn? blockClause? (' ' :: '\x7b' :: (lookupBody predicate l ++ ['\x7d'])) =
      some (lookupBody predicate l, []) := by
    refine clauseIn?_eq_some (by simp [tab]) ?_ List.nil_suffix
    rw [find?, blockClause?_eq_none (by decide), Option.none_or, find?_eq_some closed]
  have limit : clauseIn? limitClause? [] = none := rfl
  have subject : termOf "?s".toList = .var "s" := rfl
  have iri : termOf (bracket predicate.toList) = .iri predicate := by
    have named := (TermText.iri chars).termOf_eq
    rwa [String.ofList_toList] at named
  have object := Literal.termOf_display askable.plain
  have statement : statements ["?s".toList, bracket predicate.toList, l.display.toList] =
      [["?s".toList, bracket predicate.toList, l.display.toList]] := by
    have first : "?s".toList ≠ ['.'] := by decide
    have second : bracket predicate.toList ≠ ['.'] := by simp [bracket]
    have third : l.display.toList ≠ ['.'] := by simp [Literal.toList_display]
    simp only [statements, if_neg first, if_neg second, if_neg third, consFirst]
  have pattern : patternOf? ["?s".toList, bracket predicate.toList, l.display.toList] =
      some ⟨.var "s", .iri predicate,
        .literal { l with value := String.ofList (Text.double l.value.toList) }⟩ := by
    simp only [patternOf?, subject, iri, object]
  simp only [parse, clean, choice, block, tokensOf_lookupBody chars askable, limit, statement]
  simp only [List.filter_cons, List.isEmpty_cons, Bool.not_false, if_true, List.filter_nil,
    List.filterMap_cons, pattern, List.filterMap_nil, Option.isNone_some, Bool.false_eq_true,
    if_false, List.map_nil, Option.map_none]
  rfl

end Parts

def isLookedUp (predicate : String) (l : Literal) (f : Fact) : Bool :=
  predicate == f.predicate && TriplePattern.meetsObject
    (some { l with value := String.ofList (Text.double l.value.toList) : Literal }.display) f

section Run

variable {predicate : String} {l : Literal} (absolute : Resolver.isAbsolute predicate.toList = true)
  (askable : IsAskable l) (surroundings : List (String × String)) (store : Store)
include absolute askable

/-- The solutions of a lookup are the facts that it asks for, each with its subject. -/
theorem solutions_lookupQuery : (lookupQuery surroundings predicate l).solutions store =
    (store.filter (isLookedUp predicate l)).map fun f => [("s", f.subject)] := by
  have extend (f : Fact) : Solution.extend (prefixesOf surroundings (lookupText predicate l).toList)
      ⟨.var "s", .iri predicate,
        .literal { l with value := String.ofList (Text.double l.value.toList) }⟩ [] f =
        if isLookedUp predicate l f then some [("s", f.subject)] else none := by
    have iri := PatternTerm.expand_of_isAbsolute
      (prefixesOf surroundings (lookupText predicate l).toList) absolute
    have literal := Literal.constant?_literal
      (l := { l with value := String.ofList (Text.double l.value.toList) }) askable.plain
      (prefixesOf surroundings (lookupText predicate l).toList)
    rw [Solution.extend_eq, Solution.constantsMeet, literal]
    simp only [PatternTerm.constant?, iri, TriplePattern.meets, Bool.true_and]
    rfl
  rw [SelectQuery.solutions, lookupQuery, nestedLoops_cons, extended, List.flatMap_singleton]
  refine Frame.filterMap_ite (isLookedUp predicate l) _ _ (fun f _ kept => ?_) fun f _ dropped => ?_
  · exact (extend f).trans (if_pos kept)
  · exact (extend f).trans (if_neg (by simp [dropped]))

/-- A lookup returns the subjects of the facts that it asks for, in their order. -/
theorem run_lookupText (chars : predicate.toList.all isIriText = true) (seconds : Float)
    (s : Session) (unlimited : s.budget = {}) :
    (run surroundings store seconds (lookupText predicate l) s).2 =
      .ok ⟨["s"], (store.filter (isLookedUp predicate l)).map fun f => [f.subject], none⟩ := by
  have plain : (lookupQuery surroundings predicate l).PlainColumns :=
    ⟨List.forall_mem_singleton.2 (show Selection.isPattern "s" = false by decide),
      List.pairwise_singleton _ _⟩
  have named : ∀ p ∈ (lookupQuery surroundings predicate l).patterns,
      ∀ name ∈ Frame.variablesOf p, Frame.isPrivate name = false :=
    List.forall_mem_singleton.2
      (List.forall_mem_singleton.2 (show Frame.isPrivate "s" = false by decide))
  have answer := (SelectQuery.run_all _ store seconds s unlimited named (by simp [lookupQuery])
    plain rfl rfl).2
  have columns : (lookupQuery surroundings predicate l).answerColumns store = ["s"] := rfl
  have read : parse surroundings (lookupText predicate l) =
      .ok ⟨lookupQuery surroundings predicate l, []⟩ := parse_lookupText chars askable _
  rw [run, runBy, read]
  change ((lookupQuery surroundings predicate l).run store seconds s).2 = _
  rw [answer, columns, solutions_lookupQuery absolute askable, List.filterMap_map]
  refine congrArg (fun rows => Except.ok (⟨["s"], rows, none⟩ : QueryResult)) ?_
  rw [← List.filterMap_eq_map]
  rfl

end Run

section Triples

variable {t : Triple} {predicate : String} {l : Literal} (said : t.predicate = .iri predicate)
  (value : t.object = .literal l) (askable : IsAskable l)
include said value askable

/-- A lookup asks for the fact of a triple with its predicate and its literal exactly when the value
of the literal holds no backslash. -/
theorem isLookedUp_ofTriple_iff :
    isLookedUp predicate l (Fact.ofTriple t) = true ↔ '\\' ∉ l.value.toList := by
  obtain ⟨subject, p, o⟩ := t
  obtain rfl : p = .iri predicate := said
  obtain rfl : o = .literal l := value
  have same : (Fact.ofTriple ⟨subject, .iri predicate, .literal l⟩).predicate = predicate := rfl
  rw [isLookedUp, same, beq_self_eq_true, Bool.true_and]
  exact Literal.meetsObject_display_iff askable.plain subject (.iri predicate)

variable (absolute : Resolver.isAbsolute predicate.toList = true)
  (chars : predicate.toList.all isIriText = true) (surroundings : List (String × String))
  (seconds : Float) (s : Session) (unlimited : s.budget = {})
include absolute chars unlimited

/-- A lookup among triples returns the subject of each triple whose predicate and object it is
written with, if the value of the object holds no backslash. -/
theorem mem_run_lookupText {triples : List Triple} (ht : t ∈ triples)
    (slash : '\\' ∉ l.value.toList) :
    ∃ rows, (run surroundings (triples.map Fact.ofTriple) seconds (lookupText predicate l) s).2 =
      .ok ⟨["s"], rows, none⟩ ∧ [t.subject.display] ∈ rows := by
  refine ⟨_, run_lookupText absolute askable surroundings _ chars seconds s unlimited, ?_⟩
  have asked := (isLookedUp_ofTriple_iff said value askable).2 slash
  have there : Fact.ofTriple t ∈ (triples.map Fact.ofTriple).filter (isLookedUp predicate l) :=
    List.mem_filter.2 ⟨List.mem_map_of_mem ht, asked⟩
  exact List.mem_map_of_mem (f := fun f : Fact => [f.subject]) there

/-- A triple alone is returned exactly when the value of its object holds no backslash. -/
theorem run_lookupText_single_iff :
    (run surroundings [Fact.ofTriple t] seconds (lookupText predicate l) s).2 =
      .ok ⟨["s"], [[t.subject.display]], none⟩ ↔ '\\' ∉ l.value.toList := by
  rw [run_lookupText absolute askable surroundings _ chars seconds s unlimited,
    ← isLookedUp_ofTriple_iff said value askable]
  cases asked : isLookedUp predicate l (Fact.ofTriple t) with
  | true =>
    rw [List.filter_cons_of_pos asked, List.filter_nil]
    exact iff_of_true rfl rfl
  | false =>
    rw [List.filter_cons_of_neg (by simp [asked]), List.filter_nil]
    refine iff_of_false (fun same => ?_) Bool.false_ne_true
    have rows := congrArg QueryResult.rows (Except.ok.inj same)
    cases rows

end Triples

/-- A remark with quotes, a hash sign, braces and something like a declaration in it. -/
def remark : Literal :=
  ⟨"\"\x7b\" # PREFIX rdf: <http://e/>", some "en-GB", none⟩

/-- What the remark is about is found by the remark. -/
theorem mem_run_lookupText_remark :
    ∃ rows, (run [] ([⟨.iri "http://e/s", .iri "http://e/p", .literal remark⟩].map Fact.ofTriple) 0
      "SELECT ?s \x7b ?s <http://e/p> \"\\\"\x7b\\\" # PREFIX rdf: <http://e/>\"@en-GB \x7d" {}).2 =
        .ok ⟨["s"], rows, none⟩ ∧ ["http://e/s"] ∈ rows :=
  mem_run_lookupText (t := ⟨.iri "http://e/s", .iri "http://e/p", .literal remark⟩) rfl rfl
    ⟨by decide, .language (by decide)⟩ (by decide) (by decide) [] 0 {} rfl List.mem_cons_self
    (by decide)

def pathValue : Literal :=
  ⟨"a\\b", none, none⟩

/-- Without the condition on backslashes, what a value is said of may not be found. -/
theorem not_mem_run_lookupText_pathValue :
    ¬ ∀ (triples : List Triple) (t : Triple) (predicate : String) (l : Literal), t ∈ triples →
      t.predicate = .iri predicate → Resolver.isAbsolute predicate.toList = true →
      predicate.toList.all isIriText = true → t.object = .literal l → IsAskable l →
      ∃ rows, (run [] (triples.map Fact.ofTriple) 0 (lookupText predicate l) {}).2 =
        .ok ⟨["s"], rows, none⟩ ∧ [t.subject.display] ∈ rows := by
  intro found
  let t : Triple := ⟨.iri "http://e/s", .iri "http://e/p", .literal pathValue⟩
  have askable : IsAskable pathValue := ⟨by decide, .bare⟩
  have absolute : Resolver.isAbsolute "http://e/p".toList = true := by decide
  have chars : "http://e/p".toList.all isIriText = true := by decide
  obtain ⟨rows, ran, there⟩ := found [t] t "http://e/p" pathValue List.mem_cons_self rfl absolute
    chars rfl askable
  have none : isLookedUp "http://e/p" pathValue (Fact.ofTriple t) = false := by decide +kernel
  rw [run_lookupText absolute askable [] _ chars 0 {} rfl, List.map_singleton,
    List.filter_cons_of_neg (by simp [none])] at ran
  have empty : [] = rows := congrArg QueryResult.rows (Except.ok.inj ran)
  rw [← empty] at there
  cases there

end Query

end Ontogram
