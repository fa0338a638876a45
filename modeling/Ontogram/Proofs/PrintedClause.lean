import Ontogram.Proofs.PrintedTerm

set_option autoImplicit false

namespace Ontogram.Query

open Text
open PatternTerm (IsToken IsLegible)

/-- No prefix declaration is read in a text. -/
def Undeclared (cs : List Char) : Prop :=
  ∀ before, find? prefixClause? before cs = none

theorem isSolid_of_isBracketChar {c : Char} (h : isBracketChar c = true) : isSolid c = true := by
  have apart (d : Char) (hd : isBracketChar d = false) : c ≠ d := ne_of_class h hd
  simp [isSolid, isGap, apart ' ' (by decide), apart '\t' (by decide), apart '\n' (by decide),
    apart '\r' (by decide), apart '<' (by decide)]

/-- The line of a declaration, with the line break behind it. -/
def declarationLine (e : String × String) : List Char :=
  "PREFIX".toList ++ ' ' :: (e.1.toList ++ ':' :: ' ' :: (bracket e.2.toList ++ ['\n']))

/-- The line of a pattern, with the line break in front of it. -/
def patternLine (p : TriplePattern) : List Char :=
  '\n' :: ' ' :: ' ' :: p.text.toList

/-- The line of the limit, with the line break in front of it. -/
def limitLine (limit : Option Int) : List Char :=
  (limit.map fun n => '\n' :: ("LIMIT".toList ++ ' ' :: (toString n).toList)).getD []

theorem toList_text_pattern (p : TriplePattern) : p.text.toList =
    p.subject.text.toList ++ ' ' :: (p.predicate.text.toList ++
      ' ' :: (p.object.text.toList ++ [' ', '.'])) := by
  simp [TriplePattern.text, TriplePattern.terms]

theorem patternLine_append (p : TriplePattern) (rest : List Char) : patternLine p ++ rest =
    '\n' :: ' ' :: ' ' :: (p.subject.text.toList ++ ' ' :: (p.predicate.text.toList ++
      ' ' :: (p.object.text.toList ++ ' ' :: '.' :: rest))) := by
  simp [patternLine, toList_text_pattern]

theorem intercalate_append_cons {α : Type} (sep : List α) (front back : List (List α))
    (x : List α) : sep.intercalate (front ++ x :: back) =
      front.flatMap (· ++ sep) ++ (x ++ back.flatMap (sep ++ ·)) := by
  induction front with
  | nil =>
    induction back generalizing x with
    | nil => simp [List.intercalate]
    | cons y back ih =>
      rw [List.nil_append, List.intercalate_cons_of_ne_nil (List.cons_ne_nil y back)]
      have tail := ih y
      rw [List.nil_append] at tail
      simp [tail]
  | cons y front ih =>
    rw [List.cons_append, List.intercalate_cons_of_ne_nil (by simp), ih]
    simp

theorem declarationLine_append (e : String × String) (rest : List Char) :
    declarationLine e ++ rest = "PREFIX".toList ++ ' ' :: (e.1.toList ++
      ':' :: ' ' :: '<' :: (e.2.toList ++ '>' :: '\n' :: rest)) := by
  delta declarationLine
  simp only [bracket, List.append_assoc, List.cons_append, List.nil_append]

theorem declarationLine_eq (e : String × String) :
    ("PREFIX " ++ e.1 ++ ": <" ++ e.2 ++ ">").toList ++ ['\n'] = declarationLine e := by
  have split (a b c d : String) : (a ++ b ++ c ++ d ++ ">").toList ++ ['\n'] =
      a.toList ++ (b.toList ++ (c.toList ++ (d.toList ++ ['>', '\n']))) := by
    simp
  have word : "PREFIX ".toList = "PREFIX".toList ++ [' '] := by decide
  have colon : ": <".toList = [':', ' ', '<'] := by decide
  refine (split _ _ _ _).trans ?_
  rw [word, colon, ← List.append_nil (declarationLine e), declarationLine_append]
  simp only [List.cons_append, List.append_assoc, List.nil_append]

theorem limitLine_eq (limit : Option Int) :
    (limit.map fun n => "LIMIT " ++ toString n).toList.flatMap (fun s => '\n' :: s.toList) =
      limitLine limit := by
  have word : "LIMIT ".toList = "LIMIT".toList ++ [' '] := by decide
  cases limit with
  | none => rfl
  | some n =>
    simp only [Option.map_some, Option.toList_some, List.flatMap_singleton, String.toList_append,
      word, limitLine, Option.getD_some, List.append_assoc, List.singleton_append]

theorem toList_text (q : SelectQuery) : q.text.toList =
    q.prefixes.entries.flatMap declarationLine ++ (q.selectLine.toList ++
      '\n' :: ("WHERE".toList ++ ' ' :: '\x7b' :: (q.patterns.flatMap patternLine ++
        '\n' :: '\x7d' :: limitLine q.limit))) := by
  have newline : "\n".toList = ['\n'] := by decide
  have opening : "WHERE \x7b".toList = "WHERE".toList ++ [' ', '\x7b'] := by decide
  have closing : "\x7d".toList = ['\x7d'] := by decide
  have declared : ((q.prefixes.entries.map fun e => "PREFIX " ++ e.1 ++ ": <" ++ e.2 ++ ">").map
      String.toList).flatMap (· ++ ['\n']) = q.prefixes.entries.flatMap declarationLine := by
    rw [List.map_map, List.flatMap_map]
    exact List.flatMap_congr fun e _ => declarationLine_eq e
  have stated : ((q.patterns.map fun p => "  " ++ p.text).map String.toList).flatMap (['\n'] ++ ·) =
      q.patterns.flatMap patternLine := by
    rw [List.map_map, List.flatMap_map]
    exact List.flatMap_congr fun p _ => by simp [patternLine]
  have limited : ((q.limit.map fun n => "LIMIT " ++ toString n).toList.map String.toList).flatMap
      (['\n'] ++ ·) = limitLine q.limit := by
    rw [List.flatMap_map]
    exact limitLine_eq q.limit
  rw [SelectQuery.text, String.toList_intercalate, newline]
  simp only [List.map_append, List.map_cons, List.append_assoc, List.cons_append, List.nil_append]
  rw [intercalate_append_cons, List.flatMap_cons, List.flatMap_append, List.flatMap_cons, declared,
    stated, limited, opening, closing]
  simp only [List.append_assoc, List.cons_append, List.nil_append]

/-! The character in front of a clause. -/

section Clear

variable {before : Option Char} (clear : before.any touchesKeyword = false)
include clear

theorem keyword?_clear (word : String) (cs : List Char) :
    keyword? word before cs = keyword? word none cs := by
  simp [keyword?, clear]

theorem prefixClause?_clear (cs : List Char) : prefixClause? before cs = prefixClause? none cs := by
  rw [prefixClause?, prefixClause?, keyword?_clear clear]

theorem selectClause?_clear (cs : List Char) : selectClause? before cs = selectClause? none cs := by
  rw [selectClause?, selectClause?, keyword?_clear clear]

theorem find?_clear {α : Type} {reader : Option Char → List Char → Option (α × List Char)}
    (same : ∀ {before : Option Char}, before.any touchesKeyword = false →
      ∀ cs, reader before cs = reader none cs) (cs : List Char) :
    find? reader before cs = find? reader none cs := by
  cases cs with
  | nil => rfl
  | cons c cs => rw [find?, find?, same clear]

end Clear

/-! Declarations behind the choice. -/

/-- A text in angle brackets that is opened in front of a text is closed there or not at all. -/
theorem bracketed?_append_of_open {rest : List Char} (left : rest.head? ≠ some '<')
    (right : (span isBracketChar rest).2.head? ≠ some '>') (front : List Char) :
    bracketed? (front ++ rest) =
      (bracketed? front).map fun found => (found.1, found.2 ++ rest) := by
  cases front with
  | nil =>
    cases rest with
    | nil => rfl
    | cons c rest => exact bracketed?_eq_none fun same => left (congrArg some same)
  | cons d front =>
    by_cases opens : d = '<'
    · subst opens
      rcases cut : span isBracketChar front with ⟨name, _ | ⟨e, back⟩⟩
      · have all : ∀ c ∈ front, isBracketChar c = true :=
          List.dropWhile_eq_nil_iff.1 (Prod.mk.inj cut).2
        have beyond : span isBracketChar (front ++ rest) =
            (front ++ (span isBracketChar rest).1, (span isBracketChar rest).2) := by
          simp only [span, List.takeWhile_append_of_pos all, List.dropWhile_append_of_pos all]
        rw [List.cons_append, bracketed?, beyond, bracketed?, cut]
        cases behind : (span isBracketChar rest).2 with
        | nil => rfl
        | cons e more =>
          have other : e ≠ '>' := fun same => right (by rw [behind, same]; rfl)
          simp [other]
      · have some : (span isBracketChar front).2 ≠ [] := by simp [cut]
        have cut' := span_append_of_rest some rest
        rw [cut] at cut'
        by_cases closes : e = '>' <;> simp [bracketed?, cut, cut', closes]
    · rw [List.cons_append, bracketed?_eq_none opens, bracketed?_eq_none opens]
      rfl

theorem isBarrier_head_text (t : PatternTerm) (rest : List Char) :
    ∀ c ∈ (t.text.toList ++ rest).head?, isBarrier c = true := by
  cases t with
  | var name => rw [toList_text_var]; exact forall_head?_cons (by decide) _
  | iri text => rw [toList_text_iri]; exact forall_head?_cons (by decide) _
  | literal l => rw [toList_text_literal]; exact forall_head?_cons (by decide) _

namespace Undeclared

variable {front rest : List Char}

theorem nil : Undeclared [] :=
  fun _ => rfl

/-- Where no place of a text can be read as the start of a declaration, none is read in front of it
either. -/
theorem prepend (h : Undeclared rest)
    (fails : ∀ back, back ≠ [] → back <:+ front → ∀ before,
      prefixClause? before (back ++ rest) = none) :
    Undeclared (front ++ rest) := by
  intro before
  rw [find?_append fails]
  exact h _

/-- A text without colons in front of a barrier declares nothing. -/
theorem append (h : Undeclared rest) (front : List Char) (colon : ':' ∉ front)
    (barred : ∀ c ∈ rest.head?, isBarrier c = true) : Undeclared (front ++ rest) := by
  refine h.prepend fun back _ suffix before => ?_
  cases found : prefixClause? before (back ++ rest) with
  | none => rfl
  | some declared =>
    obtain ⟨free, more, text, unbarred, -⟩ := exists_colon_of_prefixClause? found
    have start {d : Char} {ds : List Char} (shape : rest = d :: ds) : isBarrier d = true :=
      barred d (by rw [shape]; rfl)
    rcases List.append_eq_append_iff.1 text with ⟨inner, rfl, behind⟩ | ⟨inner, rfl, behind⟩
    · cases inner with
      | nil => exact absurd (start behind) (by decide)
      | cons d inner =>
        have open_ := unbarred d (List.mem_append_right back List.mem_cons_self)
        rw [start behind] at open_
        contradiction
    · cases inner with
      | nil => exact absurd (start behind.symm) (by decide)
      | cons d inner =>
        obtain rfl : ':' = d := (List.cons.inj behind).1
        exact absurd (suffix.subset (List.mem_append_right free List.mem_cons_self)) colon

/-- A text in angle brackets declares nothing. -/
theorem bracket {iri : List Char} (h : Undeclared rest)
    (chars : ∀ c ∈ iri, isBracketChar c = true) : Undeclared (Query.bracket iri ++ rest) := by
  refine h.prepend fun back nonempty suffix before => ?_
  have shape : Query.bracket iri = '<' :: iri ++ ['>'] := rfl
  have last : '>' ∈ back := mem_of_suffix_concat nonempty (shape ▸ suffix)
  cases found : prefixClause? before (back ++ rest) with
  | none => rfl
  | some declared =>
    obtain ⟨free, more, text, unbarred, opened⟩ := exists_colon_of_prefixClause? found
    have outside : '>' ∉ free := fun there => absurd (unbarred '>' there) (by decide)
    rcases List.append_eq_append_iff.1 text with ⟨inner, rfl, _⟩ | ⟨inner, rfl, behind⟩
    · exact absurd (List.mem_append_left inner last) outside
    · -- The colon stands between the brackets, and what follows it there is no gap and no bracket.
      cases inner with
      | nil =>
        rw [List.append_nil] at last
        exact absurd last outside
      | cons d inner =>
        obtain ⟨rfl, rfl⟩ := List.cons.inj behind
        have inside : ':' :: inner <:+ iri ++ ['>'] := by
          have within := (List.suffix_append free _).trans suffix
          rcases List.suffix_cons_iff.1 within with same | inside
          · cases (List.cons.inj same).1
          · exact inside
        cases inner with
        | nil =>
          have colon : '>' ∈ [':'] := mem_of_suffix_concat (by simp) inside
          exact absurd colon (by decide)
        | cons e inner =>
          have solid : isSolid e = true := by
            have there := inside.subset (List.mem_cons_of_mem ':' List.mem_cons_self)
            rcases List.mem_append.1 there with there | there
            · exact isSolid_of_isBracketChar (chars e there)
            · rw [List.mem_singleton.1 there]
              decide
          exact absurd rfl (skipGap_of_isSolid solid '<' opened)

/-- A value in quotes declares nothing if it declares nothing by itself, and no bracket that is open
in it is closed behind it. -/
theorem inQuotes {value : List Char} (h : Undeclared ('"' :: rest))
    (undeclared : prefixClauses value = [])
    (unclosed : (span isBracketChar rest).2.head? ≠ some '>') :
    Undeclared (Query.inQuotes value rest) := by
  have silent : find? prefixClause? none value = none := by
    cases found : find? prefixClause? none value with
    | none => rfl
    | some declared => rw [prefixClauses_cons found] at undeclared; cases undeclared
  have open_ : (span isBracketChar ('"' :: rest)).2.head? ≠ some '>' := by
    rwa [span, List.dropWhile_cons_of_pos (by decide)]
  intro before
  have ends (back : List Char) (_ : back ≠ []) (_ : back <:+ value) (before : Option Char) :=
    prefixClause?_closer (c := '"') (by decide)
      (fun inner (_ : inner <:+ back) => bracketed?_append_of_open (by simp) open_ inner) before
  rw [Query.inQuotes, find?_prefixClause?_quote, find?_append_or ends,
    find?_clear (by decide) prefixClause?_clear, silent, h]
  rfl

/-- The text of a term declares nothing, with what is written behind it. -/
theorem text {t : PatternTerm} (token : t.IsToken) (legible : t.IsLegible) (h : Undeclared rest)
    (barred : ∀ c ∈ rest.head?, isBarrier c = true) :
    Undeclared (t.text.toList ++ ' ' :: rest) := by
  have spaced : Undeclared (' ' :: rest) := h.append [' '] (by decide) barred
  cases token with
  | @var name _ =>
    cases legible with
    | var plain =>
      have colon : ':' ∉ '?' :: (name.toList ++ [' ']) := by
        have outside : ':' ∉ name.toList := fun there => plain ':' there (by decide)
        simp [outside]
      have whole := h.append _ colon barred
      rw [toList_text_var]
      simpa using whole
  | @iri text solid =>
    cases legible with
    | iri inner =>
      rw [toList_text_iri]
      exact spaced.bracket (isBracketChar_of_solid solid inner)
  | @literal l _ mark =>
    cases legible with
    | literal _ _ undeclared typed =>
      rw [toList_text_literal, ← inQuotes_append]
      rcases mark_forms mark typed with ⟨colon, chars⟩ | ⟨name, shape, chars⟩
      · have quoted : Undeclared ('"' :: (l.mark ++ ' ' :: rest)) := by
          have whole := h.append ('"' :: (l.mark ++ [' '])) (by simp [colon]) barred
          simpa using whole
        refine quoted.inQuotes undeclared ?_
        rw [span_append_of_all chars (forall_head?_cons (by decide) rest)]
        simp
      · have typed : Undeclared (Query.bracket name ++ ' ' :: rest) := spaced.bracket chars
        have quoted := typed.append ['"', '^', '^'] (by decide)
          (forall_head?_cons (by decide) _)
        rw [shape]
        refine Undeclared.inQuotes quoted undeclared ?_
        simp [span, Query.bracket, show isBracketChar '^' = true by decide,
          show isBracketChar '<' = false by decide]

/-- The lines of patterns declare nothing. -/
theorem patternLines {patterns : List TriplePattern}
    (terms : ∀ p ∈ patterns, ∀ t ∈ p.terms, t.IsToken ∧ t.IsLegible) {front tail : List Char}
    (before : ':' ∉ front) (behind : ':' ∉ tail) :
    Undeclared (front ++ (patterns.flatMap patternLine ++ tail)) := by
  induction patterns generalizing front with
  | nil =>
    have whole := nil.append (front ++ tail) (by simp [before, behind]) (by simp)
    simpa using whole
  | cons p patterns ih =>
    obtain ⟨here, others⟩ := List.forall_mem_cons.1 terms
    simp only [TriplePattern.terms, List.forall_mem_cons] at here
    obtain ⟨⟨subject, subject'⟩, ⟨predicate, predicate'⟩, ⟨object, object'⟩, -⟩ := here
    have next : Undeclared ('.' :: (patterns.flatMap patternLine ++ tail)) :=
      ih others (show ':' ∉ ['.'] by decide)
    have last := next.text object object' (forall_head?_cons (by decide) _)
    have middle := last.text predicate predicate' (isBarrier_head_text p.object _)
    have first := middle.text subject subject' (isBarrier_head_text p.predicate _)
    have whole := first.append (front ++ ['\n', ' ', ' ']) (by simp [before])
      (isBarrier_head_text p.subject _)
    rw [List.flatMap_cons, List.append_assoc, patternLine_append]
    simpa using whole

end Undeclared

/-! Declarations. -/

/-- A name and an IRI that a prefix declaration can say. -/
structure IsDeclarable (e : String × String) : Prop where
  name : ∀ c ∈ e.1.toList, isDeclaredChar c = true
  iri : ∀ c ∈ e.2.toList, isBracketChar c = true

theorem prefixClause?_declarationLine {e : String × String} (h : IsDeclarable e)
    {before : Option Char} (clear : before.any touchesKeyword = false) (rest : List Char) :
    prefixClause? before (declarationLine e ++ rest) = some (e, '\n' :: rest) := by
  have space : Blank [' '] := by simp [Blank]
  have read := prefixClause?_append (show Spells "PREFIX".toList "PREFIX" by decide) h.name h.iri
    space space (forall_head?_cons (by decide) _) clear ('\n' :: rest)
  have text : declarationLine e ++ rest = "PREFIX".toList ++ ([' '] ++ ((e.1.toList ++ [':']) ++
      ([' '] ++ (bracket e.2.toList ++ '\n' :: rest)))) := by
    rw [declarationLine_append]
    simp only [bracket, List.append_assoc, List.cons_append, List.nil_append]
  rw [text, read, String.ofList_toList, String.ofList_toList]

/-- The declarations that are read are those written. -/
theorem prefixClauses_declarationLines {entries : List (String × String)}
    (declarable : ∀ e ∈ entries, IsDeclarable e) {tail gap : List Char} (h : Undeclared tail)
    (blank : Blank gap) :
    prefixClauses (gap ++ (entries.flatMap declarationLine ++ tail)) = entries := by
  induction entries generalizing gap with
  | nil =>
    refine prefixClauses_nil ?_
    rw [find?_blank blank prefixClause?_blank]
    exact h _
  | cons e entries ih =>
    obtain ⟨here, others⟩ := List.forall_mem_cons.1 declarable
    have line := prefixClause?_declarationLine here (blank.clear clear_none)
      (entries.flatMap declarationLine ++ tail)
    have newline : Blank ['\n'] := by simp [Blank]
    have found : find? prefixClause? none
        (gap ++ ((e :: entries).flatMap declarationLine ++ tail)) =
          some (e, '\n' :: (entries.flatMap declarationLine ++ tail)) := by
      rw [find?_blank blank prefixClause?_blank, List.flatMap_cons, List.append_assoc]
      exact find?_eq_some line
    have rest := ih others newline
    rw [List.singleton_append] at rest
    rw [prefixClauses_cons found, rest]

/-- The search for the choice passes over a declaration whose IRI holds none. -/
theorem find?_selectClause?_declarationLine {e : String × String} (h : IsDeclarable e)
    (silent : find? selectClause? none e.2.toList = none) (before : Option Char)
    (rest : List Char) : find? selectClause? before (declarationLine e ++ rest) =
      find? selectClause? (some '\n') rest := by
  have text : declarationLine e ++ rest = ("PREFIX".toList ++ ' ' :: (e.1.toList ++ [':', ' '])) ++
      ['<'] ++ (e.2.toList ++ '>' :: '\n' :: rest) := by
    rw [declarationLine_append]
    simp only [List.append_assoc, List.cons_append, List.nil_append]
  have plain : ∀ c ∈ ("PREFIX".toList ++ ' ' :: (e.1.toList ++ [':', ' '])) ++ ['<'],
      isAsking c = false := by
    simp only [List.forall_mem_append, List.forall_mem_cons]
    have named (c : Char) (hc : c ∈ e.1.toList) : isAsking c = false :=
      isAsking_eq_false_of_class (by decide) (h.name c hc)
    have word : ∀ c ∈ "PREFIX".toList, isAsking c = false := fun c hc =>
      isAsking_eq_false_of_class (p := Char.isAlpha) (by decide)
        (Spells.isAlpha (show Spells "PREFIX".toList "PREFIX" by decide) (by decide) c hc)
    exact ⟨⟨word, by decide, named, by decide, by decide, List.forall_mem_nil _⟩, by decide,
      List.forall_mem_nil _⟩
  have unread (c : Char) (other : upperChar c ≠ 'S') (before : Option Char) (cs : List Char) :
      selectClause? before (c :: cs) = none := by
    rw [selectClause?, keyword?_eq_none (show "SELECT".toList = 'S' :: _ from rfl) other]
    rfl
  rw [text, find?_append]
  · rw [List.getLast?_concat, Option.some_or, find?_append_or fun back _ _ before =>
      endsAt_selectClause (c := '>') (by decide) before back ('\n' :: rest),
      find?_clear (by decide) selectClause?_clear, silent, find?, unread '>' (by decide),
      Option.none_or, find?, unread '\n' (by decide), Option.none_or]
    rfl
  · intro back nonempty suffix before
    exact selectClause?_eq_none (d := '<') (by decide) (mem_of_suffix_concat nonempty suffix)
      (fun c hc => plain c (suffix.subset hc)) before _

end Ontogram.Query
