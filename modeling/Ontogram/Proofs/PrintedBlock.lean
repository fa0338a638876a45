import Ontogram.Proofs.PrintedClause

set_option autoImplicit false

namespace Ontogram.Query

open Text

/-- The braces of a block of patterns are partners, as far as the scan of braces counts them: in a
text of this block alone it comes to the brace behind it. -/
def IsLevel (patterns : List TriplePattern) : Prop :=
  closeBraces 1 (patterns.flatMap patternLine ++ ['\n', '\x7d']) = some []

instance : DecidablePred IsLevel := fun patterns => inferInstanceAs
  (Decidable (closeBraces 1 (patterns.flatMap patternLine ++ ['\n', '\x7d']) = some []))

theorem getLast?_of_suffix {c : Char} {back cs : List Char} (h : cs.getLast? ≠ some c)
    (suffix : back <:+ cs) : back.getLast? ≠ some c := by
  obtain ⟨front, rfl⟩ := suffix
  by_cases empty : back = []
  · simp [empty]
  · rwa [List.getLast?_append_of_ne_nil _ empty] at h

/-- A quoted text does not go on over the end of a line in front of which no backslash stands. -/
theorem exists_quoteRun_line {q : Char} (quote : q = '"' ∨ q = '\x27') {cs : List Char}
    (last : cs.getLast? ≠ some '\\') :
    ∃ left, left <:+ cs ∧ ∀ rest, quoteRun q (cs ++ '\n' :: rest) = left ++ '\n' :: rest := by
  have solid : q ≠ '\\' ∧ q ≠ '\n' := by rcases quote with rfl | rfl <;> decide
  -- A step takes up to three characters. Only one with a backslash could take the line break along.
  induction length : cs.length using Nat.strong_induction_on generalizing cs with
  | _ k ih =>
  subst length
  have stay (same : ∀ rest, quoteRun q (cs ++ '\n' :: rest) = cs ++ '\n' :: rest) :
      ∃ left, left <:+ cs ∧ ∀ rest, quoteRun q (cs ++ '\n' :: rest) = left ++ '\n' :: rest :=
    ⟨cs, List.suffix_rfl, same⟩
  have pass (back : List Char) (suffix : back <:+ cs) (shorter : back.length < cs.length)
      (same : ∀ rest, quoteRun q (cs ++ '\n' :: rest) = quoteRun q (back ++ '\n' :: rest)) :
      ∃ left, left <:+ cs ∧ ∀ rest, quoteRun q (cs ++ '\n' :: rest) = left ++ '\n' :: rest := by
    obtain ⟨left, inside, run⟩ := ih back.length shorter (getLast?_of_suffix last suffix) rfl
    exact ⟨left, inside.trans suffix, fun rest => (same rest).trans (run rest)⟩
  cases cs with
  | nil => exact stay fun rest => quoteRun_break solid.2.symm (Or.inl rfl) rest
  | cons c cs =>
    by_cases escape : c = '\\'
    · subst escape
      cases cs with
      | nil => exact absurd rfl last
      | cons d cs =>
        by_cases letter : d = 'x'
        · subst letter
          cases cs with
          | nil =>
            exact stay fun rest => (quoteRun_hexadecimal q '\n' rest).trans (if_neg (by decide))
          | cons e cs =>
            by_cases digit : isHexadecimal e = true
            · exact pass cs ⟨['\\', 'x', e], rfl⟩ (by simp; omega) fun rest =>
                (quoteRun_hexadecimal q e _).trans (if_pos digit)
            · exact stay fun rest => (quoteRun_hexadecimal q e _).trans (if_neg digit)
        · exact pass cs ⟨['\\', d], rfl⟩ (by simp) fun rest =>
            quoteRun_escape letter _
    by_cases mark : c = q
    · subst mark
      cases cs with
      | nil =>
        exact stay fun rest => (quoteRun_quote solid.1 '\n' rest).trans (if_neg solid.2.symm)
      | cons d cs =>
        by_cases double : d = c
        · subst double
          exact pass cs ⟨[d, d], rfl⟩ (by simp) fun rest =>
            (quoteRun_quote solid.1 d _).trans (if_pos rfl)
        · exact stay fun rest => (quoteRun_quote solid.1 d _).trans (if_neg double)
    by_cases line : c = '\n' ∨ c = '\r'
    · exact stay fun rest => quoteRun_break mark line _
    · obtain ⟨feed, back⟩ := not_or.1 line
      exact pass cs (List.suffix_cons c cs) (by simp) fun rest =>
        quoteRun_plain mark escape feed back _

/-- The quoted text at the front of a line ends in it, or there is none. -/
theorem quotedRest?_line {c : Char} {cs : List Char} (last : (c :: cs).getLast? ≠ some '\\') :
    ∃ left : Option (List Char), (∀ back ∈ left, back <:+ cs) ∧
      ∀ rest, quotedRest? (c :: (cs ++ '\n' :: rest)) = left.map (· ++ '\n' :: rest) := by
  by_cases quote : c = '"' ∨ c = '\x27'
  · have inner := getLast?_of_suffix last (List.suffix_cons c cs)
    obtain ⟨left, inside, run⟩ := exists_quoteRun_line quote inner
    cases left with
    | nil =>
      have solid : c ≠ '\n' := by rcases quote with rfl | rfl <;> decide
      refine ⟨none, nofun, fun rest => ?_⟩
      rw [quotedRest?_eq_closedBy quote, run]
      exact if_neg solid.symm
    | cons d left =>
      refine ⟨if d = c then some left else none, ?_, fun rest => ?_⟩
      · intro back hb
        split at hb
        · obtain rfl := Option.some.inj hb
          exact (List.suffix_cons d left).trans inside
        · cases hb
      · rw [quotedRest?_eq_closedBy quote, run]
        change (if d = c then some (left ++ '\n' :: rest) else none) = _
        split <;> rfl
  · exact ⟨none, nofun, fun rest => quotedRest?_eq_none quote _⟩

/-- Where a brace behind some lines closes all that is open, one brace is open at their end. -/
theorem closeBraces_line {cs : List Char} {depth : Nat} (last : cs.getLast? ≠ some '\\')
    (opened : depth ≠ 0) (level : closeBraces depth (cs ++ ['\n', '\x7d']) = some [])
    (rest : List Char) : closeBraces depth (cs ++ '\n' :: rest) = closeBraces 1 ('\n' :: rest) := by
  -- On the length, since a quoted text is passed at once.
  induction length : cs.length using Nat.strong_induction_on generalizing cs depth with
  | _ k ih =>
  subst length
  cases cs with
  | nil =>
    have brace : closeBraces depth ['\x7d'] = some [] := by
      rwa [List.nil_append, closeBraces_char (by decide)] at level
    rw [closeBraces_unquoted rfl, if_neg (by decide), if_pos rfl] at brace
    by_cases one : depth ≤ 1
    · obtain rfl : depth = 1 := by omega
      rfl
    · rw [if_neg one, closeBraces] at brace
      cases brace
  | cons c cs =>
    have next {back : List Char} {below : Nat} (suffix : back <:+ cs) (opened : below ≠ 0)
        (level : closeBraces below (back ++ ['\n', '\x7d']) = some []) :
        closeBraces below (back ++ '\n' :: rest) = closeBraces 1 ('\n' :: rest) :=
      ih back.length (Nat.lt_succ_of_le suffix.length_le)
        (getLast?_of_suffix last (suffix.trans (List.suffix_cons c cs))) opened level rfl
    rw [List.cons_append] at level ⊢
    obtain ⟨left, inside, quoted⟩ := quotedRest?_line last
    cases left with
    | some back =>
      rw [closeBraces_quoted (quoted _)] at level ⊢
      exact next (inside back rfl) opened level
    | none =>
      rw [closeBraces_unquoted (quoted _)] at level ⊢
      by_cases left : c = '\x7b'
      · rw [if_pos left] at level ⊢
        exact next List.suffix_rfl (Nat.succ_ne_zero depth) level
      rw [if_neg left] at level ⊢
      by_cases right : c = '\x7d'
      · rw [if_pos right] at level ⊢
        by_cases one : depth ≤ 1
        · rw [if_pos one] at level
          simp at level
        · rw [if_neg one] at level ⊢
          exact next List.suffix_rfl (by omega) level
      · rw [if_neg right] at level ⊢
        exact next List.suffix_rfl opened level

theorem getLast?_text_pattern (p : TriplePattern) : p.text.toList.getLast? = some '.' := by
  have text : p.text.toList = p.subject.text.toList ++ ' ' :: (p.predicate.text.toList ++
      ' ' :: (p.object.text.toList ++ [' '])) ++ ['.'] := by
    simp [toList_text_pattern]
  rw [text, List.getLast?_concat]

theorem getLast?_patternLines (patterns : List TriplePattern) :
    (patterns.flatMap patternLine).getLast? ≠ some '\\' := by
  induction patterns with
  | nil => simp
  | cons p patterns ih =>
    have line : (patternLine p).getLast? = some '.' := by
      simp [patternLine, List.getLast?_cons, getLast?_text_pattern]
    rw [List.flatMap_cons, List.getLast?_append, line]
    cases last : (patterns.flatMap patternLine).getLast? with
    | none => simp
    | some c => rwa [last] at ih

/-- A level block is closed by the brace behind it, whatever follows. -/
theorem closeBraces_patternLines {patterns : List TriplePattern} (level : IsLevel patterns)
    (tail : List Char) :
    closeBraces 1 (patterns.flatMap patternLine ++ '\n' :: '\x7d' :: tail) = some tail := by
  rw [closeBraces_line (getLast?_patternLines patterns) Nat.one_ne_zero level,
    closeBraces_char (by decide), closeBraces_close]

/-! Patterns. -/

def lineTokens (p : TriplePattern) : List (List Char) :=
  [p.subject.text.toList, p.predicate.text.toList, p.object.text.toList, ['.']]

section Patterns

variable {patterns : List TriplePattern}
  (terms : ∀ p ∈ patterns, ∀ t ∈ p.terms, t.IsToken ∧ t.IsLegible)
include terms

/-- The tokens of a block are the terms of its patterns, and a full stop behind each pattern. -/
theorem tokensOf_patternLines :
    tokensOf (patterns.flatMap patternLine ++ ['\n']) = patterns.flatMap lineTokens := by
  induction patterns with
  | nil => exact (tokenizes.blank '\n' [] (by decide)).trans tokenizes.nil
  | cons p patterns ih =>
    obtain ⟨here, others⟩ := List.forall_mem_cons.1 terms
    simp only [TriplePattern.terms, List.forall_mem_cons] at here
    obtain ⟨⟨subject, subject'⟩, ⟨predicate, predicate'⟩, ⟨object, object'⟩, -⟩ := here
    have space (rest : List Char) : tokensOf (' ' :: rest) = tokensOf rest :=
      tokenizes.blank _ rest (by decide)
    rw [List.flatMap_cons, List.append_assoc, patternLine_append,
      tokenizes.blank _ _ (by decide), space,
      space, tokensOf_text subject subject', space, tokensOf_text predicate predicate', space,
      tokensOf_text object object', space, tokenizes.cons_of_cut (by decide) (cut_dot _), ih others,
      List.flatMap_cons, lineTokens]
    rfl

/-- The patterns that are read are those written, and no statement is dropped. -/
theorem statements_lineTokens :
    ((statements (patterns.flatMap lineTokens)).filter (!·.isEmpty)).map patternOf? =
      patterns.map some := by
  induction patterns with
  | nil => rfl
  | cons p patterns ih =>
    obtain ⟨here, others⟩ := List.forall_mem_cons.1 terms
    simp only [TriplePattern.terms, List.forall_mem_cons] at here
    obtain ⟨⟨subject, subject'⟩, ⟨predicate, predicate'⟩, ⟨object, object'⟩, -⟩ := here
    have pattern : patternOf? [p.subject.text.toList, p.predicate.text.toList,
        p.object.text.toList] = some p := by
      rw [patternOf?, termOf_text subject subject', termOf_text predicate predicate',
        termOf_text object object']
    simp only [List.flatMap_cons, lineTokens, List.cons_append, List.nil_append, statements,
      if_neg (text_ne_dot _), if_true, consFirst]
    rw [List.filter_cons_of_pos (by rfl), List.map_cons, List.map_cons, pattern, ih others]

end Patterns

end Ontogram.Query
