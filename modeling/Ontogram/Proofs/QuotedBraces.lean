import Ontogram.Proofs.QuoteReached

set_option autoImplicit false

namespace Ontogram.Query

open Text

/-- A quoted text that starts in front of a double quote ends there, whatever follows the quote. -/
def StopsInFront (q : Char) (front : List Char) : Prop :=
  ∃ d stop, ∀ rest, quoteRun q (front ++ '"' :: rest) = d :: (stop ++ '"' :: rest)

/-- It has a quote behind it to close it. -/
def MeetsQuote (q : Char) (front : List Char) : Prop :=
  ∀ rest, quoteRun q (front ++ '"' :: rest) = quoteRun q ('"' :: rest)

/-- It goes on behind the quote. -/
def PassesQuote (q : Char) (front : List Char) : Prop :=
  ∀ rest, quoteRun q (front ++ '"' :: rest) = quoteRun q rest

/-- A quoted text in front of a double quote stops, meets the quote or passes it. -/
def RunsInFront (q : Char) (front : List Char) : Prop :=
  StopsInFront q front ∨ MeetsQuote q front ∨ PassesQuote q front

section Runs

variable {q : Char}

theorem RunsInFront.pass {front left : List Char}
    (same : ∀ cs, quoteRun q (front ++ cs) = quoteRun q (left ++ cs)) (h : RunsInFront q left) :
    RunsInFront q front := by
  rcases h with ⟨d, stop, run⟩ | run | run
  · exact Or.inl ⟨d, stop, fun rest => (same _).trans (run rest)⟩
  · exact Or.inr (Or.inl fun rest => (same _).trans (run rest))
  · exact Or.inr (Or.inr fun rest => (same _).trans (run rest))

theorem RunsInFront.stay {c : Char} {front : List Char}
    (same : ∀ cs, quoteRun q (c :: (front ++ '"' :: cs)) = c :: (front ++ '"' :: cs)) :
    RunsInFront q (c :: front) :=
  Or.inl ⟨c, front, same⟩

theorem runsInFront (slash : q ≠ '\\') (feed : q ≠ '\n') (back : q ≠ '\r') (front : List Char) :
    RunsInFront q front := by
  induction length : front.length using Nat.strong_induction_on generalizing front with
  | _ k ih =>
  subst length
  cases front with
  | nil => exact Or.inr (Or.inl fun rest => rfl)
  | cons c front =>
    have next (left : List Char) (suffix : left <:+ front) : RunsInFront q left :=
      ih left.length (Nat.lt_succ_of_le suffix.length_le) left rfl
    by_cases escape : c = '\\'
    · subst escape
      cases front with
      | nil => exact Or.inr (Or.inr fun rest => quoteRun_escape (by decide) rest)
      | cons d front =>
        by_cases letter : d = 'x'
        · subst letter
          cases front with
          | nil => exact .stay fun cs => (quoteRun_hexadecimal q '"' cs).trans (if_neg (by decide))
          | cons e front =>
            by_cases digit : isHexadecimal e = true
            · refine .pass (fun cs => ?_) (next front ⟨['x', e], rfl⟩)
              exact (quoteRun_hexadecimal q e (front ++ cs)).trans (if_pos digit)
            · exact .stay fun cs =>
                (quoteRun_hexadecimal q e (front ++ '"' :: cs)).trans (if_neg digit)
        · exact .pass (fun cs => quoteRun_escape letter (front ++ cs)) (next front ⟨[d], rfl⟩)
    by_cases quote : c = q
    · subst quote
      cases front with
      | nil =>
        by_cases double : '"' = c
        · subst double
          exact Or.inr (Or.inr fun rest => (quoteRun_quote slash '"' rest).trans (if_pos rfl))
        · exact .stay fun cs => (quoteRun_quote slash '"' cs).trans (if_neg double)
      | cons d front =>
        by_cases double : d = c
        · subst double
          refine .pass (fun cs => ?_) (next front ⟨[d], rfl⟩)
          exact (quoteRun_quote slash d (front ++ cs)).trans (if_pos rfl)
        · exact .stay fun cs => (quoteRun_quote slash d (front ++ '"' :: cs)).trans (if_neg double)
    by_cases line : c = '\n' ∨ c = '\r'
    · exact .stay fun cs => quoteRun_break quote line (front ++ '"' :: cs)
    · obtain ⟨feed, back⟩ := not_or.1 line
      exact .pass (fun cs => quoteRun_plain quote escape feed back (front ++ cs))
        (next front List.suffix_rfl)

end Runs

/-! Values. -/

namespace IsQuotable

variable {c : Char} {value : List Char}

theorem of_prepend (front : List Char)
    (pass : ∀ cs, quotedTail? (front ++ cs) =
      (quotedTail? cs).map fun found => (front ++ found.1, found.2))
    (h : IsQuotable (front ++ value)) : IsQuotable value := by
  rw [IsQuotable, List.append_assoc, pass] at h
  obtain ⟨found, read, same⟩ := Option.map_eq_some_iff.1 h
  obtain ⟨body, rest⟩ := found
  obtain ⟨text, rfl⟩ := Prod.mk.inj same
  have whole : body = value ++ ['"'] := List.append_cancel_left text
  rw [whole] at read
  exact read

theorem of_cons (quote : c ≠ '"') (slash : c ≠ '\\') (h : IsQuotable (c :: value)) :
    IsQuotable value :=
  of_prepend [c] (quotedTail?_append_plain [c] (by simp [quote, slash])) h

theorem of_escape (h : IsQuotable ('\\' :: c :: value)) : IsQuotable value := by
  by_cases line : c = '\n'
  · rw [IsQuotable, List.cons_append, List.cons_append, quotedTail?, if_pos line] at h
    cases h
  · exact of_prepend ['\\', c] (quotedTail?_escape line) h

theorem ne_quote (h : IsQuotable (c :: value)) : c ≠ '"' := by
  rintro rfl
  have closed : quotedTail? ('"' :: (value ++ ['"'])) = some (['"'], value ++ ['"']) := by
    simp [quotedTail?]
  rw [IsQuotable, List.cons_append, closed] at h
  simp at h

theorem not_slash : ¬ IsQuotable ['\\'] := by
  intro h
  cases h

end IsQuotable

/-- The scan of braces reads a value in double quotes to its end, and behind a single quote it comes
to a single quote in the value or goes on behind it. -/
structure IsUnbroken (value : List Char) : Prop where
  double : MeetsQuote '"' value
  single : PassesQuote '\x27' value ∨
    ∃ stop, ∀ rest, quoteRun '\x27' (value ++ '"' :: rest) = '\x27' :: (stop ++ '"' :: rest)

/-- The scan of braces stops in a value in double quotes, and not at a double quote. -/
def BreaksOff (value : List Char) : Prop :=
  ∃ d stop, d ≠ '"' ∧ ∀ rest, quoteRun '"' (value ++ '"' :: rest) = d :: (stop ++ '"' :: rest)

/-- A value is unbroken or the scan of braces stops in it. -/
def IsScanned (value : List Char) : Prop :=
  IsUnbroken value ∨ BreaksOff value

namespace IsScanned

variable {c : Char} {value : List Char}

theorem nil : IsScanned [] :=
  Or.inl ⟨fun _ => rfl, Or.inl fun rest =>
    quoteRun_plain (by decide) (by decide) (by decide) (by decide) rest⟩

theorem pass {left : List Char}
    (double : ∀ cs, quoteRun '"' (value ++ cs) = quoteRun '"' (left ++ cs))
    (single : ∀ cs, quoteRun '\x27' (value ++ cs) = quoteRun '\x27' (left ++ cs))
    (h : IsScanned left) : IsScanned value := by
  rcases h with unbroken | ⟨d, stop, other, run⟩
  · refine Or.inl ⟨fun rest => (double _).trans (unbroken.double rest), ?_⟩
    rcases unbroken.single with run | ⟨stop, run⟩
    · exact Or.inl fun rest => (single _).trans (run rest)
    · exact Or.inr ⟨stop, fun rest => (single _).trans (run rest)⟩
  · exact Or.inr ⟨d, stop, other, fun rest => (double _).trans (run rest)⟩

theorem stay (other : c ≠ '"')
    (same : ∀ cs, quoteRun '"' (c :: (value ++ '"' :: cs)) = c :: (value ++ '"' :: cs)) :
    IsScanned (c :: value) :=
  Or.inr ⟨c, value, other, same⟩

/-- A single quote stops only the scan behind another one, and a doubled one does not. -/
theorem apostrophe (next : ∀ left, left <:+ value → IsQuotable left → IsScanned left)
    (quotable : IsQuotable ('\x27' :: value)) : IsScanned ('\x27' :: value) := by
  have skip (cs : List Char) : quoteRun '"' ('\x27' :: cs) = quoteRun '"' cs :=
    quoteRun_plain (by decide) (by decide) (by decide) (by decide) cs
  have run (d : Char) (cs : List Char) := quoteRun_quote (q := '\x27') (by decide) d cs
  have quotable := quotable.of_cons (by decide) (by decide)
  cases value with
  | nil =>
    exact Or.inl ⟨fun rest => skip _, Or.inr ⟨[], fun rest => (run '"' rest).trans (by simp)⟩⟩
  | cons d value =>
    by_cases double : d = '\x27'
    · subst double
      refine (next value (List.suffix_cons _ _)
        (quotable.of_cons (by decide) (by decide))).pass (fun cs => ?_) fun cs => ?_
      · exact (skip _).trans (skip _)
      · exact (run _ _).trans (if_pos rfl)
    · have single : ∃ stop, ∀ rest, quoteRun '\x27' ('\x27' :: d :: value ++ '"' :: rest) =
          '\x27' :: (stop ++ '"' :: rest) :=
        ⟨d :: value, fun rest => (run d _).trans (if_neg double)⟩
      rcases next (d :: value) List.suffix_rfl quotable with unbroken | ⟨e, stop, other, stops⟩
      · exact Or.inl ⟨fun rest => (skip _).trans (unbroken.double rest), Or.inr single⟩
      · exact Or.inr ⟨e, stop, other, fun rest => (skip _).trans (stops rest)⟩

end IsScanned

theorem isScanned {value : List Char} (quotable : IsQuotable value) : IsScanned value := by
  induction length : value.length using Nat.strong_induction_on generalizing value with
  | _ k ih =>
  subst length
  cases value with
  | nil => exact .nil
  | cons c value =>
    have next (left : List Char) (suffix : left <:+ value) (quotable : IsQuotable left) :
        IsScanned left := ih left.length (Nat.lt_succ_of_le suffix.length_le) quotable rfl
    have quote := quotable.ne_quote
    by_cases escape : c = '\\'
    · subst escape
      cases value with
      | nil => exact absurd quotable IsQuotable.not_slash
      | cons d value =>
        have inner := quotable.of_escape
        by_cases letter : d = 'x'
        · subst letter
          cases value with
          | nil =>
            exact .stay quote fun cs =>
              (quoteRun_hexadecimal '"' '"' cs).trans (if_neg (by decide))
          | cons e value =>
            by_cases digit : isHexadecimal e = true
            · have plain := inner.of_cons (ne_of_class digit (by decide))
                (ne_of_class digit (by decide))
              have passes (q : Char) (cs : List Char) :=
                (quoteRun_hexadecimal q e (value ++ cs)).trans (if_pos digit)
              exact (next value ⟨['x', e], rfl⟩ plain).pass (passes '"') (passes '\x27')
            · exact .stay quote fun cs =>
                (quoteRun_hexadecimal '"' e (value ++ '"' :: cs)).trans (if_neg digit)
        · have passes (q : Char) (cs : List Char) :=
            quoteRun_escape (q := q) letter (value ++ cs)
          exact (next value ⟨[d], rfl⟩ inner).pass (passes '"') (passes '\x27')
    by_cases apostrophe : c = '\x27'
    · subst apostrophe
      exact .apostrophe next quotable
    by_cases line : c = '\n' ∨ c = '\r'
    · exact .stay quote fun cs => quoteRun_break quote line (value ++ '"' :: cs)
    · obtain ⟨feed, back⟩ := not_or.1 line
      have inner := quotable.of_cons quote escape
      exact (next value List.suffix_rfl inner).pass
        (fun cs => quoteRun_plain quote escape feed back (value ++ cs))
        (fun cs => quoteRun_plain apostrophe escape feed back (value ++ cs))

/-- A character that means nothing special in a literal: no quote, backslash, tab or line break. -/
def isValueChar (c : Char) : Bool :=
  !(['"', '\x27', '\\', '\t', '\n', '\r'].contains c)

/-- A value of such characters. -/
def IsPlainValue (value : List Char) : Prop :=
  value.all isValueChar = true

theorem IsPlainValue.notMem {value : List Char} (h : IsPlainValue value) {c : Char}
    (special : isValueChar c = false) : c ∉ value :=
  notMem_of_all h special

theorem IsPlainValue.isQuotable {value : List Char} (h : IsPlainValue value) : IsQuotable value :=
  isQuotable_of_notMem (h.notMem (by decide)) (h.notMem (by decide))

theorem IsPlainValue.quoteRun_append {q : Char} {value : List Char} (h : IsPlainValue value)
    (quote : q = '"' ∨ q = '\x27') (cs : List Char) : quoteRun q (value ++ cs) = quoteRun q cs := by
  have special : isValueChar q = false := by
    rcases quote with rfl | rfl <;> decide
  induction value with
  | nil => rfl
  | cons c value ih =>
    obtain ⟨plain, others⟩ := Bool.and_eq_true_iff.1 h
    have apart (d : Char) (hd : isValueChar d = false) : c ≠ d := ne_of_class plain hd
    rw [List.cons_append, quoteRun_plain (apart q special) (apart '\\' (by decide))
      (apart '\n' (by decide)) (apart '\r' (by decide))]
    exact ih others

theorem IsPlainValue.isUnbroken {value : List Char} (h : IsPlainValue value) :
    IsUnbroken value where
  double rest := h.quoteRun_append (Or.inl rfl) ('"' :: rest)
  single := Or.inl fun rest => (h.quoteRun_append (Or.inr rfl) ('"' :: rest)).trans
    (quoteRun_plain (by decide) (by decide) (by decide) (by decide) rest)

/-! The scan. -/

/-- What is left behind a quoted text whose search for its end stops at `run`. -/
def closedBy (q : Char) : List Char → Option (List Char)
  | c :: rest => if c = q then some rest else none
  | [] => none

theorem quotedRest?_eq_closedBy {q : Char} (quote : q = '"' ∨ q = '\x27') (cs : List Char) :
    quotedRest? (q :: cs) = closedBy q (quoteRun q cs) := by
  rw [quotedRest?, if_pos quote]
  cases quoteRun q cs <;> rfl

theorem quotedRest?_eq_none {c : Char} (quote : ¬(c = '"' ∨ c = '\x27')) (cs : List Char) :
    quotedRest? (c :: cs) = none := by
  rw [quotedRest?, if_neg quote]

/-- What the scan of braces goes on with: it passes over a quoted text at once, and else over one
character. -/
def passBrace : List Char → List Char
  | [] => []
  | c :: cs => (quotedRest? (c :: cs)).getD cs

theorem quoteRun_suffix {q : Char} (quote : q = '"' ∨ q = '\x27') (cs : List Char) :
    quoteRun q cs <:+ cs := by
  have solid : isSpacing q = false ∧ q ≠ '\\' := by
    rcases quote with rfl | rfl <;> decide
  obtain ⟨back, suffix, run, -⟩ := quoteEndsAlike solid.1 solid.2 (kept cs)
  rw [narrow_kept] at run
  have inside := suffix.map Prod.fst
  change narrow back <:+ narrow (kept cs) at inside
  rwa [← run, narrow_kept] at inside

theorem suffix_of_closedBy {q : Char} {run rest : List Char} (h : closedBy q run = some rest) :
    q :: rest = run := by
  cases run with
  | nil => cases h
  | cons c run =>
    by_cases close : c = q
    · rw [closedBy, if_pos close] at h
      rw [close, Option.some.inj h]
    · rw [closedBy, if_neg close] at h
      cases h

theorem advances_passBrace : Advances passBrace := by
  intro cs
  cases cs with
  | nil => exact List.suffix_rfl
  | cons c cs =>
    rw [passBrace]
    by_cases quote : c = '"' ∨ c = '\x27'
    · rw [quotedRest?_eq_closedBy quote]
      cases closed : closedBy c (quoteRun c cs) with
      | none => exact List.suffix_rfl
      | some rest =>
        have run := suffix_of_closedBy closed
        exact (List.suffix_cons c rest).trans (run ▸ quoteRun_suffix quote cs)
    · rw [quotedRest?_eq_none quote]
      exact List.suffix_rfl

section Front

variable {c : Char} {front : List Char}

theorem quotedRest?_of_stopsInFront {d : Char} {stop : List Char} (quote : c = '"' ∨ c = '\x27')
    (run : ∀ rest, quoteRun c (front ++ '"' :: rest) = d :: (stop ++ '"' :: rest))
    (rest : List Char) : quotedRest? (c :: (front ++ '"' :: rest)) =
      (if d = c then some stop else none).map (· ++ '"' :: rest) := by
  rw [quotedRest?_eq_closedBy quote, run, closedBy]
  split <;> rfl

theorem suffix_of_stopsInFront {d : Char} {stop : List Char} (quote : c = '"' ∨ c = '\x27')
    (run : ∀ rest, quoteRun c (front ++ '"' :: rest) = d :: (stop ++ '"' :: rest)) :
    stop <:+ front := by
  obtain ⟨taken, text⟩ := run [] ▸ quoteRun_suffix quote (front ++ ['"'])
  rw [← List.cons_append, ← List.append_assoc] at text
  exact ⟨taken ++ [d], by rw [← List.append_cancel_right text]; simp⟩

/-- A quoted text that goes on over the quote does not come to it. -/
theorem quotedRest?_of_passBrace {value back left : List Char} (quote : c = '"' ∨ c = '\x27')
    (beyond : quoteRun c (front ++ inQuotes value back) <:+ inQuotes value back)
    (next : passBrace (c :: (front ++ inQuotes value back)) = left ++ inQuotes value back) :
    quotedRest? (c :: (front ++ inQuotes value back)) = none := by
  cases read : quotedRest? (c :: (front ++ inQuotes value back)) with
  | none => rfl
  | some rest =>
    rw [passBrace, read, Option.getD_some] at next
    rw [quotedRest?_eq_closedBy quote] at read
    have longer := (suffix_of_closedBy read ▸ beyond).length_le
    rw [next, List.length_cons, List.length_append] at longer
    omega

theorem beyond_of_runs (quote : c = '"' ∨ c = '\x27')
    (runs : MeetsQuote c front ∨ PassesQuote c front) (rest : List Char) :
    quoteRun c (front ++ '"' :: rest) <:+ '"' :: rest := by
  rcases runs with meets | passes
  · exact meets rest ▸ quoteRun_suffix quote ('"' :: rest)
  · rw [passes rest]
    exact (quoteRun_suffix quote rest).trans (List.suffix_cons '"' rest)

end Front

theorem runsInFront_of_quote {q : Char} (quote : q = '"' ∨ q = '\x27') (front : List Char) :
    RunsInFront q front := by
  rcases quote with rfl | rfl <;>
    exact runsInFront (by decide) (by decide) (by decide) front

/-! The brace that closes a block. -/

/-- A block that a literal is part of is closed in front of the literal or behind it, and at the
same place for all values of a class. -/
def ClosedAlike (p : List Char → Prop) (back : List Char) (depth : Nat) (front : List Char) :
    Prop :=
  (∃ left, ∀ value, p value →
      closeBraces depth (front ++ inQuotes value back) = some (left ++ inQuotes value back)) ∨
    ∃ result, ∀ value, p value → closeBraces depth (front ++ inQuotes value back) = result

section Alike

variable {p : List Char → Prop} {back : List Char}

theorem ClosedAlike.pass {depth next : Nat} {front left : List Char}
    (same : ∀ value, p value → closeBraces depth (front ++ inQuotes value back) =
      closeBraces next (left ++ inQuotes value back))
    (h : ClosedAlike p back next left) : ClosedAlike p back depth front := by
  rcases h with ⟨stop, closed⟩ | ⟨result, closed⟩
  · exact Or.inl ⟨stop, fun value hv => (same value hv).trans (closed value hv)⟩
  · exact Or.inr ⟨result, fun value hv => (same value hv).trans (closed value hv)⟩

theorem ClosedAlike.mono {q : List Char → Prop} {depth : Nat} {front : List Char}
    (sub : ∀ value, q value → p value) (h : ClosedAlike p back depth front) :
    ClosedAlike q back depth front := by
  rcases h with ⟨left, closed⟩ | ⟨result, closed⟩
  · exact Or.inl ⟨left, fun value hv => closed value (sub value hv)⟩
  · exact Or.inr ⟨result, fun value hv => closed value (sub value hv)⟩

/-- A step of the scan in front of the literal that is the same for all values. -/
theorem ClosedAlike.cons {c : Char} {front : List Char} (found : Option (List Char))
    (read : ∀ value, p value → quotedRest? (c :: (front ++ inQuotes value back)) =
      found.map (· ++ inQuotes value back))
    (rest : ∀ depth, ClosedAlike p back depth (found.getD front)) (depth : Nat) :
    ClosedAlike p back depth (c :: front) := by
  cases found with
  | some left => exact (rest depth).pass fun value hv => closeBraces_quoted (read value hv) depth
  | none =>
    have step (value : List Char) (hv : p value) := closeBraces_unquoted (read value hv) depth
    by_cases opening : c = '\x7b'
    · exact (rest (depth + 1)).pass fun value hv => (step value hv).trans (if_pos opening)
    by_cases closing : c = '\x7d'
    · have step (value : List Char) (hv : p value) :=
        ((step value hv).trans (if_neg opening)).trans (if_pos closing)
      by_cases last : depth ≤ 1
      · exact Or.inl ⟨front, fun value hv => (step value hv).trans (if_pos last)⟩
      · exact (rest (depth - 1)).pass fun value hv => (step value hv).trans (if_neg last)
    · exact (rest depth).pass fun value hv =>
        ((step value hv).trans (if_neg opening)).trans (if_neg closing)

/-- Where the scan comes to the opening quote for each value, it does the same in front of it. -/
theorem exists_quotedRest?_front {c : Char} {front : List Char}
    (next : ∀ value, p value → ∃ left,
      passBrace (c :: (front ++ inQuotes value back)) = left ++ inQuotes value back) :
    ∃ found : Option (List Char), ∀ value, p value →
      quotedRest? (c :: (front ++ inQuotes value back)) = found.map (· ++ inQuotes value back) := by
  by_cases quote : c = '"' ∨ c = '\x27'
  · rcases runsInFront_of_quote quote front with ⟨d, stop, run⟩ | runs
    · exact ⟨_, fun value _ => quotedRest?_of_stopsInFront quote run _⟩
    · refine ⟨none, fun value hv => ?_⟩
      obtain ⟨left, passed⟩ := next value hv
      exact quotedRest?_of_passBrace quote (beyond_of_runs quote runs _) passed
  · exact ⟨none, fun value _ => quotedRest?_eq_none quote _⟩

theorem closedAlike_of_reaches {front value : List Char} (own : p value)
    (same : ∀ depth, ∃ result, ∀ value, p value → closeBraces depth (inQuotes value back) = result)
    (reached : ∀ value, p value →
      Reaches passBrace (front ++ inQuotes value back) (inQuotes value back)) (depth : Nat) :
    ClosedAlike p back depth front := by
  induction length : front.length using Nat.strong_induction_on generalizing front depth with
  | _ k ih =>
  subst length
  cases front with
  | nil => exact Or.inr (same depth)
  | cons c front =>
    have steps (value : List Char) (hv : p value) :=
      (reached value hv).exists_step advances_passBrace
    obtain ⟨found, read⟩ : ∃ found : Option (List Char), ∀ value, p value →
        quotedRest? (c :: (front ++ inQuotes value back)) = found.map (· ++ inQuotes value back) :=
      exists_quotedRest?_front fun value hv => (steps value hv).imp fun _ h => h.2.1
    have place (value : List Char) (hv : p value) : found.getD front <:+ front ∧
        Reaches passBrace (found.getD front ++ inQuotes value back) (inQuotes value back) := by
      obtain ⟨left, within, next, reached⟩ := steps value hv
      have same : left = found.getD front := by
        rw [passBrace, read value hv] at next
        cases found <;> exact (List.append_cancel_right next).symm
      rw [← same]
      exact ⟨within, reached⟩
    exact .cons found read (fun depth => ih _ (Nat.lt_succ_of_le (place value own).1.length_le)
      (fun value hv => (place value hv).2) depth rfl) depth

end Alike

section Values

variable {old new back : List Char}

/-- What the scan finds behind an unbroken value in quotes does not depend on the value. -/
theorem IsUnbroken.quotedRest?_eq (h : IsUnbroken old) (back : List Char) :
    quotedRest? (inQuotes old back) = closedBy '"' (quoteRun '"' ('"' :: back)) := by
  rw [inQuotes, quotedRest?_eq_closedBy (Or.inl rfl), h.double]

/-- A value in quotes is unbroken where the scan finds it closed. -/
theorem isUnbroken_of_closed (quotable : IsQuotable old)
    (closed : (quotedRest? (inQuotes old back)).isSome = true) : IsUnbroken old := by
  rcases isScanned quotable with unbroken | ⟨d, stop, other, run⟩
  · exact unbroken
  · rw [inQuotes, quotedRest?_eq_closedBy (Or.inl rfl), run, closedBy, if_neg other] at closed
    cases closed

/-- So where it finds an unbroken value closed, it goes on behind it. -/
theorem exists_closeBraces_inQuotes (unbroken : IsUnbroken old)
    (closed : (quotedRest? (inQuotes old back)).isSome = true) (depth : Nat) :
    ∃ result, ∀ value, IsUnbroken value → closeBraces depth (inQuotes value back) = result := by
  obtain ⟨rest, read⟩ := Option.isSome_iff_exists.1 closed
  refine ⟨closeBraces depth rest, fun value unbroken' => ?_⟩
  have read' : quotedRest? (inQuotes value back) = some rest := by
    rw [unbroken'.quotedRest?_eq, ← unbroken.quotedRest?_eq, read]
  rw [inQuotes] at read' ⊢
  rw [closeBraces_quoted read']

/-- Where a quoted text goes on over the quote of a literal that is not empty, and is none, it is
none for another value either. -/
theorem quotedRest?_requoted {c : Char} {front : List Char} (nonempty : old ≠ [])
    (quotable : IsQuotable old) (unbroken : IsUnbroken old) (plain : IsPlainValue new)
    (quote : c = '"' ∨ c = '\x27') (runs : MeetsQuote c front ∨ PassesQuote c front)
    (unread : quotedRest? (c :: (front ++ inQuotes old back)) = none) :
    quotedRest? (c :: (front ++ inQuotes new back)) = none := by
  rw [quotedRest?_eq_closedBy quote] at unread ⊢
  have of_passes (passes : PassesQuote c front) :
      closedBy c (quoteRun c (front ++ inQuotes new back)) = none := by
    rw [inQuotes, passes] at unread ⊢
    rcases quote with rfl | rfl
    · rw [unbroken.double] at unread
      rwa [plain.isUnbroken.double]
    · rw [plain.quoteRun_append (Or.inr rfl),
        quoteRun_plain (by decide) (by decide) (by decide) (by decide)]
      rcases unbroken.single with single | ⟨stop, run⟩
      · rwa [single] at unread
      · rw [run, closedBy, if_pos rfl] at unread
        cases unread
  rcases runs with meets | passes
  · rcases quote with rfl | rfl
    · -- A double quote that meets the opening quote takes it for the closing one.
      obtain ⟨d, old, rfl⟩ := List.exists_cons_of_ne_nil nonempty
      rw [inQuotes, meets, List.cons_append, quoteRun_quote (by decide),
        if_neg quotable.ne_quote, closedBy, if_pos rfl] at unread
      cases unread
    · refine of_passes fun rest => (meets rest).trans ?_
      exact quoteRun_plain (by decide) (by decide) (by decide) (by decide) rest
  · exact of_passes passes

/-- The scan comes to the opening quote of a literal if it does so for another value that is not
empty. -/
theorem Reaches.requoted {front : List Char} (nonempty : old ≠ []) (quotable : IsQuotable old)
    (unbroken : IsUnbroken old) (plain : IsPlainValue new)
    (h : Reaches passBrace (front ++ inQuotes old back) (inQuotes old back)) :
    Reaches passBrace (front ++ inQuotes new back) (inQuotes new back) := by
  refine h.induction (motive := fun front =>
    Reaches passBrace (front ++ inQuotes new back) (inQuotes new back)) advances_passBrace
    ⟨0, rfl⟩ ?_
  intro c front left within next reached
  -- What the scan reads in front of the quote is the same for both values.
  have step (found : Option (List Char))
      (read : quotedRest? (c :: (front ++ inQuotes old back)) =
        found.map (· ++ inQuotes old back))
      (read' : quotedRest? (c :: (front ++ inQuotes new back)) =
        found.map (· ++ inQuotes new back)) :
      Reaches passBrace (c :: (front ++ inQuotes new back)) (inQuotes new back) := by
    refine Reaches.step ?_
    rw [passBrace, read] at next
    rw [passBrace, read']
    cases found <;> exact List.append_cancel_right next ▸ reached
  by_cases quote : c = '"' ∨ c = '\x27'
  · rcases runsInFront_of_quote quote front with ⟨d, stop, run⟩ | runs
    · exact step _ (quotedRest?_of_stopsInFront quote run _)
        (quotedRest?_of_stopsInFront quote run _)
    · have unread := quotedRest?_of_passBrace quote (beyond_of_runs quote runs _) next
      exact step none unread
        (quotedRest?_requoted nonempty quotable unbroken plain quote runs unread)
  · exact step none (quotedRest?_eq_none quote _) (quotedRest?_eq_none quote _)

end Values

/-! Values without quotes and braces. -/

/-- A value in which there is nothing for the scan of braces to look at. -/
def IsInertValue (value : List Char) : Prop :=
  IsPlainValue value ∧ ∀ c ∈ value, isInert c = true

/-- A quoted text that goes on over the opening quote ends there or behind the literal, for all
plain values that are not empty. -/
theorem exists_quotedRest?_of_runs {c : Char} {front : List Char} (quote : c = '"' ∨ c = '\x27')
    (runs : MeetsQuote c front ∨ PassesQuote c front) (back : List Char) :
    (∀ value, value ≠ [] → IsPlainValue value →
      quotedRest? (c :: (front ++ inQuotes value back)) = some (value ++ '"' :: back)) ∨
    ∃ found, ∀ value, IsPlainValue value →
      quotedRest? (c :: (front ++ inQuotes value back)) = found := by
  have of_passes (passes : PassesQuote c front) : ∃ found, ∀ value, IsPlainValue value →
      quotedRest? (c :: (front ++ inQuotes value back)) = found := by
    refine ⟨closedBy c (quoteRun c ('"' :: back)), fun value plain => ?_⟩
    rw [quotedRest?_eq_closedBy quote, inQuotes, passes, plain.quoteRun_append quote]
  rcases runs with meets | passes
  · rcases quote with rfl | rfl
    · refine Or.inl fun value nonempty plain => ?_
      obtain ⟨d, value, rfl⟩ := List.exists_cons_of_ne_nil nonempty
      rw [quotedRest?_eq_closedBy (Or.inl rfl), inQuotes, meets, List.cons_append,
        quoteRun_quote (by decide), if_neg plain.isQuotable.ne_quote, closedBy, if_pos rfl]
    · refine Or.inr (of_passes fun rest => (meets rest).trans ?_)
      exact quoteRun_plain (by decide) (by decide) (by decide) (by decide) rest
  · exact Or.inr (of_passes passes)

/-- Even where the scan of braces takes the quotes of a literal for something else, it closes the
block alike for all values in which there is nothing for it to look at. -/
theorem closedAlike_of_isInertValue (back front : List Char) (depth : Nat) :
    ClosedAlike (fun value => value ≠ [] ∧ IsInertValue value) back depth front := by
  have skip (value : List Char) (inert : IsInertValue value) (depth : Nat) (cs : List Char) :
      closeBraces depth (value ++ cs) = closeBraces depth cs :=
    closeBraces_append inert.2 depth cs
  induction length : front.length using Nat.strong_induction_on generalizing front depth with
  | _ k ih =>
  subst length
  cases front with
  | nil =>
    refine Or.inr ?_
    cases closed : closedBy '"' (quoteRun '"' ('"' :: back)) with
    | some rest =>
      refine ⟨closeBraces depth rest, fun value hv => ?_⟩
      have read := (hv.2.1.isUnbroken.quotedRest?_eq back).trans closed
      rw [List.nil_append]
      exact closeBraces_quoted read depth
    | none =>
      refine ⟨closeBraces depth ('"' :: back), fun value hv => ?_⟩
      have read := (hv.2.1.isUnbroken.quotedRest?_eq back).trans closed
      rw [List.nil_append]
      refine (closeBraces_unquoted read depth).trans ?_
      rw [if_neg (by decide), if_neg (by decide), skip value hv.2]
  | cons c front =>
    have shorter (left : List Char) (within : left <:+ front) (depth : Nat) :=
      ih left.length (Nat.lt_succ_of_le within.length_le) left depth rfl
    have unread := shorter front List.suffix_rfl
    by_cases quote : c = '"' ∨ c = '\x27'
    · rcases runsInFront_of_quote quote front with ⟨d, stop, run⟩ | runs
      · have within := suffix_of_stopsInFront quote run
        refine .cons _ (fun value _ => quotedRest?_of_stopsInFront quote run _) (fun depth => ?_)
          depth
        split
        · exact shorter stop within depth
        · exact unread depth
      · rcases exists_quotedRest?_of_runs quote runs back with ends | ⟨found, read⟩
        · refine Or.inr ⟨closeBraces depth ('"' :: back), fun value hv => ?_⟩
          rw [List.cons_append, closeBraces_quoted (ends value hv.1 hv.2.1), skip value hv.2]
        · cases found with
          | some rest =>
            exact Or.inr ⟨closeBraces depth rest, fun value hv =>
              closeBraces_quoted (read value hv.2.1) depth⟩
          | none => exact .cons none (fun value hv => read value hv.2.1) unread depth
    · exact .cons none (fun value _ => quotedRest?_eq_none quote _) unread depth

end Ontogram.Query
