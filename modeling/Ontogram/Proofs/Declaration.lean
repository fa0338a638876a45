import Ontogram.Proofs.ClauseSearch

set_option autoImplicit false

namespace Ontogram.Query

open Text

/-- No colon is followed by an IRI in brackets. -/
def Quiet (cs : List Char) : Prop :=
  ∀ back, (':' :: back) <:+ cs → ∀ c ∈ (skipGap back).head?, c ≠ '<'

theorem Quiet.of_suffix {cs back : List Char} (h : Quiet cs) (suffix : back <:+ cs) : Quiet back :=
  fun more inside => h more (inside.trans suffix)

theorem Quiet.cons {c : Char} {cs : List Char} (h : Quiet cs)
    (here : c = ':' → ∀ d ∈ (skipGap cs).head?, d ≠ '<') : Quiet (c :: cs) := by
  intro back suffix
  rcases List.suffix_cons_iff.1 suffix with same | inside
  · obtain ⟨colon, rfl⟩ := List.cons.inj same
    exact here colon.symm
  · exact h back inside

theorem Quiet.append {front cs : List Char} (h : Quiet cs) (colon : ':' ∉ front) :
    Quiet (front ++ cs) := by
  induction front with
  | nil => exact h
  | cons c front ih =>
    have tail := ih fun m => colon (List.mem_cons_of_mem c m)
    apply tail.cons
    rintro rfl
    exact absurd List.mem_cons_self colon

/-- A character that is neither white space nor an opening bracket. -/
def isSolid (c : Char) : Bool :=
  !isGap c && c != '<'

theorem skipGap_of_isSolid {c : Char} {cs : List Char} (h : isSolid c = true) :
    ∀ d ∈ (skipGap (c :: cs)).head?, d ≠ '<' := by
  simp only [isSolid, Bool.and_eq_true, Bool.not_eq_true', bne_iff_ne] at h
  rw [skipGap, List.dropWhile_cons_of_neg (by simp [h.1])]
  exact forall_head?_cons (p := fun d => d ≠ '<') h.2 cs

/-- A colon with a solid character behind it is quiet. -/
theorem Quiet.append_solid {front cs : List Char} {c : Char} (h : Quiet (c :: cs))
    (inside : ∀ d ∈ front, isSolid d = true) (hc : isSolid c = true) :
    Quiet (front ++ c :: cs) := by
  induction front with
  | nil => exact h
  | cons d front ih =>
    have tail := ih fun e he => inside e (List.mem_cons_of_mem d he)
    apply tail.cons
    intro _
    cases front with
    | nil => exact skipGap_of_isSolid hc
    | cons e front =>
      exact skipGap_of_isSolid (inside e (List.mem_cons_of_mem d List.mem_cons_self))

theorem isSolid_of_isPlainChar {c : Char} (h : isPlainChar c = true) : isSolid c = true := by
  have apart (d : Char) (hd : isPlainChar d = false) : c ≠ d := ne_of_class h hd
  have gap : isGap c = false := isGap_eq_false_of_isSymbolChar (isSymbolChar_of_isPlainChar h)
  simp [isSolid, gap, apart '<' (by decide)]

theorem isSolid_of_isIriText {c : Char} (h : isIriText c = true) : isSolid c = true := by
  have apart (d : Char) (hd : isIriText d = false) : c ≠ d := ne_of_class h hd
  simp [isSolid, isGap, apart ' ' (by decide), apart '\t' (by decide), apart '\n' (by decide),
    apart '\r' (by decide), apart '<' (by decide)]

/-- An item in front of a quiet text keeps it quiet. -/
def IsQuiet (item : List Char) : Prop :=
  ∀ rest, Quiet rest → Quiet (item ++ rest)

theorem isQuiet_of_colon_notMem {item : List Char} (h : ':' ∉ item) : IsQuiet item :=
  fun _ quiet => quiet.append h

theorem isQuiet_of_plain {item : List Char} (h : ∀ c ∈ item, isPlainChar c = true) :
    IsQuiet item := by
  apply isQuiet_of_colon_notMem
  exact notMem_of_all (List.all_eq_true.2 h) (by decide)

theorem isQuiet_bracket {iri : List Char} (chars : iri.all isIriText = true) :
    IsQuiet (bracket iri) := by
  intro rest quiet
  have closed : Quiet ('>' :: rest) := quiet.cons (by simp)
  have inside : Quiet (iri ++ '>' :: rest) :=
    closed.append_solid (fun c hc => isSolid_of_isIriText (List.all_eq_true.1 chars c hc))
      (by decide)
  have opened : Quiet ('<' :: (iri ++ '>' :: rest)) := inside.cons (by simp)
  simpa [bracket] using opened

theorem isQuiet_qualified {space name : List Char} (hs : IsIdentifier space)
    (hn : IsIdentifier name) : IsQuiet (qualified space name) := by
  intro rest quiet
  have named : Quiet (name ++ rest) := isQuiet_of_plain hn.plain rest quiet
  obtain ⟨c, cs, rfl, letter⟩ := hn.exists_cons
  have marked : Quiet (':' :: (c :: cs ++ rest)) :=
    named.cons fun _ => skipGap_of_isSolid (isSolid_of_isPlainChar (isPlainChar_of_isAlpha letter))
  have spaced := marked.append (hs.notMem (by decide))
  simpa [qualified] using spaced

theorem MarkText.isQuiet {language datatype : Option String} {mark : List Char}
    (h : MarkText language datatype mark) : IsQuiet mark := by
  cases h with
  | none => exact fun _ quiet => quiet
  | @language c tag letter chars =>
    apply isQuiet_of_colon_notMem
    have first : c ≠ ':' := ne_of_class letter (by decide)
    have others : ':' ∉ tag := notMem_of_all chars (by decide)
    simp [first.symm, others]
  | iri chars =>
    intro rest quiet
    exact (isQuiet_bracket chars rest quiet).append (show ':' ∉ ['^', '^'] by decide)
  | qualified hs hn =>
    intro rest quiet
    exact (isQuiet_qualified hs hn rest quiet).append (show ':' ∉ ['^', '^'] by decide)

theorem VariableText.isQuiet {name : String} {text : List Char} (h : VariableText name text) :
    IsQuiet text := by
  cases h with
  | @var mark name marked _ chars =>
    apply isQuiet_of_colon_notMem
    have first : ':' ≠ mark := by
      rcases marked with rfl | rfl <;> decide
    have others : ':' ∉ name := notMem_of_all chars (by decide)
    simp [first, others]

theorem TermText.isQuiet {term : PatternTerm} {text : List Char} (h : TermText term text) :
    IsQuiet text := by
  cases h with
  | var h => exact h.isQuiet
  | iri chars => exact isQuiet_bracket chars
  | qualified hs hn => exact isQuiet_qualified hs hn
  | type => exact isQuiet_of_colon_notMem (by decide)
  | @integer sign digits signed _ hd =>
    apply isQuiet_of_colon_notMem
    have others : ':' ∉ digits := notMem_of_all hd (by decide)
    rcases signed with rfl | rfl | rfl
    · simpa using others
    · simp [others]
    · simp [others]
  | @literal text mark _ _ chars marked =>
    intro rest quiet
    have quoted : ':' ∉ '"' :: (text ++ ['"']) := by
      have inside : ':' ∉ text := notMem_of_all chars (by decide)
      simp [inside]
    have whole := (marked.isQuiet rest quiet).append quoted
    simpa using whole

theorem LaidOut.quiet {stop : Char → Bool} {items : List (List Char)} {cs : List Char}
    (h : LaidOut Blank Blank stop items cs) (each : ∀ item ∈ items, IsQuiet item) : Quiet cs := by
  have undotted {gap : List Char} (blank : Blank gap) : ':' ∉ gap := by
    intro m
    exact absurd (blank.isGap ':' m) (by decide)
  have none : Quiet [] := by
    intro back suffix
    exact absurd (List.suffix_nil.1 suffix) (List.cons_ne_nil ':' back)
  induction h with
  | nil blank =>
    have quiet := none.append (undotted blank)
    simpa using quiet
  | @cons item _ _ _ blank _ _ ih =>
    have tail := ih fun other ho => each other (List.mem_cons_of_mem item ho)
    exact (each item List.mem_cons_self _ tail).append (undotted blank)

/-! Prefix declarations. -/

theorem exists_bracket_of_bracketed? {cs : List Char} {found : List Char × List Char}
    (h : bracketed? cs = some found) : ∃ rest, cs = '<' :: rest := by
  cases cs with
  | nil => contradiction
  | cons c cs =>
    by_cases bracket : c = '<'
    · exact ⟨cs, by rw [bracket]⟩
    · rw [bracketed?_eq_none bracket] at h
      contradiction

/-- A declaration has a colon with a bracket behind it, and no barrier in front of the colon. -/
theorem exists_colon_of_prefixClause? {before : Option Char} {cs : List Char}
    {found : (String × String) × List Char} (h : prefixClause? before cs = some found) :
    ∃ front rest, cs = front ++ ':' :: rest ∧ (∀ c ∈ front, isBarrier c = false) ∧
      '<' ∈ (skipGap rest).head? := by
  obtain ⟨afterWord, hk, read⟩ := Option.bind_eq_some_iff.1 h
  obtain ⟨word, rfl, free⟩ := exists_open_of_keyword? hk (by decide)
  obtain ⟨gap, split, blank⟩ := exists_open_append_skipGap afterWord
  simp only at read
  split at read
  · rename_i afterColon hc
    obtain ⟨iri, hb, _⟩ := Option.bind_eq_some_iff.1 read
    obtain ⟨rest, hr⟩ := exists_bracket_of_bracketed? hb
    have name := span_append isDeclaredChar (skipGap afterWord)
    rw [hc] at name
    refine ⟨word ++ (gap ++ (span isDeclaredChar (skipGap afterWord)).1), afterColon, ?_, ?_, ?_⟩
    · rw [List.append_assoc, List.append_assoc, name, ← split]
    · simp only [List.forall_mem_append]
      exact ⟨free, blank, fun c hc => isBarrier_eq_false_of_class (by decide)
        (List.mem_takeWhile_imp hc)⟩
    · rw [hr]
      rfl
  · contradiction

/-- A quiet text starts with no declaration. -/
theorem prefixClause?_eq_none {cs : List Char} (quiet : Quiet cs) (before : Option Char) :
    prefixClause? before cs = none := by
  cases found : prefixClause? before cs with
  | none => rfl
  | some declared =>
    obtain ⟨front, rest, rfl, -, head⟩ := exists_colon_of_prefixClause? found
    exact absurd rfl (quiet rest (List.suffix_append front _) '<' head)

theorem prefixClauses_nil {cs : List Char} (h : find? prefixClause? none cs = none) :
    prefixClauses cs = [] := by
  rw [prefixClauses]
  split
  · rename_i found
    rw [h] at found
    contradiction
  · rfl

theorem prefixClauses_eq_nil {cs : List Char} (quiet : Quiet cs) : prefixClauses cs = [] :=
  prefixClauses_nil <|
    find?_eq_none (fun _ _ suffix before => prefixClause?_eq_none (quiet.of_suffix suffix) before)
      none

theorem prefixClauses_cons {cs rest : List Char} {declared : String × String}
    (h : find? prefixClause? none cs = some (declared, rest)) :
    prefixClauses cs = declared :: prefixClauses rest := by
  rw [prefixClauses]
  split
  · rename_i found
    rw [h] at found
    obtain ⟨rfl, rfl⟩ := Prod.mk.inj (Option.some.inj found)
    rfl
  · rename_i found
    rw [h] at found
    contradiction

theorem touchesKeyword_of_blank {c : Char} (h : c = ' ' ∨ c = '\n') : touchesKeyword c = false := by
  rcases h with rfl | rfl <;> decide

theorem Ends.touchesKeyword {rest : List Char} (h : Ends isBreak rest) :
    ∀ c ∈ rest.head?, touchesKeyword c = false := by
  have ends : Ends isStop rest := h.mono fun c hc => by simp [isStop, hc]
  exact ends.head_eq_false (by decide)

theorem clear_none : (none : Option Char).any touchesKeyword = false :=
  rfl

/-- The character in front of the place behind a gap touches no keyword. -/
theorem Blank.clear {gap : List Char} (blank : Blank gap) {before : Option Char}
    (clear : before.any Query.touchesKeyword = false) :
    (gap.getLast?.or before).any Query.touchesKeyword = false := by
  cases last : gap.getLast? with
  | none => simpa using clear
  | some c => simpa using touchesKeyword_of_blank (blank c (List.mem_of_getLast? last))

/-- The search for a clause that starts with a keyword passes over a gap. -/
theorem find?_blank {α : Type} {reader : Option Char → List Char → Option (α × List Char)}
    {gap : List Char} (blank : Blank gap)
    (fails : ∀ c cs before, c = ' ' ∨ c = '\n' → reader before (c :: cs) = none)
    (before : Option Char) (rest : List Char) :
    find? reader before (gap ++ rest) = find? reader (gap.getLast?.or before) rest := by
  apply find?_append
  intro back nonempty suffix before
  obtain ⟨c, back, rfl⟩ := List.exists_cons_of_ne_nil nonempty
  exact fails c (back ++ rest) before (blank c (suffix.subset List.mem_cons_self))

theorem prefixClause?_blank (c : Char) (cs : List Char) (before : Option Char)
    (h : c = ' ' ∨ c = '\n') : prefixClause? before (c :: cs) = none := by
  have letter : upperChar c ≠ 'P' := by
    rcases h with rfl | rfl <;> decide
  rw [prefixClause?, keyword?_eq_none (show "PREFIX".toList = 'P' :: _ from rfl) letter]
  rfl

/-- A declaration is read as it is written. -/
theorem prefixClause?_append {word name iri gap other : List Char}
    (spelled : Spells word "PREFIX") (named : ∀ c ∈ name, isDeclaredChar c = true)
    (chars : ∀ c ∈ iri, isBracketChar c = true) (blank : Blank gap) (spaced : Blank other)
    (apart : ∀ c ∈ (gap ++ (name ++ [':'])).head?, touchesKeyword c = false)
    {before : Option Char} (clear : before.any touchesKeyword = false) (rest : List Char) :
    prefixClause? before (word ++ (gap ++ ((name ++ [':']) ++ (other ++ (bracket iri ++ rest))))) =
      some ((String.ofList name, String.ofList iri), rest) := by
  have behind : ∀ c ∈ (gap ++ ((name ++ [':']) ++ (other ++ (bracket iri ++ rest)))).head?,
      touchesKeyword c = false := by
    rw [← List.append_assoc, List.head?_append_of_ne_nil _ (by simp)]
    exact apart
  have word_eq := keyword?_append spelled (by decide) clear behind
  have first : ∀ c ∈ ((name ++ [':']) ++ (other ++ (bracket iri ++ rest))).head?,
      isGap c = false := by
    cases name with
    | nil => exact forall_head?_cons (by decide) _
    | cons c cs =>
      have declared := named c List.mem_cons_self
      have apart (d : Char) (hd : isDeclaredChar d = false) : c ≠ d := ne_of_class declared hd
      refine forall_head?_cons (p := fun d => isGap d = false) ?_ _
      simp [isGap, apart ' ' (by decide), apart '\t' (by decide), apart '\n' (by decide),
        apart '\r' (by decide)]
  have name_eq : span isDeclaredChar (name ++ ':' :: (other ++ (bracket iri ++ rest))) =
      (name, ':' :: (other ++ (bracket iri ++ rest))) :=
    span_append_of_all named (forall_head?_cons (by decide) (other ++ (bracket iri ++ rest)))
  have opened : ∀ c ∈ (bracket iri ++ rest).head?, isGap c = false :=
    forall_head?_cons (by decide) _
  have tail : (name ++ [':']) ++ (other ++ (bracket iri ++ rest)) =
      name ++ ':' :: (other ++ (bracket iri ++ rest)) := by
    simp
  have iri_eq := bracketed?_bracket_append chars rest
  simp only [prefixClause?, word_eq, Option.bind_eq_bind, Option.bind_some,
    skipGap_append blank first]
  simp only [tail, name_eq, skipGap_append spaced opened, iri_eq, Option.bind_some,
    tail_dropLast_bracket]
  rfl

/-- The declarations that are read are those written, when the text behind them is quiet. -/
theorem prefixClauses_append {declared : List (String × String)} {items : List (List Char)}
    (h : DeclarationItems declared items) {front rest : List Char}
    (laid : LaidOut Blank Blank isBreak items front) (quiet : Quiet rest) :
    prefixClauses (front ++ rest) = declared := by
  induction h generalizing front with
  | nil =>
    cases laid with
    | nil blank =>
      have colon : ':' ∉ front := fun m => absurd (blank.isGap ':' m) (by decide)
      exact prefixClauses_eq_nil (quiet.append colon)
  | @cons word name iri declared items spelled named chars _ ih =>
    cases laid with
    | @cons _ gap _ _ blank apart laid =>
    cases laid with
    | @cons _ other _ _ spaced _ laid =>
    cases laid with
    | @cons _ third front _ last _ laid =>
    have ends : Ends isBreak (other ++ ((name ++ [':']) ++ (third ++ (bracket iri ++ front)))) := by
      exact spelled.ends (by decide) apart
    have head : ∀ c ∈ (other ++ (name ++ [':'])).head?, touchesKeyword c = false := by
      have whole := ends.touchesKeyword
      rwa [← List.append_assoc, List.head?_append_of_ne_nil _ (by simp)] at whole
    have clear := blank.clear clear_none
    have declares (c : Char) (hc : c ∈ name) : isDeclaredChar c = true := by
      have plain := named.plain c hc
      simp only [isPlainChar] at plain
      simp [isDeclaredChar, plain]
    have inside (c : Char) (hc : c ∈ iri) : isBracketChar c = true :=
      isBracketChar_of_isIriText (List.all_eq_true.1 chars c hc)
    have here := prefixClause?_append spelled declares inside spaced last head clear (front ++ rest)
    have text : gap ++ (word ++ (other ++ ((name ++ [':']) ++ (third ++ (bracket iri ++
        front))))) ++ rest = gap ++ (word ++ (other ++ ((name ++ [':']) ++ (third ++ (bracket iri ++
          (front ++ rest)))))) := by
      simp only [List.append_assoc]
    have found : find? prefixClause? none (gap ++ (word ++ (other ++ ((name ++ [':']) ++ (third ++
        (bracket iri ++ (front ++ rest))))))) =
          some ((String.ofList name, String.ofList iri), front ++ rest) := by
      rw [find?_blank blank prefixClause?_blank]
      obtain ⟨c, cs, rfl⟩ := spelled.exists_cons (by decide)
      exact find?_eq_some here
    rw [text, prefixClauses_cons found, ih laid]

/-- In a whole text the declarations that are read are those written. -/
theorem prefixClauses_eq {declared : List (String × String)} {items back : List (List Char)}
    {word cs : List Char} (h : DeclarationItems declared items)
    (laid : LaidOut Blank Blank isBreak (items ++ word :: back) cs) (quiet : IsQuiet word)
    (each : ∀ item ∈ back, IsQuiet item) : prefixClauses cs = declared := by
  obtain ⟨front, rest, rfl, before, _, behind⟩ := laid.exists_append
  exact prefixClauses_append h before (quiet rest (behind.quiet each))

end Ontogram.Query
