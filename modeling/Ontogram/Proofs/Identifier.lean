import Mathlib.Data.List.Basic
import Mathlib.Data.List.TakeWhile
import Ontogram.Proofs.Lexeme
import Ontogram.Query.Parse
import Ontogram.Query.Store

set_option autoImplicit false

namespace Ontogram

namespace Text

/-- No word character is blank. -/
theorem isBlank_eq_false_of_isWord {c : Char} (h : isWord c = true) : isBlank c = false := by
  have apart : ∀ r ∈ wideBlanks, ∀ s ∈ alnumRanges, s.2 < r.1 ∨ r.2 < s.1 := by decide +kernel
  have bar : isBlank '_' = false := by decide
  rcases Bool.or_eq_true_iff.1 h with letter | bar'
  · unfold isAlnum at letter
    unfold isBlank
    split at letter
    · rename_i small
      have range := toNat_of_isPlainChar (c := c) (by simp [isPlainChar, letter])
      rw [if_pos small]
      simp
      omega
    · rename_i large
      rw [if_neg large]
      refine Bool.eq_false_iff.2 fun blank => ?_
      obtain ⟨r, hr, lower, upper⟩ := inRanges_iff.1 blank
      obtain ⟨s, hs, lower', upper'⟩ := inRanges_iff.1 letter
      have := apart r hr s hs
      omega
  · rw [eq_of_beq bar', bar]

theorem wordsOf_eq_singleton {cs : List Char} (nonempty : cs ≠ [])
    (solid : ∀ c ∈ cs, isBlank c = false) : wordsOf cs = [cs] := by
  induction cs with
  | nil => exact absurd rfl nonempty
  | cons c cs ih =>
    have first : isBlank c = false := solid c List.mem_cons_self
    cases cs with
    | nil => simp [wordsOf, first]
    | cons d cs =>
      have rest := ih (by simp) fun e he => solid e (List.mem_cons_of_mem c he)
      have second : isBlank d = false := solid d (by simp)
      rw [wordsOf, rest]
      simp [first, second]

/-- A text that starts with no digit and is made of letters, numeric characters and underscores of
any script. -/
structure IsIdentifier (s : String) : Prop where
  first : ∃ c ∈ s.toList.head?, isDigit c = false
  chars : ∀ c ∈ s.toList, isWord c = true

namespace IsIdentifier

variable {s : String} (h : IsIdentifier s)
include h

theorem exists_cons : ∃ c cs, s.toList = c :: cs ∧ isDigit c = false ∧ isWord c = true := by
  obtain ⟨c, first, digit⟩ := h.first
  obtain ⟨cs, shape⟩ := List.head?_eq_some_iff.1 first
  exact ⟨c, cs, shape, digit, h.chars c (shape ▸ List.mem_cons_self)⟩

theorem ne_empty : s ≠ "" := by
  intro empty
  obtain ⟨c, cs, shape, -⟩ := h.exists_cons
  rw [empty] at shape
  cases shape

theorem notMem {c : Char} (mark : isWord c = false) : c ∉ s.toList :=
  fun mem => ne_of_class (h.chars c mem) mark rfl

theorem underscored_eq : underscored s = s := by
  obtain ⟨c, cs, shape, -⟩ := h.exists_cons
  have one : wordsOf s.toList = [s.toList] :=
    wordsOf_eq_singleton (by simp [shape]) fun c hc => isBlank_eq_false_of_isWord (h.chars c hc)
  rw [underscored, words, one]
  simp

end IsIdentifier

end Text

namespace PatternTerm

/-- What stands in front of the first colon. -/
theorem span_colon {cs : List Char} (single : ':' ∉ cs) (rest : List Char) :
    Text.span (· ≠ ':') (cs ++ ':' :: rest) = (cs, ':' :: rest) := by
  refine Text.span_append_of_all (fun c hc => ?_) (Text.forall_head?_cons (by simp) rest)
  simpa using fun same : c = ':' => single (same ▸ hc)

/-- A scheme in front of a text with a colon ends where its colon is. -/
theorem eq_of_isPrefixOf {scheme tail cs rest : List Char} (colon : ':' ∉ scheme)
    (single : ':' ∉ cs) (h : (scheme ++ ':' :: tail).isPrefixOf (cs ++ ':' :: rest) = true) :
    cs = scheme ∧ tail <+: rest := by
  obtain ⟨more, whole⟩ := List.isPrefixOf_iff_prefix.1 h
  have cut := congrArg (Text.span (· ≠ ':')) whole
  rw [List.append_assoc, List.cons_append, span_colon colon, span_colon single] at cut
  obtain ⟨rfl, tails⟩ := Prod.mk.inj cut
  exact ⟨rfl, more, (List.cons.inj tails).2⟩

section Expanded

variable {prefixes : Table String} {name base : String}

/-- A name behind a prefix and a colon is expanded by what the prefix stands for. -/
theorem expand_qualified {space : String} (single : ':' ∉ space.toList)
    (free : space ∉ ["_", "urn"]) (path : name.toList.head? ≠ some '/')
    (given : prefixes.get? space = some base) :
    expand prefixes (space ++ ":" ++ name) = base ++ name := by
  have shape : (space ++ ":" ++ name).toList = space.toList ++ ':' :: name.toList := by simp
  have apart (scheme tail : List Char) (colon : ':' ∉ scheme)
      (blocked : String.ofList scheme ∈ ["_", "urn"] ∨ tail.head? = some '/') :
      (scheme ++ ':' :: tail).isPrefixOf (space.toList ++ ':' :: name.toList) = false := by
    refine Bool.eq_false_iff.2 fun front => ?_
    obtain ⟨same, more, rest⟩ := eq_of_isPrefixOf colon single front
    rcases blocked with word | slash
    · rw [← same, String.ofList_toList] at word
      exact free word
    · obtain ⟨cs, rfl⟩ := List.head?_eq_some_iff.1 slash
      rw [← rest] at path
      exact path rfl
  have blank : "_:".toList.isPrefixOf (space ++ ":" ++ name).toList = false :=
    shape ▸ apart ['_'] [] (by decide) (Or.inl (by decide))
  have absolute : Resolver.isAbsolute (space ++ ":" ++ name).toList = false := by
    simp only [Resolver.isAbsolute, Resolver.schemes, List.any_cons, List.any_nil, shape,
      Bool.or_eq_false_iff]
    exact ⟨apart "http".toList ['/', '/'] (by decide) (Or.inr rfl),
      apart "https".toList ['/', '/'] (by decide) (Or.inr rfl),
      apart "urn".toList [] (by decide) (Or.inl (by decide)), trivial⟩
  have colon : (space ++ ":" ++ name).toList.contains ':' = true := by simp
  have front : (space ++ ":" ++ name).toList.takeWhile (· ≠ ':') = space.toList := by
    rw [shape]
    exact congrArg Prod.fst (span_colon single name.toList)
  have back : (space ++ ":" ++ name).toList.drop (space.toList.length + 1) = name.toList := by
    rw [shape, List.drop_append]
    simp
  simp only [expand, blank, absolute, colon, front, back, String.ofList_toList, given,
    Bool.or_false, Bool.false_eq_true, if_false, if_true]

/-- A name without a colon is expanded by what the empty prefix stands for. -/
theorem expand_bare (single : ':' ∉ name.toList) (given : prefixes.get? "" = some base) :
    expand prefixes name = base ++ name := by
  have apart {scheme : List Char} (colon : ':' ∈ scheme) :
      scheme.isPrefixOf name.toList = false :=
    Bool.eq_false_iff.2 fun front => single ((List.isPrefixOf_iff_prefix.1 front).subset colon)
  have absolute : Resolver.isAbsolute name.toList = false := by
    simp [Resolver.isAbsolute, Resolver.schemes, apart]
  have blank : "_:".toList.isPrefixOf name.toList = false := apart (by decide)
  have plain : name.toList.contains ':' = false := by simpa using single
  simp only [expand, blank, absolute, plain, given, Bool.or_false, Bool.false_eq_true, if_false]

end Expanded

end PatternTerm

namespace Query

/-- A number is made of digits, signs and points. -/
theorem mem_of_numeral? {cs text rest : List Char} (h : numeral? cs = some (text, rest)) :
    ∀ c ∈ text, Text.isDigit c = true ∨ c ∈ ['+', '-', '.'] := by
  have sign : ∀ c ∈ (signSpan cs).1, c ∈ ['+', '-', '.'] := by
    unfold signSpan
    split
    · split
      · rename_i mark
        rcases mark with rfl | rfl <;> simp
      · simp
    · simp
  have digits (cs : List Char) : ∀ c ∈ (Text.span Text.isDigit cs).1, Text.isDigit c = true :=
    fun c hc => List.mem_takeWhile_imp hc
  have front : ∀ c ∈ (signSpan cs).1 ++ (Text.span Text.isDigit (signSpan cs).2).1,
      Text.isDigit c = true ∨ c ∈ ['+', '-', '.'] := fun c hc =>
    (List.mem_append.1 hc).elim (fun hc => Or.inr (sign c hc)) fun hc => Or.inl (digits _ c hc)
  unfold numeral? at h
  dsimp only at h
  split at h
  · cases h
  split at h
  · split at h
    · rename_i places
      obtain ⟨rfl, -⟩ := Prod.mk.inj (Option.some.inj h)
      intro d hd
      rcases List.mem_append.1 hd with hd | hd
      · exact front d hd
      rcases List.mem_cons.1 hd with rfl | hd
      · exact Or.inr (by simp)
      rcases List.mem_cons.1 hd with rfl | hd
      · exact Or.inl places
      · exact Or.inl (digits _ d hd)
    · obtain ⟨rfl, -⟩ := Prod.mk.inj (Option.some.inj h)
      exact front
  · obtain ⟨rfl, -⟩ := Prod.mk.inj (Option.some.inj h)
    exact front

/-- A token with a character that numbers do not have is no number. -/
theorem isNumeral_eq_false {token : List Char} {c : Char} (mem : c ∈ token)
    (digit : Text.isDigit c = false) (mark : c ∉ ['+', '-', '.']) : isNumeral token = false := by
  unfold isNumeral
  split
  · rename_i text rest found
    refine Bool.eq_false_iff.2 fun none => ?_
    obtain ⟨whole, -⟩ := takes_numeral _ _ _ found
    rw [List.isEmpty_iff.1 none, List.append_nil] at whole
    rcases mem_of_numeral? found c (whole ▸ mem) with h | h
    · rw [digit] at h
      cases h
    · exact mark h
  · rfl

/-- A token that is neither a variable nor a literal, has no bracket at its end and is not the word
`a` names an IRI. -/
theorem termOf_eq_iri {token : List Char} (first : ∀ c ∈ token.head?, c ∉ ['?', '$', '"'])
    (last : token.getLast? ≠ some '>') (word : token ≠ ['a']) (number : isNumeral token = false) :
    termOf token = .iri (String.ofList token) := by
  have bracket : isBracketed token = false := by simp [isBracketed, last]
  unfold termOf
  split
  · exact absurd (first '?' rfl) (by simp)
  · exact absurd (first '$' rfl) (by simp)
  · exact absurd rfl word
  · exact absurd (first '"' rfl) (by simp)
  · simp [bracket, number]

/-- A text that names a prefix in a query: with a colon and a name behind it, it is neither a
variable nor a literal, neither a blank node nor an absolute IRI. -/
structure IsPrefixName (s : String) : Prop where
  first : ∀ c ∈ s.toList.head?, c ∉ ['?', '$', '"']
  single : ':' ∉ s.toList
  free : s ∉ ["_", "urn"]

end Query

section Tokens

variable {label : String} (identifier : Text.IsIdentifier label)
include identifier

theorem Query.termOf_of_isIdentifier (word : label ≠ "a") :
    Query.termOf label.toList = .iri label := by
  obtain ⟨c, cs, shape, digit, letter⟩ := identifier.exists_cons
  have apart {d : Char} (mark : Text.isWord d = false) : c ≠ d := Text.ne_of_class letter mark
  refine (Query.termOf_eq_iri ?_ ?_ ?_ ?_).trans (by rw [String.ofList_toList])
  · rw [shape]
    refine Text.forall_head?_cons ?_ cs
    simp [apart (show Text.isWord '?' = false by decide),
      apart (show Text.isWord '$' = false by decide),
      apart (show Text.isWord '"' = false by decide)]
  · exact fun last => identifier.notMem (by decide) (List.mem_of_mem_getLast? last)
  · exact fun same => word (String.toList_inj.1 same)
  · refine Query.isNumeral_eq_false (c := c) (by rw [shape]; exact List.mem_cons_self) digit ?_
    simp [apart (show Text.isWord '+' = false by decide),
      apart (show Text.isWord '-' = false by decide),
      apart (show Text.isWord '.' = false by decide)]

theorem Query.termOf_qualified {space : String} (usable : Query.IsPrefixName space) :
    Query.termOf (space ++ ":" ++ label).toList = .iri (space ++ ":" ++ label) := by
  have shape : (space ++ ":" ++ label).toList = space.toList ++ ':' :: label.toList := by simp
  refine (Query.termOf_eq_iri ?_ ?_ ?_ ?_).trans (by rw [String.ofList_toList])
  · rw [shape]
    intro c first
    cases cs : space.toList with
    | nil =>
      rw [cs] at first
      obtain rfl := Option.some.inj first
      decide
    | cons d ds =>
      rw [cs] at first
      exact usable.first c (by rw [cs]; exact first)
  · obtain ⟨c, cs, letters, -⟩ := identifier.exists_cons
    intro last
    rw [shape, letters, List.getLast?_append_cons, List.getLast?_cons_cons, ← letters] at last
    exact identifier.notMem (by decide) (List.mem_of_mem_getLast? last)
  · intro same
    have colon : ':' ∈ ['a'] := same ▸ (by simp [shape])
    exact absurd colon (by decide)
  · exact Query.isNumeral_eq_false (c := ':') (by simp [shape]) (by decide) (by decide)

end Tokens

end Ontogram
