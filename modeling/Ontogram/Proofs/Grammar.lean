import Ontogram.Expression.Parse
import Ontogram.Proofs.Ascii

set_option autoImplicit false

namespace Ontogram.Expression

open Text (isPlainChar)

/-- The words that are no names, whatever their case. -/
def keywords : List String :=
  ["or", "and", "not"] ++ Quantifier.all.map Quantifier.word

/-- A token is a word in some case. -/
def Spells (token word : String) : Prop :=
  token.toList.map Char.toLower = word.toList

/-- A letter, then letters, digits and underscores; no keyword. -/
structure IsName (token : String) : Prop where
  letter : ∃ c cs, token.toList = c :: cs ∧ c.isAlpha = true
  chars : ∀ c ∈ token.toList, isPlainChar c = true
  free : ∀ word ∈ keywords, ¬ Spells token word

instance (token word : String) : Decidable (Spells token word) :=
  inferInstanceAs (Decidable (_ = _))

theorem isName_iff (token : String) :
    (token.toList.head?.any Char.isAlpha && token.toList.all isPlainChar &&
      keywords.all fun word => !decide (Spells token word)) = true ↔ IsName token := by
  simp only [Bool.and_eq_true, List.all_eq_true, Bool.not_eq_true', decide_eq_false_iff_not]
  constructor
  · intro h
    obtain ⟨⟨letter, chars⟩, free⟩ := h
    cases hc : token.toList with
    | nil => simp [hc] at letter
    | cons c cs => exact ⟨⟨c, cs, hc, by simpa [hc] using letter⟩, chars, free⟩
  · intro h
    obtain ⟨c, cs, hc, letter⟩ := h.letter
    exact ⟨⟨by simpa [hc] using letter, h.chars⟩, h.free⟩

instance (token : String) : Decidable (IsName token) :=
  decidable_of_iff _ (isName_iff token)

/-- A text in quotes without further quotes, backslashes and tabs. -/
def IsQuoted (token : String) : Prop :=
  ∃ body : List Char, token.toList = '"' :: (body ++ ['"']) ∧
    '"' ∉ body ∧ '\\' ∉ body ∧ '\t' ∉ body

/-- A number in decimal digits, possibly with zeros in front. -/
structure IsNumber (n : Nat) (token : String) : Prop where
  nonempty : token.toList ≠ []
  digits : ∀ c ∈ token.toList, c.isDigit = true
  value : Nat.ofDigitChars 10 token.toList 0 = n

/-- The tokens of several operands with a word between each two. -/
inductive Joined (word : String) : List (List String) → List String → Prop where
  | one (ts : List String) : Joined word [ts] ts
  | more {t : String} {parts : List (List String)} {us : List String} (ts : List String)
      (spelled : Spells t word) (rest : Joined word parts us) :
      Joined word (ts :: parts) (ts ++ t :: us)

/-- How tightly an expression binds. -/
inductive Level where
  | union
  | inter
  | unary

/-- The tokens of a number that may be missing. -/
inductive NumberTokens : Option Nat → List String → Prop where
  | none : NumberTokens none []
  | some {n : Nat} {token : String} (number : IsNumber n token) : NumberTokens (some n) [token]

/-- The tokens of a single value, possibly in parentheses. -/
inductive ValueTokens : String → List String → Prop where
  | name {token : String} (named : IsName token) : ValueTokens token [token]
  | quoted {token : String} (quoted : IsQuoted token) : ValueTokens token [token]
  | parens {token : String} {ts : List String} (inner : ValueTokens token ts) :
      ValueTokens token ("(" :: (ts ++ [")"]))

/-- The token lists that the grammar generates for an expression at a level. -/
inductive Written : Level → Expression → List String → Prop where
  | name {token : String} (named : IsName token) : Written .unary (name token) [token]
  | parens {e : Expression} {ts : List String} (inner : Written .union e ts) :
      Written .unary e ("(" :: (ts ++ [")"]))
  | compl {t : String} {e : Expression} {ts : List String} (spelled : Spells t "not")
      (operand : Written .unary e ts) : Written .unary (compl e) (t :: ts)
  | reflexive {property t : String} (named : IsName property) (spelled : Spells t "self") :
      Written .unary (restrict property .self none none true) [property, t]
  | someSelf {property t u : String} (named : IsName property) (spelled : Spells t "some")
      (self : Spells u "self") :
      Written .unary (restrict property .some none none true) [property, t, u]
  | value {property t text : String} {ts : List String} (named : IsName property)
      (spelled : Spells t "value") (value : ValueTokens text ts) :
      Written .unary (restrict property .value (some (raw text)) none false) (property :: t :: ts)
  /-- A filler is written after the number; some and only take no number. -/
  | restrict {property t : String} {quantifier : Quantifier} {number : Option Nat}
      {ns : List String} (filler : Option (Expression × List String)) (named : IsName property)
      (spelled : Spells t quantifier.word)
      (counts : quantifier.counts = true ∨
        (quantifier = .some ∨ quantifier = .only) ∧ number = none)
      (numbered : NumberTokens number ns)
      (filled : ∀ f ∈ filler, Written .unary f.1 f.2) :
      Written .unary
        (restrict property quantifier (filler.map Prod.fst) (number.map Int.ofNat) false)
        (property :: t :: (ns ++ (filler.map Prod.snd).getD []))
  | inter {ts : List String} (operands : List (Expression × List String))
      (several : 2 ≤ operands.length) (each : ∀ o ∈ operands, Written .unary o.1 o.2)
      (joined : Joined "and" (operands.map Prod.snd) ts) :
      Written .inter (inter (operands.map Prod.fst)) ts
  | union {ts : List String} (operands : List (Expression × List String))
      (several : 2 ≤ operands.length) (each : ∀ o ∈ operands, Written .inter o.1 o.2)
      (joined : Joined "or" (operands.map Prod.snd) ts) :
      Written .union (union (operands.map Prod.fst)) ts
  | unary {e : Expression} {ts : List String} (h : Written .unary e ts) : Written .inter e ts
  | single {e : Expression} {ts : List String} (h : Written .inter e ts) : Written .union e ts

/-- A text between two tokens. -/
def IsGap (cs : List Char) : Prop :=
  ∀ c ∈ cs, c = ' ' ∨ c = '\n'

/-- Where a name, a keyword or a number may end. -/
def EndsWord (rest : List Char) : Prop :=
  ∀ c ∈ rest.head?, c = ' ' ∨ c = '\n' ∨ c = '(' ∨ c = ')' ∨ c = '"'

/-- Tokens with gaps around them. A gap may be empty where a parenthesis or a quote keeps the tokens
apart. -/
inductive LaidOut : List String → List Char → Prop where
  | nil {gap : List Char} (blank : IsGap gap) : LaidOut [] gap
  | cons {t : String} {ts : List String} {gap rest : List Char} (blank : IsGap gap)
      (apart : (∃ c ∈ t.toList.head?, isPlainChar c = true) → EndsWord rest)
      (others : LaidOut ts rest) : LaidOut (t :: ts) (gap ++ (t.toList ++ rest))

/-- Tokens with a blank before each. -/
def spaced (ts : List String) : List Char :=
  ts.flatMap fun t => ' ' :: t.toList

theorem laidOut_spaced (ts : List String) : LaidOut ts (spaced ts) := by
  induction ts with
  | nil =>
    have blank : IsGap [] := nofun
    exact .nil blank
  | cons t ts ih =>
    have blank : IsGap [' '] := by simp [IsGap]
    have ends : EndsWord (spaced ts) := by
      cases ts with
      | nil => nofun
      | cons u us =>
        intro c hc
        obtain rfl : ' ' = c := by simpa [spaced] using hc
        exact .inl rfl
    exact .cons blank (fun _ => ends) ih

def IsTextOf (e : Expression) (s : String) : Prop :=
  ∃ ts, Written .union e ts ∧ LaidOut ts s.toList

/-- The expressions that have a text: names, junctions of at least two operands, complements and
restrictions with what their quantifier takes. -/
inductive Plain : Expression → Prop where
  | name {token : String} (named : IsName token) : Plain (name token)
  | compl {e : Expression} (operand : Plain e) : Plain (compl e)
  | inter {es : List Expression} (several : 2 ≤ es.length) (each : ∀ e ∈ es, Plain e) :
      Plain (inter es)
  | union {es : List Expression} (several : 2 ≤ es.length) (each : ∀ e ∈ es, Plain e) :
      Plain (union es)
  | reflexive {property : String} {quantifier : Quantifier} (named : IsName property)
      (bare : quantifier = .self ∨ quantifier = .some) :
      Plain (restrict property quantifier none none true)
  | value {property text : String} (named : IsName property) (value : IsName text ∨ IsQuoted text) :
      Plain (restrict property .value (some (raw text)) none false)
  | restrict {property : String} {quantifier : Quantifier} {number : Option Nat}
      {filler : Option Expression} (named : IsName property)
      (counts : quantifier.counts = true ∨
        (quantifier = .some ∨ quantifier = .only) ∧ number = none)
      (filled : ∀ f ∈ filler, Plain f) :
      Plain (restrict property quantifier filler (number.map Int.ofNat) false)

theorem spells_word (quantifier : Quantifier) : Spells quantifier.word quantifier.word := by
  cases quantifier <;> decide

theorem exists_isNumber (n : Nat) : ∃ token, IsNumber n token := by
  refine ⟨String.ofList (Nat.toDigits 10 n), ?_, ?_, ?_⟩
  · rw [String.toList_ofList]
    exact Nat.toDigits_ne_nil
  · intro c hc
    rw [String.toList_ofList] at hc
    exact Nat.isDigit_of_mem_toDigits (show 0 < 10 by decide) (Nat.le_refl 10) hc
  · rw [String.toList_ofList]
    exact Nat.ofDigitChars_toDigits (by decide) (by decide)

theorem exists_numberTokens (number : Option Nat) : ∃ ns, NumberTokens number ns := by
  cases number with
  | none => exact ⟨[], .none⟩
  | some n =>
    obtain ⟨token, h⟩ := exists_isNumber n
    exact ⟨[token], .some h⟩

theorem exists_joined {word : String} (spelled : Spells word word) {parts : List (List String)}
    (some : parts ≠ []) : ∃ ts, Joined word parts ts := by
  induction parts with
  | nil => contradiction
  | cons p ps ih =>
    cases ps with
    | nil => exact ⟨p, .one p⟩
    | cons q qs =>
      obtain ⟨ts, h⟩ := ih (List.cons_ne_nil q qs)
      exact ⟨_, .more p spelled h⟩

/-- Operands can be written if each can. -/
theorem exists_operands {level : Level} {es : List Expression}
    (each : ∀ e ∈ es, ∃ ts, Written level e ts) :
    ∃ operands : List (Expression × List String),
      operands.map Prod.fst = es ∧ ∀ o ∈ operands, Written level o.1 o.2 := by
  induction es with
  | nil => exact ⟨[], rfl, nofun⟩
  | cons e es ih =>
    obtain ⟨ts, written⟩ := each e List.mem_cons_self
    obtain ⟨operands, rfl, others⟩ := ih fun f hf => each f (List.mem_cons_of_mem e hf)
    exact ⟨(e, ts) :: operands, rfl, List.forall_mem_cons.2 ⟨written, others⟩⟩

/-- With every junction in parentheses an expression is written as an operand. -/
theorem Plain.exists_written {e : Expression} (h : Plain e) : ∃ ts, Written .unary e ts := by
  induction h with
  | name named => exact ⟨_, .name named⟩
  | compl _ ih =>
    obtain ⟨ts, written⟩ := ih
    exact ⟨_, .compl (t := "not") (by decide) written⟩
  | inter several _ ih =>
    obtain ⟨operands, rfl, each⟩ := exists_operands ih
    have some : operands.map Prod.snd ≠ [] := by
      rintro none
      simp [List.map_eq_nil_iff.1 none] at several
    obtain ⟨ts, joined⟩ := exists_joined (show Spells "and" "and" by decide) some
    exact ⟨_, .parens (.single (.inter operands (by simpa using several) each joined))⟩
  | union several _ ih =>
    obtain ⟨operands, rfl, each⟩ := exists_operands ih
    have some : operands.map Prod.snd ≠ [] := by
      rintro none
      simp [List.map_eq_nil_iff.1 none] at several
    obtain ⟨ts, joined⟩ := exists_joined (show Spells "or" "or" by decide) some
    exact ⟨_, .parens (.union operands (by simpa using several)
      (fun o ho => .unary (each o ho)) joined)⟩
  | reflexive named bare =>
    rcases bare with rfl | rfl
    · exact ⟨_, .reflexive (t := "self") named (by decide)⟩
    · exact ⟨_, .someSelf (t := "some") (u := "self") named (by decide) (by decide)⟩
  | value named value =>
    rcases value with value | value
    · exact ⟨_, .value (t := "value") named (by decide) (.name value)⟩
    · exact ⟨_, .value (t := "value") named (by decide) (.quoted value)⟩
  | @restrict property quantifier number filler named counts _ ih =>
    obtain ⟨ns, numbered⟩ := exists_numberTokens number
    cases filler with
    | none =>
      exact ⟨_, .restrict none named (spells_word quantifier) counts numbered nofun⟩
    | some f =>
      obtain ⟨ts, written⟩ := ih f rfl
      exact ⟨_, .restrict (some (f, ts)) named (spells_word quantifier) counts numbered
        fun g hg => Option.some.inj hg ▸ written⟩

theorem ValueTokens.plain {text : String} {ts : List String} (h : ValueTokens text ts) :
    IsName text ∨ IsQuoted text := by
  induction h with
  | name named => exact .inl named
  | quoted quoted => exact .inr quoted
  | parens _ ih => exact ih

theorem Written.plain {level : Level} {e : Expression} {ts : List String}
    (h : Written level e ts) : Plain e := by
  induction h with
  | name named => exact .name named
  | parens _ ih => exact ih
  | compl _ _ ih => exact .compl ih
  | reflexive named _ => exact .reflexive named (.inl rfl)
  | someSelf named _ _ => exact .reflexive named (.inr rfl)
  | value named _ value => exact .value named value.plain
  | restrict filler named _ counts _ _ ih =>
    apply Plain.restrict named counts
    cases filler with
    | none => nofun
    | some f => exact fun g hg => Option.some.inj hg ▸ ih f rfl
  | inter operands several _ _ ih =>
    exact .inter (by simpa using several) (List.forall_mem_map.2 ih)
  | union operands several _ _ ih =>
    exact .union (by simpa using several) (List.forall_mem_map.2 ih)
  | unary _ ih => exact ih
  | single _ ih => exact ih

/-- The grammar has texts for exactly these expressions. -/
theorem exists_isTextOf_iff (e : Expression) : (∃ s, IsTextOf e s) ↔ Plain e := by
  constructor
  · intro h
    obtain ⟨s, ts, written, _⟩ := h
    exact written.plain
  · intro h
    obtain ⟨ts, written⟩ := h.exists_written
    refine ⟨String.ofList (spaced ts), ts, .single (.unary written), ?_⟩
    rw [String.toList_ofList]
    exact laidOut_spaced ts

end Ontogram.Expression
