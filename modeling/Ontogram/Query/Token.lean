import Ontogram.Text.Basic
import Ontogram.Text.Lexeme
import Ontogram.Text.Word

set_option autoImplicit false

namespace Ontogram.Query

open Text

/-- The longest front of a text made of characters of a class and single full stops, each full stop
followed by a character of the class. -/
def dottedSpan (p : Char → Bool) : List Char → List Char × List Char
  | [] => ([], [])
  | c :: cs =>
    if p c || (c == '.' && cs.head?.any p) then
      let (taken, rest) := dottedSpan p cs
      (c :: taken, rest)
    else ([], c :: cs)

def isPrefixStart (c : Char) : Bool :=
  c.isAlpha || c == '_'

/-- A prefix and its colon, where the prefix may be empty. -/
def prefixMark? (cs : List Char) : Option (List Char × List Char) :=
  let (name, rest) :=
    match cs with
    | c :: _ => if isPrefixStart c then span isNameChar cs else ([], cs)
    | [] => ([], cs)
  match rest with
  | ':' :: rest => some (name ++ [':'], rest)
  | _ => none

/-- A name with a prefix. The part after the colon may be missing, and starts with no full stop. -/
def prefixedName? (cs : List Char) : Option (List Char × List Char) := do
  let (mark, rest) ← prefixMark? cs
  if rest.head?.any isNameChar then
    let (name, rest) := dottedSpan isNameChar rest
    return (mark ++ name, rest)
  else return (mark, rest)

/-- The datatype after a literal, in angle brackets or with a prefix, with its two carets. -/
def typeMark? : List Char → Option (List Char × List Char)
  | '^' :: '^' :: cs =>
    match bracketed? cs with
    | some (name, rest) => some ('^' :: '^' :: name, rest)
    | none => do
      let (mark, rest) ← prefixMark? cs
      let (name, rest) := dottedSpan isNameChar rest
      return ('^' :: '^' :: mark ++ name, rest)
  | _ => none

/-- A quoted literal with its tag or datatype. -/
def literal? : List Char → Option (List Char × List Char) :=
  marked? fun cs => (languageMark? cs).or (typeMark? cs)

/-- A letter or digit of ASCII or an underscore. -/
def isVariableChar (c : Char) : Bool :=
  c.isAlphanum || c == '_'

def variableToken? : List Char → Option (List Char × List Char)
  | c :: d :: rest =>
    if (c = '?' ∨ c = '$') ∧ isVariableChar d then
      let (name, rest) := span isVariableChar rest
      some (c :: d :: name, rest)
    else none
  | _ => none

def isIriChar (c : Char) : Bool :=
  !isBlank c && c != '<' && c != '>' && c != '"' && c != '\x7b' && c != '\x7d'

def schemes : List (List Char) :=
  ["https:".toList, "http:".toList, "urn:".toList]

/-- An absolute IRI, without the full stops at its end. -/
def absoluteIri? (cs : List Char) : Option (List Char × List Char) := do
  let scheme ← schemes.find? fun scheme => scheme.isPrefixOf cs
  let body := stripRight (· == '.') ((cs.drop scheme.length).takeWhile isIriChar)
  if body.isEmpty then none
  else some (scheme ++ body, cs.drop (scheme.length + body.length))

def signSpan : List Char → List Char × List Char
  | c :: cs => if c = '+' ∨ c = '-' then ([c], cs) else ([], c :: cs)
  | [] => ([], [])

/-- A number: a sign, digits, and a fraction. -/
def numeral? (cs : List Char) : Option (List Char × List Char) :=
  let (sign, rest) := signSpan cs
  let (whole, rest) := span isDigit rest
  if whole.isEmpty then none
  else
    match rest with
    | '.' :: c :: more =>
      if isDigit c then
        let (places, rest) := span isDigit more
        some (sign ++ whole ++ '.' :: c :: places, rest)
      else some (sign ++ whole, rest)
    | _ => some (sign ++ whole, rest)

/-- A number that no word follows, directly or after full stops. -/
def number? (cs : List Char) : Option (List Char × List Char) :=
  match numeral? cs with
  | some (text, rest) =>
    if (rest.takeWhile fun c => isWord c || c == '.').any isWord then none else some (text, rest)
  | none => none

/-- A character of a run of anything. -/
def isBareChar (c : Char) : Bool :=
  !isBlank c && c != '.'

/-- The token at the front of a text that starts with `c`, and what follows it. -/
def cut (c : Char) (cs : List Char) : List Char × List Char :=
  let found := (bracketed? (c :: cs)).or <| (literal? (c :: cs)).or <|
    (variableToken? (c :: cs)).or <| (absoluteIri? (c :: cs)).or <|
    (prefixedName? (c :: cs)).or <| number? (c :: cs)
  match found with
  | some found => found
  | none =>
    if c = '.' then ([c], cs)
    else
      let (run, rest) := dottedSpan isBareChar cs
      (c :: run, rest)

theorem dottedSpan_append (p : Char → Bool) (cs : List Char) :
    (dottedSpan p cs).1 ++ (dottedSpan p cs).2 = cs := by
  induction cs with
  | nil => rfl
  | cons c cs ih =>
    unfold dottedSpan
    split <;> simp [ih]

theorem takes_prefixMark : Takes prefixMark? := by
  intro cs a b h
  unfold prefixMark? at h
  simp only at h
  split at h
  · rename_i rest hs
    obtain ⟨rfl, rfl⟩ := Prod.mk.inj (Option.some.inj h)
    refine ⟨?_, by simp⟩
    rw [List.append_assoc, List.singleton_append, ← hs]
    split
    · split
      · exact span_append isNameChar _
      · rfl
    · rfl
  · simp at h

theorem takes_prefixedName : Takes prefixedName? := by
  intro cs a b h
  unfold prefixedName? at h
  simp only [Option.bind_eq_bind, Option.bind_eq_some_iff] at h
  obtain ⟨⟨mark, rest⟩, hm, h⟩ := h
  obtain ⟨happ, hne⟩ := takes_prefixMark _ _ _ hm
  simp only at h
  split at h
  · obtain ⟨rfl, rfl⟩ := Prod.mk.inj (Option.some.inj h)
    refine ⟨?_, by simp [hne]⟩
    rw [List.append_assoc, dottedSpan_append, happ]
  · obtain ⟨rfl, rfl⟩ := Prod.mk.inj (Option.some.inj h)
    exact ⟨happ, hne⟩

theorem takes_typeMark : Takes typeMark? := by
  intro cs a b h
  unfold typeMark? at h
  split at h
  · split at h
    · rename_i hb
      obtain ⟨rfl, rfl⟩ := Prod.mk.inj (Option.some.inj h)
      simp [(takes_bracketed _ _ _ hb).1]
    · simp only [Option.bind_eq_bind, Option.bind_eq_some_iff] at h
      obtain ⟨⟨mark, rest⟩, hm, h⟩ := h
      obtain ⟨happ, _⟩ := takes_prefixMark _ _ _ hm
      obtain ⟨rfl, rfl⟩ := Prod.mk.inj (Option.some.inj h)
      refine ⟨?_, by simp⟩
      simp only [List.cons_append, List.append_assoc, dottedSpan_append, happ]
  · simp at h

theorem takes_literal : Takes literal? :=
  takes_marked (takes_or takes_languageMark takes_typeMark)

theorem takes_variableToken : Takes variableToken? := by
  intro cs a b h
  unfold variableToken? at h
  split at h
  · split at h
    · obtain ⟨rfl, rfl⟩ := Prod.mk.inj (Option.some.inj h)
      simp
    · simp at h
  · simp at h

theorem stripRight_isPrefix (p : Char → Bool) (cs : List Char) : stripRight p cs <+: cs := by
  unfold stripRight
  rw [← List.reverse_suffix, List.reverse_reverse]
  exact List.dropWhile_suffix p

theorem takes_absoluteIri : Takes absoluteIri? := by
  intro cs a b h
  unfold absoluteIri? at h
  simp only [Option.bind_eq_bind, Option.bind_eq_some_iff] at h
  obtain ⟨scheme, hs, h⟩ := h
  split at h
  · simp at h
  · rename_i hne
    obtain ⟨rfl, rfl⟩ := Prod.mk.inj (Option.some.inj h)
    have hp := List.find?_some hs
    simp only [List.isPrefixOf_iff_prefix] at hp
    obtain ⟨t, rfl⟩ := hp
    refine ⟨?_, by simp_all⟩
    rw [List.drop_left, List.append_assoc, List.append_cancel_left_eq]
    have hb : stripRight (· == '.') (t.takeWhile isIriChar) <+: t :=
      (stripRight_isPrefix _ _).trans (List.takeWhile_prefix _)
    obtain ⟨u, hu⟩ := hb
    rw [List.drop_append, List.drop_of_length_le (by omega)]
    generalize stripRight (· == '.') (t.takeWhile isIriChar) = body at hu ⊢
    subst hu
    simp

theorem signSpan_append (cs : List Char) : (signSpan cs).1 ++ (signSpan cs).2 = cs := by
  unfold signSpan
  split
  · split <;> rfl
  · rfl

theorem takes_numeral : Takes numeral? := by
  intro cs a b h
  unfold numeral? at h
  simp only at h
  have hsign := signSpan_append cs
  have hwhole := span_append isDigit (signSpan cs).2
  split at h
  · simp at h
  · rename_i hne
    have hne : (span isDigit (signSpan cs).2).1 ≠ [] := by simpa using hne
    split at h
    · rename_i c more hr
      split at h
      · obtain ⟨rfl, rfl⟩ := Prod.mk.inj (Option.some.inj h)
        have := span_append isDigit more
        refine ⟨?_, by simp⟩
        simp only [List.append_assoc, List.cons_append, this, ← hr, hwhole, hsign]
      · obtain ⟨rfl, rfl⟩ := Prod.mk.inj (Option.some.inj h)
        exact ⟨by simp only [List.append_assoc, hwhole, hsign], by simp [hne]⟩
    · obtain ⟨rfl, rfl⟩ := Prod.mk.inj (Option.some.inj h)
      exact ⟨by simp only [List.append_assoc, hwhole, hsign], by simp [hne]⟩

theorem takes_number : Takes number? := by
  intro cs a b h
  unfold number? at h
  split at h
  · rename_i hn
    split at h
    · simp at h
    · obtain ⟨rfl, rfl⟩ := Prod.mk.inj (Option.some.inj h)
      exact takes_numeral _ _ _ hn
  · simp at h

theorem cut_append (c : Char) (cs : List Char) :
    (cut c cs).1 ++ (cut c cs).2 = c :: cs ∧ (cut c cs).1 ≠ [] := by
  have takes := takes_or takes_bracketed <| takes_or takes_literal <|
    takes_or takes_variableToken <| takes_or takes_absoluteIri <|
    takes_or takes_prefixedName takes_number
  unfold cut
  simp only
  split
  · rename_i found hf
    exact takes (c :: cs) found.1 found.2 hf
  · split
    · simp
    · simp [dottedSpan_append]

/-- The tokens of a text without tabs. -/
def tokensOf : List Char → List (List Char) :=
  Cutter.tokens ⟨cut, cut_append⟩

theorem tokenizes : Tokenizes cut tokensOf :=
  Cutter.tokenizes ⟨cut, cut_append⟩

end Ontogram.Query
