import Ontogram.Text.Basic

set_option autoImplicit false

namespace Ontogram.Text

/-- The text from column `column` on, with blanks in the place of tabs. -/
def expandFrom (column : Nat) : List Char → List Char
  | [] => []
  | c :: cs =>
    if c = '\t' then
      let width := 8 - column % 8
      List.replicate width ' ' ++ expandFrom (column + width) cs
    else if c = '\n' ∨ c = '\r' then c :: expandFrom 0 cs
    else c :: expandFrom (column + 1) cs

def expandTabs (cs : List Char) : List Char :=
  expandFrom 0 cs

theorem expandFrom_eq_self {cs : List Char} (h : '\t' ∉ cs) (column : Nat) :
    expandFrom column cs = cs := by
  induction cs generalizing column with
  | nil => rfl
  | cons c cs ih =>
    have hc : c ≠ '\t' := fun e => h (e ▸ List.mem_cons_self)
    have ht : '\t' ∉ cs := fun m => h (List.mem_cons_of_mem _ m)
    simp only [expandFrom, hc, if_false, ih ht]
    split <;> rfl

theorem tab_notMem_expandFrom (column : Nat) (cs : List Char) : '\t' ∉ expandFrom column cs := by
  induction cs generalizing column with
  | nil => simp [expandFrom]
  | cons c cs ih =>
    unfold expandFrom
    split
    · simp only [List.mem_append, not_or]
      exact ⟨fun m => absurd (List.eq_of_mem_replicate m) (by decide), ih _⟩
    · rename_i hc
      split <;> simp [ih, Ne.symm hc]

theorem expandTabs_eq_self {cs : List Char} (h : '\t' ∉ cs) : expandTabs cs = cs :=
  expandFrom_eq_self h 0

/-- The longest front of a text whose characters are all of a class. -/
def span (p : Char → Bool) (cs : List Char) : List Char × List Char :=
  (cs.takeWhile p, cs.dropWhile p)

/-- The rest of a quoted text after its opening quote, up to and with its closing quote. A
backslash takes the next character along, which must not be a line feed. -/
def quotedTail? : List Char → Option (List Char × List Char)
  | [] => none
  | ['\\'] => none
  | '\\' :: d :: rest =>
    if d = '\n' then none else (quotedTail? rest).map fun r => ('\\' :: d :: r.1, r.2)
  | c :: rest =>
    if c = '"' then some ([c], rest) else (quotedTail? rest).map fun r => (c :: r.1, r.2)

def quotedText? : List Char → Option (List Char × List Char)
  | '"' :: rest => (quotedTail? rest).map fun r => ('"' :: r.1, r.2)
  | _ => none

/-- An at sign with a language tag: a letter of ASCII, then letters, digits and hyphens. -/
def languageMark? : List Char → Option (List Char × List Char)
  | '@' :: c :: rest =>
    if c.isAlpha then
      let (tag, rest) := span (fun d => d.isAlphanum || d == '-') rest
      some ('@' :: c :: tag, rest)
    else none
  | _ => none

/-- A character that may stand between angle brackets. -/
def isBracketChar (c : Char) : Bool :=
  !isBlank c && c != '<' && c != '>'

/-- A text in angle brackets, without blanks or further brackets. -/
def bracketed? : List Char → Option (List Char × List Char)
  | '<' :: rest =>
    match span isBracketChar rest with
    | (name, '>' :: rest) => some ('<' :: name ++ ['>'], rest)
    | _ => none
  | _ => none

/-- A quoted text with the mark that a reader takes behind it, if there is one. -/
def marked? (mark : List Char → Option (List Char × List Char)) (cs : List Char) :
    Option (List Char × List Char) := do
  let (body, rest) ← quotedText? cs
  match mark rest with
  | some (mark, rest) => return (body ++ mark, rest)
  | none => return (body, rest)

/-- A reader takes a lexeme that is not empty from the front of a text. -/
def Takes (reader : List Char → Option (List Char × List Char)) : Prop :=
  ∀ cs a b, reader cs = some (a, b) → a ++ b = cs ∧ a ≠ []

theorem span_append (p : Char → Bool) (cs : List Char) : (span p cs).1 ++ (span p cs).2 = cs :=
  List.takeWhile_append_dropWhile

theorem quotedTail?_append {cs a b : List Char} (h : quotedTail? cs = some (a, b)) :
    a ++ b = cs := by
  fun_induction quotedTail? cs generalizing a b with
  | case1 => simp at h
  | case2 => simp at h
  | case3 => simp at h
  | case4 d rest hd ih =>
    obtain ⟨r, hr, he⟩ := Option.map_eq_some_iff.1 h
    obtain ⟨rfl, rfl⟩ := Prod.mk.inj he
    simp [ih hr]
  | case5 rest =>
    obtain ⟨rfl, rfl⟩ := Prod.mk.inj (Option.some.inj h)
    rfl
  | case6 c rest _ _ _ ih =>
    obtain ⟨r, hr, he⟩ := Option.map_eq_some_iff.1 h
    obtain ⟨rfl, rfl⟩ := Prod.mk.inj he
    simp [ih hr]

theorem takes_quotedText : Takes quotedText? := by
  intro cs a b h
  unfold quotedText? at h
  split at h
  · obtain ⟨r, hr, he⟩ := Option.map_eq_some_iff.1 h
    obtain ⟨rfl, rfl⟩ := Prod.mk.inj he
    simp [quotedTail?_append hr]
  · simp at h

theorem takes_languageMark : Takes languageMark? := by
  intro cs a b h
  unfold languageMark? at h
  split at h
  · split at h
    · obtain ⟨rfl, rfl⟩ := Prod.mk.inj (Option.some.inj h)
      simp
    · simp at h
  · simp at h

theorem takes_bracketed : Takes bracketed? := by
  intro cs a b h
  unfold bracketed? at h
  split at h
  · rename_i rest
    split at h
    · rename_i name r hs
      obtain ⟨rfl, rfl⟩ := Prod.mk.inj (Option.some.inj h)
      have := span_append isBracketChar rest
      rw [hs] at this
      simp at this
      simp [this]
    · simp at h
  · simp at h

theorem takes_or {f g : List Char → Option (List Char × List Char)} (hf : Takes f) (hg : Takes g) :
    Takes fun cs => (f cs).or (g cs) := by
  intro cs a b h
  rcases Option.or_eq_some_iff.1 h with h | ⟨_, h⟩
  · exact hf cs a b h
  · exact hg cs a b h

theorem takes_marked {mark : List Char → Option (List Char × List Char)} (h : Takes mark) :
    Takes (marked? mark) := by
  intro cs a b read
  unfold marked? at read
  simp only [Option.bind_eq_bind, Option.bind_eq_some_iff] at read
  obtain ⟨⟨body, rest⟩, hb, read⟩ := read
  obtain ⟨happ, hne⟩ := takes_quotedText _ _ _ hb
  simp only at read
  split at read
  · rename_i hm
    obtain ⟨rfl, rfl⟩ := Prod.mk.inj (Option.some.inj read)
    obtain ⟨rfl, -⟩ := h _ _ _ hm
    exact ⟨by simpa using happ, by simp [hne]⟩
  · obtain ⟨rfl, rfl⟩ := Prod.mk.inj (Option.some.inj read)
    exact ⟨happ, hne⟩

/-- A cut of the text that starts with `c` gives the lexeme in front and what follows it. -/
structure Cutter where
  cut : Char → List Char → List Char × List Char
  append : ∀ c cs, (cut c cs).1 ++ (cut c cs).2 = c :: cs ∧ (cut c cs).1 ≠ []

theorem Cutter.length_cut_lt (k : Cutter) (c : Char) (cs : List Char) :
    (k.cut c cs).2.length < (c :: cs).length := by
  obtain ⟨happ, hne⟩ := k.append c cs
  have h := congrArg List.length happ
  have := List.length_pos_iff.2 hne
  rw [List.length_append] at h
  omega

/-- The tokens of a text without tabs. -/
def Cutter.tokens (k : Cutter) : List Char → List (List Char)
  | [] => []
  | c :: cs =>
    if isBlank c then k.tokens cs
    else (k.cut c cs).1 :: k.tokens (k.cut c cs).2
termination_by cs => cs.length
decreasing_by
  · simp
  · exact k.length_cut_lt c cs

/-- A reader of tokens passes over blanks, and elsewhere cuts a token off. -/
structure Tokenizes (cut : Char → List Char → List Char × List Char)
    (tokensOf : List Char → List (List Char)) : Prop where
  append : ∀ c cs, (cut c cs).1 ++ (cut c cs).2 = c :: cs
  shorter : ∀ c cs, (cut c cs).2.length < (c :: cs).length
  nil : tokensOf [] = []
  blank : ∀ c cs, isBlank c = true → tokensOf (c :: cs) = tokensOf cs
  visible : ∀ c cs, isBlank c = false →
    tokensOf (c :: cs) = (cut c cs).1 :: tokensOf (cut c cs).2

theorem Cutter.tokenizes (k : Cutter) : Tokenizes k.cut k.tokens where
  append c cs := (k.append c cs).1
  shorter := k.length_cut_lt
  nil := by rw [tokens]
  blank c cs h := by rw [tokens, if_pos h]
  visible c cs h := by rw [tokens, if_neg (by simp [h])]

namespace Tokenizes

variable {cut : Char → List Char → List Char × List Char}
  {tokensOf : List Char → List (List Char)}

/-- Induction along a reader of tokens. -/
theorem induction (h : Tokenizes cut tokensOf) {motive : List Char → Prop} (nil : motive [])
    (blank : ∀ c cs, isBlank c = true → motive cs → motive (c :: cs))
    (visible : ∀ c cs, isBlank c = false → motive (cut c cs).2 → motive (c :: cs)) :
    ∀ cs, motive cs
  | [] => nil
  | c :: cs =>
    if hc : isBlank c = true then blank c cs hc (induction h nil blank visible cs)
    else visible c cs (Bool.eq_false_iff.2 hc) (induction h nil blank visible (cut c cs).2)
termination_by cs => cs.length
decreasing_by
  · simp
  · exact h.shorter c cs

theorem blanks (h : Tokenizes cut tokensOf) {front : List Char}
    (all : ∀ c ∈ front, isBlank c = true) (cs : List Char) :
    tokensOf (front ++ cs) = tokensOf cs := by
  induction front with
  | nil => rfl
  | cons c front ih =>
    rw [List.cons_append, h.blank c _ (all c List.mem_cons_self)]
    exact ih fun d hd => all d (List.mem_cons_of_mem c hd)

theorem cons_of_cut (h : Tokenizes cut tokensOf) {c : Char} {cs t rest : List Char}
    (visible : isBlank c = false) (taken : cut c cs = (t, rest)) :
    tokensOf (c :: cs) = t :: tokensOf rest := by
  rw [h.visible c cs visible, taken]

/-- What holds of each lexeme that is cut off holds of each token. -/
theorem forall_mem (h : Tokenizes cut tokensOf) {P : List Char → Prop}
    (each : ∀ c cs, isBlank c = false → P (cut c cs).1) (cs : List Char) :
    ∀ token ∈ tokensOf cs, P token := by
  induction cs using h.induction with
  | nil => rw [h.nil]; exact List.forall_mem_nil _
  | blank c cs hc ih => rwa [h.blank c cs hc]
  | visible c cs hc ih =>
    rw [h.visible c cs hc]
    exact List.forall_mem_cons.2 ⟨each c cs hc, ih⟩

/-- A token is a piece of the text. -/
theorem exists_suffix_of_mem (h : Tokenizes cut tokensOf) {cs token : List Char}
    (mem : token ∈ tokensOf cs) : ∃ behind, token ++ behind <:+ cs := by
  induction cs using h.induction with
  | nil =>
    rw [h.nil] at mem
    cases mem
  | blank c cs hc ih =>
    rw [h.blank c cs hc] at mem
    obtain ⟨behind, suffix⟩ := ih mem
    exact ⟨behind, suffix.trans (List.suffix_cons c cs)⟩
  | visible c cs hc ih =>
    have text := h.append c cs
    rw [h.visible c cs hc] at mem
    rcases List.mem_cons.1 mem with rfl | mem
    · exact ⟨(cut c cs).2, text ▸ List.suffix_rfl⟩
    · obtain ⟨behind, suffix⟩ := ih mem
      exact ⟨behind, suffix.trans ⟨(cut c cs).1, text⟩⟩

theorem mem_of_mem (h : Tokenizes cut tokensOf) {cs token : List Char}
    (mem : token ∈ tokensOf cs) {c : Char} (hc : c ∈ token) : c ∈ cs := by
  obtain ⟨behind, suffix⟩ := h.exists_suffix_of_mem mem
  exact suffix.subset (List.mem_append_left _ hc)

end Tokenizes

end Ontogram.Text
