import Ontogram.Proofs.Ascii
import Ontogram.Yaml.Content
import Ontogram.Yaml.Write

set_option autoImplicit false

namespace Ontogram

namespace Yaml

open Text (isAsciiDigit ne_of_class)

/-- A character of printable ASCII that is no blank. -/
def isVisible (c : Char) : Bool :=
  '!' ≤ c && c ≤ '~'

theorem toNat_of_isVisible {c : Char} (h : isVisible c = true) : 33 ≤ c.toNat ∧ c.toNat ≤ 126 := by
  simpa [isVisible, Char.le_def, UInt32.le_iff_toNat_le] using h

section Visible

variable {c : Char}

theorem isBreak_eq_false (h : isVisible c = true) : isBreak c = false := by
  simp [isBreak, ne_of_class h (show isVisible '\n' = false by decide),
    ne_of_class h (show isVisible '\u2028' = false by decide),
    ne_of_class h (show isVisible '\u2029' = false by decide)]

theorem isGap_eq_false (h : isVisible c = true) : isGap c = false := by
  simp [isGap, isBreak_eq_false h, ne_of_class h (show isVisible ' ' = false by decide),
    ne_of_class h (show isVisible '\t' = false by decide)]

theorem isDirect_of_isVisible (h : isVisible c = true) : isDirect c = true := by
  have range := toNat_of_isVisible h
  simp only [isDirect, Bool.or_eq_true, Bool.and_eq_true, decide_eq_true_eq, Char.le_def,
    UInt32.le_iff_toNat_le]
  exact Or.inr ⟨Nat.le_of_succ_le range.1, range.2⟩

theorem isAllowed_of_isDirect (h : isDirect c = true) : isAllowed c = true := by
  simp only [isDirect, Bool.or_eq_true, beq_iff_eq] at h
  rcases h with rfl | printable
  · decide
  · simp [isAllowed, printable]

theorem isVisible_of_isDigit (h : c.isDigit = true) : isVisible c = true := by
  have range := Text.toNat_of_isDigit h
  simp only [isVisible, Bool.and_eq_true, decide_eq_true_eq, Char.le_def, UInt32.le_iff_toNat_le]
  exact ⟨Nat.le_trans (by decide) range.1, Nat.le_trans range.2 (by decide)⟩

end Visible

/-! Whole numbers. -/

theorem isAsciiDigit_eq (c : Char) : isAsciiDigit c = c.isDigit := by
  simp only [isAsciiDigit, Char.isDigit, Char.le_def]

theorem digitValue?_of_isDigit {c : Char} (h : c.isDigit = true) :
    Text.digitValue? c = some (c.toNat - 48) := by
  have range := Text.toNat_of_isDigit h
  have others : (Text.zeroPoints.all fun z => z == 48 || decide (128 ≤ z)) = true := by decide
  have digit : (Text.zeroPoints.find? fun z => z ≤ c.toNat && c.toNat < z + 10).isSome = true := by
    rw [List.find?_isSome]
    refine ⟨48, by decide, ?_⟩
    simp only [Bool.and_eq_true, decide_eq_true_eq]
    omega
  obtain ⟨z, found⟩ := Option.isSome_iff_exists.1 digit
  have known := List.all_eq_true.1 others z (List.mem_of_find?_eq_some found)
  have holds := List.find?_some found
  simp only [Bool.or_eq_true, beq_iff_eq, Bool.and_eq_true, decide_eq_true_eq] at known holds
  obtain rfl : z = 48 := by omega
  rw [Text.digitValue?, found, Option.map_some]

theorem digitIn?_of_isDigit {c : Char} (h : c.isDigit = true) :
    digitIn? 10 c = some (c.toNat - 48) := by
  have range := Text.toNat_of_isDigit h
  have digit : ('0' ≤ c && c ≤ '9') = true := (isAsciiDigit_eq c).trans h
  rw [digitIn?, if_pos digit]
  exact Option.filter_eq_some_iff.2 ⟨rfl, by simp; omega⟩

section Digits

variable {ds : List Char} (digits : ∀ c ∈ ds, c.isDigit = true)
include digits

theorem asciiDigits_eq_self : Decimal.asciiDigits ds = ds := by
  refine (List.map_congr_left fun c hc => ?_).trans (List.map_id ds)
  have range := Text.toNat_of_isDigit (digits c hc)
  have same := Nat.toNat_digitChar_of_lt_ten (show c.toNat - 48 < 10 by omega)
  rw [digitValue?_of_isDigit (digits c hc), Option.map_some, Option.getD_some]
  exact Char.toNat_inj.1 (by rw [same, id]; omega)

theorem colonParts_digits : colonParts ds = [ds] := by
  induction ds with
  | nil => rfl
  | cons c ds ih =>
    have other : c ≠ ':' := ne_of_class (digits c List.mem_cons_self) (by decide)
    rw [colonParts, if_neg other, ih fun d hd => digits d (List.mem_cons_of_mem c hd)]

theorem mapM_digitIn? : ds.mapM (digitIn? 10) = some (ds.map fun c => c.toNat - 48) := by
  induction ds with
  | nil => rfl
  | cons c ds ih =>
    rw [List.mapM_cons, digitIn?_of_isDigit (digits c List.mem_cons_self),
      ih fun d hd => digits d (List.mem_cons_of_mem c hd)]
    rfl

theorem takeSign_digits : Text.takeSign ds = (false, ds) := by
  cases ds with
  | nil => rfl
  | cons c ds =>
    have first := digits c List.mem_cons_self
    have minus : c ≠ '-' := ne_of_class first (by decide)
    have plus : c ≠ '+' := ne_of_class first (by decide)
    unfold Text.takeSign
    split
    · exact absurd (List.cons.inj ‹_›).1 minus
    · exact absurd (List.cons.inj ‹_›).1 plus
    · rfl

theorem integerIn_digits (filled : ds ≠ []) :
    integerIn 10 ds = .ok (Nat.ofDigitChars 10 ds 0) := by
  have outer {c : Char} (hc : c ∈ ds) : Decimal.isOuterBlank c = false := by
    have range := Text.toNat_of_isDigit (digits c hc)
    rw [Decimal.isOuterBlank, if_pos (by omega)]
    simp [ne_of_class (digits c hc) (show Char.isDigit ' ' = false by decide)]
    omega
  have stripped : Text.stripBoth Decimal.isOuterBlank ds = ds :=
    Text.stripBoth_eq_self (fun c hc => outer (List.mem_of_head? hc))
      fun c hc => outer (List.mem_of_getLast? hc)
  have unmarked : withoutMark 10 ds = ds := by
    unfold withoutMark
    split <;> simp [baseMarks]
  have sum (n : Nat) : (ds.map fun c => c.toNat - 48).foldl (fun n d => n * 10 + d) n =
      Nat.ofDigitChars 10 ds n := by
    rw [List.foldl_map, Nat.ofDigitChars]
    exact congrFun (congrFun (congrArg List.foldl (by funext n c; rw [Nat.mul_comm]; rfl)) n) ds
  simp only [integerIn, stripped, asciiDigits_eq_self digits, takeSign_digits digits, unmarked,
    mapM_digitIn? digits, List.isEmpty_map, sum]
  rw [if_neg (by simpa using filled)]
  simp

end Digits

/-- The digits of a number do not start with a zero, unless it is zero. -/
theorem toDigits_eq_or (n : Nat) :
    Nat.toDigits 10 n = ['0'] ∨ ∃ c ds, Nat.toDigits 10 n = c :: ds ∧ c ≠ '0' := by
  induction n using Nat.strongRecOn with
  | ind n ih =>
  rw [Nat.toDigits_eq_if (by decide)]
  by_cases small : n < 10
  · rw [if_pos small]
    by_cases zero : n = 0
    · exact Or.inl (by rw [zero]; rfl)
    · refine Or.inr ⟨_, [], rfl, fun same => zero ?_⟩
      have := Nat.toNat_digitChar_of_lt_ten small
      rw [same] at this
      have : '0'.toNat = 48 := rfl
      omega
  · rw [if_neg small]
    right
    rcases ih (n / 10) (by omega) with zero | ⟨c, ds, text, other⟩
    · have value := Nat.ofDigitChars_toDigits (b := 10) (n := n / 10) (by decide) (by decide)
      rw [zero] at value
      have : Nat.ofDigitChars 10 ['0'] 0 = 0 := rfl
      omega
    · exact ⟨c, ds ++ [(n % 10).digitChar], by rw [text]; rfl, other⟩

theorem isDigit_toDigits (n : Nat) : ∀ c ∈ Nat.toDigits 10 n, c.isDigit = true :=
  fun _ mem => Nat.isDigit_of_mem_toDigits (by decide) (by decide) mem

theorem isNatural_toDigits (n : Nat) : isNatural (Nat.toDigits 10 n) = true := by
  have digits := isDigit_toDigits n
  rcases toDigits_eq_or n with zero | ⟨c, ds, text, other⟩
  · rw [zero]
    rfl
  · rw [text] at digits ⊢
    have padded : isPadded (c :: ds) = true := by
      simp only [isPadded, isPaddedDigit, isAsciiDigit_eq, Bool.and_eq_true, List.all_eq_true,
        Bool.or_eq_true]
      exact ⟨digits c List.mem_cons_self,
        fun d hd => Or.inl (digits d (List.mem_cons_of_mem c hd))⟩
    unfold isNatural
    split
    · exact absurd (List.cons.inj ‹_›).1 other
    · exact absurd (List.cons.inj ‹_›).1 other
    · exact absurd (List.cons.inj ‹_›).1 other
    · exact absurd (List.cons.inj ‹_›).1 other
    · simp only [colonParts_digits digits, padded, List.all_nil, Bool.and_true]

theorem unsigned_toDigits (n : Nat) : unsigned (Nat.toDigits 10 n) = .ok (n : Int) := by
  have digits := isDigit_toDigits n
  have value := integerIn_digits digits Nat.toDigits_ne_nil
  rw [Nat.ofDigitChars_toDigits (by decide) (by decide)] at value
  rcases toDigits_eq_or n with zero | ⟨c, ds, text, other⟩
  · have none := Nat.ofDigitChars_toDigits (b := 10) (n := n) (by decide) (by decide)
    rw [zero] at none ⊢
    rw [← none]
    rfl
  · rw [text] at digits value ⊢
    unfold unsigned
    split
    · exact absurd ‹_› (by simp)
    · exact absurd (List.cons.inj ‹_›).1 other
    · exact absurd (List.cons.inj ‹_›).1 other
    · exact absurd (List.cons.inj ‹_›).1 other
    · exact absurd (List.cons.inj ‹_›).1 other
    · simp only [colonParts_digits digits, List.mapM_cons, List.mapM_nil, value]
      simp [bind, Except.bind, pure, Except.pure]

def signOf (n : Int) : List Char :=
  if n < 0 then ['-'] else []

theorem toList_toString_int (n : Int) :
    (toString n).toList = signOf n ++ Nat.toDigits 10 n.natAbs := by
  cases n with
  | ofNat m => exact String.toList_ofList
  | negSucc m =>
    have text : toString (Int.negSucc m) = "-" ++ Nat.repr (m + 1) := rfl
    have digits : (Nat.repr (m + 1)).toList = Nat.toDigits 10 (m + 1) := String.toList_ofList
    rw [text, String.toList_append, digits, signOf, if_pos (Int.negSucc_lt_zero m)]
    rfl

/-- A minus or a digit. -/
def isNumberChar (c : Char) : Bool :=
  c == '-' || c.isDigit

theorem notMem_of_head {p : Char → Bool} {words : List String} {c : Char} (cs : List Char)
    (hc : p c = true) (apart : (words.all fun word => !word.toList.head?.any p) = true) :
    String.ofList (c :: cs) ∉ words := by
  intro mem
  have other := List.all_eq_true.1 apart _ mem
  simp [hc] at other

section Integer

variable (n : Int)

theorem isNumberChar_of_mem {c : Char} (h : c ∈ (toString n).toList) : isNumberChar c = true := by
  rw [toList_toString_int, signOf] at h
  rcases List.mem_append.1 h with sign | digit
  · split at sign
    · rw [List.mem_singleton.1 sign]
      decide
    · cases sign
  · rw [isNumberChar, isDigit_toDigits n.natAbs c digit, Bool.or_true]

theorem notMem_toString {c : Char} (hc : isNumberChar c = false) : c ∉ (toString n).toList :=
  fun mem => absurd (isNumberChar_of_mem n mem) (by simp [hc])

theorem exists_cons_toString : ∃ c cs, (toString n).toList = c :: cs := by
  refine List.exists_cons_of_ne_nil ?_
  rw [toList_toString_int]
  exact List.append_ne_nil_of_right_ne_nil _ Nat.toDigits_ne_nil

theorem takeSign_toString :
    Text.takeSign (toString n).toList = (decide (n < 0), Nat.toDigits 10 n.natAbs) := by
  rw [toList_toString_int, signOf]
  by_cases negative : n < 0
  · simp [negative, Text.takeSign]
  · simp [negative, takeSign_digits (isDigit_toDigits n.natAbs)]

theorem integerOf_toString : integerOf (toString n).toList = .ok n := by
  obtain ⟨c, cs, text⟩ := exists_cons_toString n
  have plain : (toString n).toList.filter (· ≠ '_') = (toString n).toList :=
    List.filter_eq_self.2 fun c hc => by
      simpa using ne_of_class (isNumberChar_of_mem n hc) (show isNumberChar '_' = false by decide)
  have filled : (toString n).toList.isEmpty = false := by
    rw [text]
    rfl
  simp only [integerOf, plain, filled, takeSign_toString, unsigned_toDigits]
  by_cases negative : n < 0
  · have value : -(n.natAbs : Int) = n := by omega
    simp only [negative, decide_true, if_true, Except.map, value, Bool.false_eq_true, if_false]
  · have value : (n.natAbs : Int) = n := by omega
    simp only [negative, decide_false, Except.map, value, Bool.false_eq_true, if_false]

theorem isReal_toString : isReal (toString n).toList = false := by
  obtain ⟨c, cs, text⟩ := exists_cons_toString n
  obtain ⟨d, ds, body⟩ := List.exists_cons_of_ne_nil (Nat.toDigits_ne_nil (b := 10)
    (n := n.natAbs))
  have digits := isDigit_toDigits n.natAbs
  have first : isNumberChar c = true := isNumberChar_of_mem n (text ▸ List.mem_cons_self)
  have digit : isNumberChar d = true := by
    rw [isNumberChar, digits d (body ▸ List.mem_cons_self), Bool.or_true]
  have pointless : (Nat.toDigits 10 n.natAbs ++ []).dropWhile (· ≠ '.') = [] :=
    List.dropWhile_append_of_pos fun d hd => by
      simpa using ne_of_class (digits d hd) (show Char.isDigit '.' = false by decide)
  rw [List.append_nil] at pointless
  have whole : isPointed (Nat.toDigits 10 n.natAbs) = false := by
    rw [isPointed, pointless]
  have infinite : String.ofList (Nat.toDigits 10 n.natAbs) ∉ infinityWords :=
    body ▸ notMem_of_head ds digit (by decide)
  have undefined : String.ofList (c :: cs) ∉ nanWords := notMem_of_head cs first (by decide)
  have point : c ≠ '.' := ne_of_class first (by decide)
  have sign := takeSign_toString n
  rw [text] at sign ⊢
  simp only [isReal, sign, whole, List.contains_eq_mem, infinite, undefined, decide_false,
    Bool.false_or]
  split
  · exact absurd (List.cons.inj ‹_›).1 point
  · rfl

/-- A whole number has the form of one. -/
theorem ofPlain_toString : Tag.ofPlain (toString n) = .integer := by
  obtain ⟨c, cs, text⟩ := exists_cons_toString n
  have whole : toString n = String.ofList (c :: cs) := by rw [← text, String.ofList_toList]
  have first : isNumberChar c = true := isNumberChar_of_mem n (text ▸ List.mem_cons_self)
  have line := notMem_toString n (show isNumberChar '\n' = false by decide)
  have blank : toString n ≠ "\n" := fun same => line (by rw [same]; decide)
  have truth : truthWords.lookup (toString n) = none := by
    have apart : String.ofList (c :: cs) ∉ truthWords.map Prod.fst :=
      notMem_of_head cs first (by decide)
    rw [List.lookup_eq_none_iff, whole]
    intro word mem
    refine bne_iff_ne.2 ?_
    rintro same
    exact apart (same ▸ List.mem_map_of_mem mem)
  rw [Tag.ofPlain, if_neg blank, Text.dropFinalNewline_eq_self line, String.ofList_toList,
    Tag.ofForm, truth]
  simp only [Option.isSome_none, isReal_toString, takeSign_toString, isNatural_toDigits,
    Bool.false_eq_true, if_false, if_true]

end Integer

end Yaml

/-- Whether a scalar is nothing, a truth value, a whole number or a text of visible characters. -/
def Scalar.isVisible : Scalar → Bool
  | .null | .bool _ | .int _ => true
  | .text s => s.toList.all Yaml.isVisible
  | .real _ | .moment _ | .octets _ => false

namespace Yaml

open Text (ne_of_class)

namespace Sheet

/-- The tag that a sheet gets when it is read. -/
def tag (s : Sheet) : Tag :=
  if s.isPlain then Tag.ofPlain (String.ofList s.text) else .text

/-- The text of a sheet on one line. -/
def written (s : Sheet) : List Char :=
  if s.isPlain then s.text else '\x27' :: (s.text.flatMap singleChar ++ ['\x27'])

end Sheet

/-- The written text of a scalar has its tag and its value. -/
theorem scalarOf_tag {s : Scalar} (h : s.isVisible = true) :
    Node.scalarOf (Sheet.ofScalar s).tag (String.ofList (Sheet.ofScalar s).text) = .ok s := by
  cases s with
  | null => rfl
  | bool b => cases b <;> rfl
  | int n =>
    simp only [Sheet.ofScalar, Sheet.tag, if_true, String.ofList_toList, ofPlain_toString,
      Node.scalarOf, integerOf_toString]
    rfl
  | text s =>
    have tag : (Sheet.ofScalar (.text s)).tag = .text := by
      simp only [Sheet.ofScalar, Sheet.tag, String.ofList_toList]
      split
      · exact of_decide_eq_true (Bool.and_eq_true_iff.1 ‹_›).1
      · rfl
    rw [tag]
    exact congrArg (fun s => Except.ok (Scalar.text s)) String.ofList_toList
  | real | moment | octets => cases h

theorem isVisible_text {s : Scalar} (h : s.isVisible = true) :
    ∀ c ∈ (Sheet.ofScalar s).text, isVisible c = true := by
  cases s with
  | null => exact List.all_eq_true.1 (by decide)
  | bool b => cases b <;> exact List.all_eq_true.1 (by decide)
  | int n =>
    intro c hc
    have number := isNumberChar_of_mem n hc
    simp only [isNumberChar, Bool.or_eq_true, beq_iff_eq] at number
    rcases number with rfl | digit
    · decide
    · exact isVisible_of_isDigit digit
  | text s => exact List.all_eq_true.1 h
  | real | moment | octets => cases h

/-! Forms on one line. -/

theorem runsOf_of_visible {cs : List Char} (visible : ∀ c ∈ cs, isVisible c = true) :
    runsOf cs = if cs = [] then [] else [(.word, cs)] := by
  induction cs with
  | nil => rfl
  | cons c cs ih =>
    have hc := visible c List.mem_cons_self
    have word : RunKind.ofChar c = .word := by
      simp [RunKind.ofChar, ne_of_class hc (show isVisible ' ' = false by decide),
        ne_of_class hc (show isVisible '\n' = false by decide)]
    rw [runsOf, ih fun d hd => visible d (List.mem_cons_of_mem c hd), word]
    cases cs with
    | nil => rfl
    | cons d cs => simp

theorem foldRuns_runsOf {cs : List Char} (visible : ∀ c ∈ cs, isVisible c = true) (m : Margins)
    (char : Char → List Char) (first : Bool) (column : Nat) :
    foldRuns m char first column (runsOf cs) = cs.flatMap char := by
  rw [runsOf_of_visible visible]
  cases cs with
  | nil => rfl
  | cons c cs => simp [foldRuns]

theorem holdsBlank_eq_false {cs : List Char} (visible : ∀ c ∈ cs, isVisible c = true) :
    holdsBlankBeforeBreak cs = false ∧ holdsBlankAfterBreak cs = false := by
  induction cs with
  | nil => exact ⟨rfl, rfl⟩
  | cons c cs ih =>
    have hc := visible c List.mem_cons_self
    have blank : c ≠ ' ' := ne_of_class hc (by decide)
    have line : c ≠ '\n' := ne_of_class hc (by decide)
    obtain ⟨before, after⟩ := ih fun d hd => visible d (List.mem_cons_of_mem c hd)
    constructor
    · rw [holdsBlankBeforeBreak, before]
      exact fun _ same _ => blank same
    · rw [holdsBlankAfterBreak, after]
      exact fun _ same _ => line same

/-- A text of visible characters is never folded. -/
theorem Sheet.form_eq {s : Sheet} (visible : ∀ c ∈ s.text, isVisible c = true) (m : Margins)
    (column : Nat) : s.form m column = s.written := by
  have direct : s.text.all isDirect = true :=
    List.all_eq_true.2 fun c hc => isDirect_of_isVisible (visible c hc)
  obtain ⟨before, after⟩ := holdsBlank_eq_false visible
  have single : admitsSingle s.text = true := by simp [admitsSingle, direct, before, after]
  rw [form, written, if_pos single, plainForm, singleForm, foldRuns_runsOf visible,
    foldRuns_runsOf visible]
  simp

/-- A text that is read as one word of a plain scalar. -/
structure IsWord (cs : List Char) : Prop where
  visible : ∀ c ∈ cs, isVisible c = true
  filled : cs ≠ []
  first : startsIndicator cs = false
  last : cs.getLast? ≠ some ':'
  unmarked : startsMark cs = false

theorem startsIndicator_of_isDigit {d : Char} (digit : d.isDigit = true) (ds : List Char) :
    startsIndicator (d :: ds) = false := by
  have apart : ("#,[]\x7b\x7d&*!|>\x27\"%@\x60".toList.all fun c => !c.isDigit) = true := by decide
  have other : d ∉ "#,[]\x7b\x7d&*!|>\x27\"%@\x60".toList := fun mem => by
    have none := Text.eq_false_of_mem apart mem
    rw [digit] at none
    cases none
  simp only [startsIndicator, List.contains_eq_mem, other, decide_false, Bool.false_or,
    Bool.and_eq_false_iff, Bool.or_eq_false_iff, beq_eq_false_iff_ne]
  exact Or.inl ⟨⟨ne_of_class digit (by decide), ne_of_class digit (by decide)⟩,
    ne_of_class digit (by decide)⟩

theorem startsMark_of_ne {c : Char} {cs : List Char} (point : c ≠ '.')
    (hyphen : c ≠ '-' ∨ cs.head? ≠ some '-') : startsMark (c :: cs) = false := by
  have minus : "---".toList = ['-', '-', '-'] := by decide
  have points : "...".toList = ['.', '.', '.'] := by decide
  rw [startsMark, minus, points]
  rcases hyphen with other | other
  · simp [List.isPrefixOf, point.symm, other.symm]
  · cases cs with
    | nil => simp [List.isPrefixOf]
    | cons d cs =>
      have second : d ≠ '-' := fun same => other (congrArg some same)
      simp [List.isPrefixOf, point.symm, second.symm]

theorem isWord_toString (n : Int) : IsWord (toString n).toList := by
  have visible := isVisible_text (s := .int n) rfl
  have last : (toString n).toList.getLast? ≠ some ':' := fun colon =>
    notMem_toString n (by decide) (List.mem_of_getLast? colon)
  obtain ⟨d, ds, text⟩ := List.exists_cons_of_ne_nil (Nat.toDigits_ne_nil (b := 10)
    (n := n.natAbs))
  have digits := isDigit_toDigits n.natAbs
  have whole := toList_toString_int n
  rw [text] at digits whole
  have digit := digits d List.mem_cons_self
  have point : d ≠ '.' := ne_of_class digit (by decide)
  have minus : d ≠ '-' := ne_of_class digit (by decide)
  by_cases negative : n < 0
  · rw [signOf, if_pos negative] at whole
    have gap : beforeGap (d :: ds) = false := by
      simp only [beforeGap, List.head?_cons, Option.all_some, isGapChar, Bool.or_eq_false_iff,
        beq_eq_false_iff_ne]
      exact ⟨⟨⟨⟨ne_of_class digit (by decide), ne_of_class digit (by decide)⟩,
        ne_of_class digit (by decide)⟩, ne_of_class digit (by decide)⟩,
        ne_of_class digit (by decide)⟩
    have first : startsIndicator ('-' :: d :: ds) = false := by
      rw [startsIndicator, gap, Bool.and_false, Bool.or_false]
      decide
    have second : (d :: ds).head? ≠ some '-' := fun same => minus (Option.some.inj same)
    rw [whole]
    exact ⟨whole ▸ visible, List.cons_ne_nil _ _, first, whole ▸ last,
      startsMark_of_ne (by decide) (Or.inr second)⟩
  · rw [signOf, if_neg negative, List.nil_append] at whole
    rw [whole]
    exact ⟨whole ▸ visible, List.cons_ne_nil _ _, startsIndicator_of_isDigit digit ds,
      whole ▸ last, startsMark_of_ne point (Or.inl minus)⟩

/-- A colon at the end of a text says that a value follows. -/
theorem getLast?_ne_colon {cs : List Char} {afterGap : Bool}
    (h : holdsIndicator afterGap cs = false) : cs.getLast? ≠ some ':' := by
  induction cs generalizing afterGap with
  | nil => simp
  | cons c cs ih =>
    simp only [holdsIndicator, Bool.or_eq_false_iff] at h
    cases cs with
    | nil =>
      intro colon
      obtain rfl := Option.some.inj colon
      simp [beforeGap] at h
    | cons d cs =>
      rw [List.getLast?_cons_cons]
      exact ih h.2

theorem isWord_text {s : Scalar} (h : s.isVisible = true)
    (plain : (Sheet.ofScalar s).isPlain = true) : IsWord (Sheet.ofScalar s).text := by
  have visible := isVisible_text h
  cases s with
  | null => exact ⟨visible, by decide, by decide, by decide, by decide⟩
  | bool b => cases b <;> exact ⟨visible, by decide, by decide, by decide, by decide⟩
  | int n => exact isWord_toString n
  | text s =>
    obtain ⟨tag, admits⟩ := Bool.and_eq_true_iff.1 plain
    simp only [admitsPlain, Bool.and_eq_true, Bool.not_eq_true'] at admits
    obtain ⟨⟨⟨⟨⟨unmarked, first⟩, inner⟩, -⟩, -⟩, -⟩ := admits
    refine ⟨visible, fun empty => ?_, first, ?_, unmarked⟩
    · rw [String.toList_eq_nil_iff.1 empty] at tag
      exact absurd tag (by decide)
    · have whole : (Sheet.ofScalar (.text s)).text = s.toList := rfl
      rw [whole]
      cases text : s.toList with
      | nil => simp
      | cons c cs =>
        rw [text] at first inner
        cases cs with
        | nil =>
          intro colon
          obtain rfl := Option.some.inj colon
          exact absurd first (by decide)
        | cons d cs =>
          rw [List.getLast?_cons_cons]
          exact getLast?_ne_colon inner
  | real | moment | octets => cases h

end Yaml

end Ontogram
