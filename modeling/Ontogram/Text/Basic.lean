set_option autoImplicit false

namespace Ontogram.Text

def inRanges (ranges : List (Nat × Nat)) (n : Nat) : Bool :=
  ranges.any fun r => r.1 ≤ n && n ≤ r.2

theorem inRanges_iff {ranges : List (Nat × Nat)} {n : Nat} :
    inRanges ranges n = true ↔ ∃ r ∈ ranges, r.1 ≤ n ∧ n ≤ r.2 := by
  simp [inRanges]

def wideBlanks : List (Nat × Nat) :=
  [(0x85, 0x85), (0xa0, 0xa0), (0x1680, 0x1680), (0x2000, 0x200a), (0x2028, 0x2029),
    (0x202f, 0x202f), (0x205f, 0x205f), (0x3000, 0x3000)]

/-- White space of any script. -/
def isBlank (c : Char) : Bool :=
  if c.toNat < 128 then (9 ≤ c.toNat && c.toNat ≤ 13) || (28 ≤ c.toNat && c.toNat ≤ 32)
  else inRanges wideBlanks c.toNat

/-- The text without the characters of a class at its front. -/
def stripLeft (p : Char → Bool) (cs : List Char) : List Char :=
  cs.dropWhile p

/-- The text without the characters of a class at its end. -/
def stripRight (p : Char → Bool) (cs : List Char) : List Char :=
  (cs.reverse.dropWhile p).reverse

/-- The text without the characters of a class at both ends. -/
def stripBoth (p : Char → Bool) (cs : List Char) : List Char :=
  stripRight p (stripLeft p cs)

theorem stripRight_eq_self {p : Char → Bool} {cs : List Char}
    (last : ∀ c ∈ cs.getLast?, p c = false) : stripRight p cs = cs := by
  rw [← List.head?_reverse] at last
  rw [stripRight]
  cases back : cs.reverse with
  | nil => rw [List.dropWhile_nil, ← back, List.reverse_reverse]
  | cons c rest =>
    have kept : p c = false := last c (by rw [back]; rfl)
    rw [List.dropWhile_cons_of_neg (by simp [kept]), ← back, List.reverse_reverse]

/-- A text that neither starts nor ends in the class keeps its ends. -/
theorem stripBoth_eq_self {p : Char → Bool} {cs : List Char}
    (first : ∀ c ∈ cs.head?, p c = false) (last : ∀ c ∈ cs.getLast?, p c = false) :
    stripBoth p cs = cs := by
  have left : stripLeft p cs = cs := by
    cases cs with
    | nil => rfl
    | cons c cs => exact List.dropWhile_cons_of_neg (by simp [first c rfl])
  rw [stripBoth, left, stripRight_eq_self last]

/-- The text without blanks at both ends. -/
def strip (s : String) : String :=
  String.ofList (stripBoth isBlank s.toList)

/-- The maximal runs of characters that are not blank, in order. -/
def wordsOf : List Char → List (List Char)
  | [] => []
  | c :: cs =>
    if isBlank c then wordsOf cs
    else if cs.head?.all isBlank then [c] :: wordsOf cs
    else
      match wordsOf cs with
      | w :: ws => (c :: w) :: ws
      | [] => [[c]]

def words (s : String) : List String :=
  (wordsOf s.toList).map String.ofList

/-- The words of a text with an underscore between each two. -/
def underscored (s : String) : String :=
  String.intercalate "_" (words s)

/-- A text, if it is not empty. -/
def nonEmpty (s : String) : Option String :=
  if s = "" then none else some s

/-- The first of two texts that is there and not empty, or the second. -/
def orElse (first : Option String) (second : String) : String :=
  (first.bind nonEmpty).getD second

theorem isBlank_space : isBlank ' ' = true := by decide

theorem ne_nil_of_mem_wordsOf {w cs : List Char} (h : w ∈ wordsOf cs) : w ≠ [] := by
  induction cs generalizing w with
  | nil => simp [wordsOf] at h
  | cons c cs ih =>
    unfold wordsOf at h
    split at h
    · exact ih h
    · split at h
      · rcases List.mem_cons.1 h with rfl | h
        · simp
        · exact ih h
      · split at h
        · rename_i v vs hv
          rcases List.mem_cons.1 h with rfl | h
          · simp
          · exact ih (hv ▸ List.mem_cons_of_mem _ h)
        · simp_all

theorem not_isBlank_of_mem_wordsOf {w cs : List Char} {c : Char} (h : w ∈ wordsOf cs)
    (hc : c ∈ w) : isBlank c = false := by
  induction cs generalizing w with
  | nil => simp [wordsOf] at h
  | cons d cs ih =>
    unfold wordsOf at h
    split at h
    · exact ih h hc
    · rename_i hd
      have hd : isBlank d = false := by simpa using hd
      split at h
      · rcases List.mem_cons.1 h with rfl | h
        · simp_all
        · exact ih h hc
      · split at h
        · rename_i v vs hv
          rcases List.mem_cons.1 h with rfl | h
          · rcases List.mem_cons.1 hc with rfl | hc
            · exact hd
            · exact ih (hv ▸ List.mem_cons_self) hc
          · exact ih (hv ▸ List.mem_cons_of_mem _ h) hc
        · simp_all

theorem dropWhile_isBlank_of_wordsOf_eq_nil {cs : List Char} (h : wordsOf cs = []) :
    cs.dropWhile isBlank = [] := by
  induction cs with
  | nil => rfl
  | cons c cs ih =>
    unfold wordsOf at h
    split at h
    · rename_i blank
      rw [List.dropWhile_cons_of_pos blank, ih h]
    · split at h
      · cases h
      · split at h <;> cases h

/-- A text without words is all blank. -/
theorem strip_eq_empty {s : String} (h : words s = []) : strip s = "" := by
  have blank := dropWhile_isBlank_of_wordsOf_eq_nil (List.map_eq_nil_iff.1 h)
  simp [strip, stripBoth, stripLeft, stripRight, blank]

/-- The digits zero of all scripts. -/
def zeroPoints : List Nat :=
  [0x30, 0x660, 0x6f0, 0x7c0, 0x966, 0x9e6, 0xa66, 0xae6, 0xb66, 0xbe6, 0xc66, 0xce6, 0xd66,
   0xde6, 0xe50, 0xed0, 0xf20, 0x1040, 0x1090, 0x17e0, 0x1810, 0x1946, 0x19d0, 0x1a80, 0x1a90,
   0x1b50, 0x1bb0, 0x1c40, 0x1c50, 0xa620, 0xa8d0, 0xa900, 0xa9d0, 0xa9f0, 0xaa50, 0xabf0,
   0xff10, 0x104a0, 0x10d30, 0x11066, 0x110f0, 0x11136, 0x111d0, 0x112f0, 0x11450, 0x114d0,
   0x11650, 0x116c0, 0x11730, 0x118e0, 0x11950, 0x11c50, 0x11d50, 0x11da0, 0x16a60, 0x16ac0,
   0x16b50, 0x1d7ce, 0x1d7d8, 0x1d7e2, 0x1d7ec, 0x1d7f6, 0x1e140, 0x1e2f0, 0x1e950, 0x1fbf0]

/-- The value of a decimal digit of any script. -/
def digitValue? (c : Char) : Option Nat :=
  (zeroPoints.find? fun z => z ≤ c.toNat && c.toNat < z + 10).map (c.toNat - ·)

/-- A decimal digit of any script. -/
def isDigit (c : Char) : Bool :=
  (digitValue? c).isSome

def isAsciiDigit (c : Char) : Bool :=
  '0' ≤ c && c ≤ '9'

/-- The value of a run of ASCII digits read in base ten. -/
def asciiNumber (cs : List Char) : Nat :=
  cs.foldl (fun n c => n * 10 + (c.toNat - '0'.toNat)) 0

/-- A sign at the front: whether it is a minus, and the rest. -/
def takeSign : List Char → Bool × List Char
  | '-' :: cs => (true, cs)
  | '+' :: cs => (false, cs)
  | cs => (false, cs)

/-- The lower case of one character. The dotted capital I leaves its dot behind. -/
def lowerChar (c : Char) : List Char :=
  if c = '\u0130' then ['i', '\u0307']
  else if c = '\u212a' then ['k']
  else [c.toLower]

def lowerOf (cs : List Char) : List Char :=
  cs.flatMap lowerChar

def lower (s : String) : String :=
  String.ofList (lowerOf s.toList)

/-- The upper case of one character. The dotless i and the long s become ASCII. -/
def upperChar (c : Char) : Char :=
  if c = '\u0131' then 'I'
  else if c = '\u017f' then 'S'
  else c.toUpper

/-- Whether a part occurs in a text. -/
def holds (part : List Char) : List Char → Bool
  | [] => part.isEmpty
  | c :: cs => part.isPrefixOf (c :: cs) || holds part cs

end Ontogram.Text
