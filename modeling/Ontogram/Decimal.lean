import Ontogram.Text.Basic

set_option autoImplicit false

namespace Ontogram.Decimal

/-- What the bits of a number say. -/
inductive Reading where
  /-- No number. -/
  | nan
  /-- An infinity. -/
  | infinite (negative : Bool)
  /-- A number of size `mantissa * 2 ^ exponent`; `lowest` when its mantissa is the least of its
  binade, so that its neighbour below is half as far as its neighbour above. -/
  | finite (negative : Bool) (mantissa : Nat) (exponent : Int) (lowest : Bool)

/-- Reads the sign, exponent and mantissa fields. -/
def readBits (bits : Nat) : Reading :=
  let negative := (bits >>> 63) % 2 == 1
  let field : Nat := (bits >>> 52) % 2048
  let fraction : Nat := bits % (1 <<< 52)
  if field == 2047 then
    if fraction == 0 then .infinite negative else .nan
  else if field == 0 then .finite negative fraction (-1074) false
  else .finite negative ((1 <<< 52) + fraction) ((field : Int) - 1075) (fraction == 0 && 1 < field)

/-- The exact value of a number. -/
def read (x : Float) : Reading :=
  readBits x.toBits.toNat

/-- The sign of `±m * 2 ^ e - n`. -/
def compareScaled (negative : Bool) (m : Nat) (e n : Int) : Ordering :=
  let m : Int := if negative then -(m : Int) else m
  if 0 ≤ e then compare (m * Nat.pow 2 e.toNat) n
  else compare m (n * Nat.pow 2 (-e).toNat)

/-- Compares a number with a whole number; nothing compares with what is no number. -/
def compareInt? (x : Float) (n : Int) : Option Ordering :=
  match read x with
  | .nan => none
  | .infinite negative => some (if negative then .lt else .gt)
  | .finite negative m e _ => some (compareScaled negative m e n)

/-- The reals that round to a number, as fractions over one denominator. The ends belong to it
when `closed`. -/
structure Rounding where
  low : Nat
  value : Nat
  high : Nat
  den : Nat
  closed : Bool

/-- The interval of the number `m * 2 ^ e`. The ends are half way to the neighbours, and a tie
goes to the even mantissa. -/
def Rounding.of (m : Nat) (e : Int) (lowest : Bool) : Rounding :=
  let shift := e - 2
  let up := Nat.pow 2 shift.toNat
  { low := (4 * m - if lowest then 1 else 2) * up
    value := 4 * m * up
    high := (4 * m + 2) * up
    den := Nat.pow 2 (-shift).toNat
    closed := m % 2 == 0 }

/-- Whether `d * 10 ^ k` lies in the interval. -/
def Rounding.holds (r : Rounding) (d : Nat) (k : Int) : Bool :=
  let x := d * Nat.pow 10 k.toNat * r.den
  let low := r.low * Nat.pow 10 (-k).toNat
  let high := r.high * Nat.pow 10 (-k).toNat
  if r.closed then low ≤ x && x ≤ high else low < x && x < high

/-- The nearer of the value's two neighbours on the grid of multiples of `10 ^ k`, if one lies in
the interval. -/
def Rounding.nearest? (r : Rounding) (k : Int) : Option Nat :=
  let num := r.value * Nat.pow 10 (-k).toNat
  let den := r.den * Nat.pow 10 k.toNat
  let below := num / den
  match r.holds below k && below != 0, r.holds (below + 1) k with
  | true, true =>
    let down := num - below * den
    let up := (below + 1) * den - num
    some (if down < up || (down == up && below % 2 == 0) then below else below + 1)
  | true, false => some below
  | false, true => some (below + 1)
  | false, false => none

def digitCount (n : Nat) : Nat :=
  (Nat.toDigits 10 n).length

/-- The exponent of the leading digit of a positive fraction. -/
def leadingExponent (num den : Nat) : Int :=
  let e : Int := (digitCount num : Int) - digitCount den
  if den * Nat.pow 10 e.toNat ≤ num * Nat.pow 10 (-e).toNat then e else e - 1

/-- Digits `d` and exponent `k` of the shortest decimal `d * 10 ^ k` that reads back. -/
def shortest (m : Nat) (e : Int) (lowest : Bool) : Nat × Int :=
  let r := Rounding.of m e lowest
  let top := leadingExponent r.value r.den
  let found := (List.range 17).findSome? fun (n : Nat) =>
    (r.nearest? (top - n)).map fun d => (d, top - n)
  found.getD (0, 0)

/-- How numbers are written. -/
structure Style where
  /-- The least leading exponent that is written with a point alone. -/
  leastPlain : Int
  /-- The first leading exponent that is too large for that. -/
  plainLimit : Int
  /-- What ends a whole number. -/
  wholeEnd : String
  /-- The least number of digits of an exponent. -/
  exponentWidth : Nat
  nan : String
  infinity : String

/-- The style of this library. -/
def style : Style :=
  { leastPlain := -4
    plainLimit := 16
    wholeEnd := ".0"
    exponentWidth := 2
    nan := "nan"
    infinity := "inf" }

/-- Decimal digits without the zeros at their end, and the exponent to go with them. -/
def trimZeros (digits : List Char) (exponent : Int) : List Char × Int :=
  let kept := Text.stripRight (· == '0') digits
  (kept, exponent + (digits.length - kept.length))

/-- An exponent with its sign, filled up with zeros. -/
def Style.exponentText (s : Style) (e : Int) : List Char :=
  let digits := Nat.toDigits 10 e.natAbs
  (if e < 0 then '-' else '+') :: (List.replicate (s.exponentWidth - digits.length) '0' ++ digits)

/-- The text of the digits `ds` times `10 ^ k`. -/
def Style.layout (s : Style) (ds : List Char) (k : Int) : List Char :=
  let point := (ds.length : Int) + k
  let leading := point - 1
  if s.leastPlain ≤ leading && leading < s.plainLimit then
    if point ≤ 0 then '0' :: '.' :: (List.replicate (-point).toNat '0' ++ ds)
    else if (ds.length : Int) ≤ point then
      ds ++ List.replicate k.toNat '0' ++ s.wholeEnd.toList
    else ds.take point.toNat ++ '.' :: ds.drop point.toNat
  else
    ds.take 1 ++ (if ds.length ≤ 1 then [] else '.' :: ds.drop 1) ++ 'e' :: s.exponentText leading

def Style.text (s : Style) : Reading → String
  | .nan => s.nan
  | .infinite negative => (if negative then "-" else "") ++ s.infinity
  | .finite negative m e lowest =>
    let size :=
      if m = 0 then '0' :: s.wholeEnd.toList
      else
        let (d, k) := shortest m e lowest
        let (ds, k) := trimZeros (Nat.toDigits 10 d) k
        s.layout ds k
    String.ofList (if negative then '-' :: size else size)

def text (x : Float) : String :=
  style.text (read x)

/-- The number `±m * 10 ^ e`, rounded. Exponents far outside the range of numbers are settled
without computing the power. -/
def ofDecimal (negative : Bool) (m : Nat) (e : Int) : Float :=
  let size : Float :=
    if m = 0 then 0
    else if 400 < e + digitCount m then 1 / 0
    else if e + digitCount m < -400 then 0
    else if 0 ≤ e then Float.ofScientific (m * Nat.pow 10 e.toNat) false 0
    else Float.ofScientific m true e.natAbs
  if negative then -size else size

/-- The ASCII form of a text: digits of every script become ASCII digits. -/
def asciiDigits (cs : List Char) : List Char :=
  cs.map fun c => ((Text.digitValue? c).map Nat.digitChar).getD c

/-- A run of digits in which single underscores may stand between digits, without them. -/
def dropUnderscores (cs : List Char) : Option (List Char) :=
  match cs with
  | [] => some []
  | '_' :: _ => none
  | c :: '_' :: d :: rest =>
    if Text.isAsciiDigit c && Text.isAsciiDigit d then (dropUnderscores (d :: rest)).map (c :: ·)
    else none
  | c :: rest => (dropUnderscores rest).map (c :: ·)

/-- Mantissa digits, a point and more digits: all digits and the number of those after the
point. At least one digit is needed. -/
def readMantissa? (cs : List Char) : Option (Nat × Nat × List Char) :=
  let whole := cs.takeWhile Text.isAsciiDigit
  let rest := cs.dropWhile Text.isAsciiDigit
  let (fraction, rest) :=
    match rest with
    | '.' :: more => (more.takeWhile Text.isAsciiDigit, more.dropWhile Text.isAsciiDigit)
    | _ => ([], rest)
  if whole.isEmpty && fraction.isEmpty then none
  else some (Text.asciiNumber (whole ++ fraction), fraction.length, rest)

/-- A written exponent, or none at the end of the text. -/
def readExponent? : List Char → Option Int
  | [] => some 0
  | c :: cs =>
    if c = 'e' ∨ c = 'E' then
      let (negative, ds) := Text.takeSign cs
      if ds.isEmpty || !ds.all Text.isAsciiDigit then none
      else
        let n : Int := Text.asciiNumber ds
        some (if negative then -n else n)
    else none

/-- The words for what is not finite, in lower case. -/
def infinityWords : List String :=
  ["inf", "infinity"]

/-- The blanks that may stand around a number: those of ASCII without the information separators,
and all others. -/
def isOuterBlank (c : Char) : Bool :=
  if c.toNat < 128 then c == ' ' || (9 ≤ c.toNat && c.toNat ≤ 13) else Text.isBlank c

def readText? (s : String) : Option Float := do
  let cs := asciiDigits (Text.stripBoth isOuterBlank s.toList)
  let (negative, body) := Text.takeSign cs
  let word := String.ofList (body.map Char.toLower)
  if infinityWords.contains word then
    return if negative then -(1 / 0) else 1 / 0
  if word == "nan" then
    return 0 / 0
  let body ← dropUnderscores body
  let (m, places, rest) ← readMantissa? body
  let e ← readExponent? rest
  return ofDecimal negative m (e - places)

end Ontogram.Decimal
