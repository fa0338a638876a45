import Ontogram.Decimal
import Ontogram.Text.Basic
import Ontogram.Yaml.Fault
import Ontogram.Yaml.Tag

set_option autoImplicit false

namespace Ontogram.Yaml

/-- The value of a digit in a base up to sixteen. -/
def digitIn? (base : Nat) (c : Char) : Option Nat :=
  let value? : Option Nat :=
    if '0' ≤ c && c ≤ '9' then some (c.toNat - '0'.toNat)
    else if 'a' ≤ c && c ≤ 'f' then some (c.toNat - 'a'.toNat + 10)
    else if 'A' ≤ c && c ≤ 'F' then some (c.toNat - 'A'.toNat + 10)
    else none
  value?.filter (· < base)

/-- The letters that may follow a zero in front of digits of a base. -/
def baseMarks (base : Nat) : List Char :=
  if base = 2 then ['b', 'B'] else if base = 8 then ['o', 'O'] else if base = 16 then ['x', 'X']
  else []

def withoutMark (base : Nat) (cs : List Char) : List Char :=
  match cs with
  | '0' :: c :: ds => if (baseMarks base).contains c then ds else cs
  | _ => cs

/-- The whole number that a text in some base writes, with blanks around it and a sign. -/
def integerIn (base : Nat) (cs : List Char) : Except Fault Int :=
  let body := Decimal.asciiDigits (Text.stripBoth Decimal.isOuterBlank cs)
  let (negative, ds) := Text.takeSign body
  let ds := withoutMark base ds
  match ds.mapM (digitIn? base) with
  | some values =>
    if values.isEmpty then .error (.badInteger base (String.ofList cs))
    else
      let n := values.foldl (fun n d => n * base + d) 0
      .ok (if negative then -(n : Int) else n)
  | none => .error (.badInteger base (String.ofList cs))

/-- The whole number that a text without underscores and a sign writes. -/
def unsigned : List Char → Except Fault Int
  | [] => .error .emptyNumber
  | ['0'] => .ok 0
  | '0' :: 'b' :: ds => integerIn 2 ds
  | '0' :: 'x' :: ds => integerIn 16 ds
  | '0' :: ds => integerIn 8 ('0' :: ds)
  | cs => do
    let places ← (colonParts cs).mapM (integerIn 10)
    return places.foldl (fun n p => n * 60 + p) 0

/-- The whole number of a text. -/
def integerOf (cs : List Char) : Except Fault Int :=
  let cs := cs.filter (· ≠ '_')
  if cs.isEmpty then .error .emptyNumber
  else
    let (negative, body) := Text.takeSign cs
    (unsigned body).map fun n => if negative then -n else n

/-- The number with a point that a text writes. -/
def realIn (cs : List Char) : Except Fault Float :=
  match Decimal.readText? (String.ofList cs) with
  | some x => .ok x
  | none => .error (.badReal (String.ofList cs))

/-- The sum of places in base sixty, the last of them first. -/
def sixtySum (unit : Nat) (sum : Float) : List Float → Except Fault Float
  | [] => .ok sum
  | x :: xs =>
    if 1024 ≤ unit.log2 then .error .farPlace
    else sixtySum (unit * 60) (sum + x * Decimal.ofDecimal false unit 0) xs

/-- The number of a text. -/
def realOf (cs : List Char) : Except Fault Float :=
  let cs := Text.lowerOf (cs.filter (· ≠ '_'))
  if cs.isEmpty then .error .emptyNumber
  else
    let (negative, body) := Text.takeSign cs
    let size : Except Fault Float :=
      if body = ".inf".toList then .ok (1 / 0)
      else if body = ".nan".toList then .ok (0 / 0)
      else if body.contains ':' then do
        let places ← (colonParts body).mapM realIn
        sixtySum 1 0 places.reverse
      else realIn body
    size.map fun x => if negative then -x else x

/-- The characters of the digits, in order. -/
def octetAlphabet : List Char :=
  "ABCDEFGHIJKLMNOPQRSTUVWXYZabcdefghijklmnopqrstuvwxyz0123456789+/".toList

/-- The value of a character. -/
def octetDigit? (c : Char) : Option Nat :=
  octetAlphabet.findIdx? (· == c)

/-- The octets of the digits of one group that is complete or the last one. -/
def groupOctets : List Nat → List UInt8
  | [a, b] => [UInt8.ofNat (a * 4 + b / 16)]
  | [a, b, c] => [UInt8.ofNat (a * 4 + b / 16), UInt8.ofNat (b % 16 * 16 + c / 4)]
  | [a, b, c, d] =>
    [UInt8.ofNat (a * 4 + b / 16), UInt8.ofNat (b % 16 * 16 + c / 4), UInt8.ofNat (c % 4 * 64 + d)]
  | _ => []

/-- The octets of a text behind the digits of an open group, the last of which are followed by so
many equality signs. -/
def octetsFrom (group : List Nat) (signs : Nat) : List Char → Option (List UInt8)
  | [] => if group.isEmpty then some [] else none
  | c :: cs =>
    if c = '=' then
      if 2 ≤ group.length then
        if 4 ≤ group.length + signs + 1 then some (groupOctets group)
        else octetsFrom group (signs + 1) cs
      else octetsFrom group signs cs
    else
      match octetDigit? c with
      | none => octetsFrom group signs cs
      | some d =>
        let group := group ++ [d]
        if group.length = 4 then (octetsFrom [] 0 cs).map (groupOctets group ++ ·)
        else octetsFrom group 0 cs

/-- The octets that a text of ASCII writes. -/
def octetsOf (cs : List Char) : Option (List UInt8) :=
  if cs.all fun c => c.toNat < 128 then octetsFrom [] 0 cs else none

end Ontogram.Yaml
