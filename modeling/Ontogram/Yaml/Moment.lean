import Ontogram.Text.Basic

set_option autoImplicit false

namespace Ontogram.Yaml

/-- A distance from the zero meridian. -/
structure Zone where
  west : Bool
  hours : Nat
  minutes : Nat

/-- A time of day. -/
structure DayTime where
  hour : Nat
  minute : Nat
  second : Nat
  /-- The distance from the zero meridian; none on it, and none for the time of a place. -/
  zone : Option Zone

/-- A day, or a moment of one. -/
structure Moment where
  year : Nat
  month : Nat
  day : Nat
  time : Option DayTime

/-- Why the calendar has no such moment. -/
inductive CalendarFault where
  | year (n : Nat)
  | month
  | day
  | hour
  | minute
  | second
  /-- A zone is a day away or more; the difference in minutes. -/
  | zone (minutes : Int)
deriving DecidableEq

namespace CalendarFault

/-- A difference in minutes, as whole days and the seconds above them. -/
def differenceText (minutes : Int) : String :=
  let days := Int.fdiv minutes 1440
  let seconds := (minutes - days * 1440) * 60
  let parts :=
    (if days == 0 then [] else ["days=" ++ toString days]) ++
      (if seconds == 0 then [] else ["seconds=" ++ toString seconds])
  "datetime.timedelta(" ++
    (if parts.isEmpty then "0" else String.intercalate ", " parts) ++ ")"

/-- The wording of a fault. -/
def message : CalendarFault → String
  | year n => "year " ++ toString n ++ " is out of range"
  | month => "month must be in 1..12"
  | day => "day is out of range for month"
  | hour => "hour must be in 0..23"
  | minute => "minute must be in 0..59"
  | second => "second must be in 0..59"
  | zone minutes =>
    "offset must be a timedelta strictly between -timedelta(hours=24) and timedelta(hours=24), not "
      ++ differenceText minutes ++ "."

end CalendarFault

namespace Moment

/-- A number of `low` to `high` digits, and the text behind it. -/
def digits? (low high : Nat) (cs : List Char) : Option (Nat × List Char) :=
  let ds := (cs.take high).takeWhile Text.isAsciiDigit
  if low ≤ ds.length then some (Text.asciiNumber ds, cs.drop ds.length) else none

def behind? (c : Char) : List Char → Option (List Char)
  | d :: cs => if d = c then some cs else none
  | [] => none

def isPartBlank (c : Char) : Bool :=
  c == ' ' || c == '\t'

/-- A distance from the zero meridian at the end of a text. -/
def zone? (cs : List Char) : Option (Option Zone) :=
  match cs.dropWhile isPartBlank with
  | [] => if cs.isEmpty then some none else none
  | ['Z'] => some none
  | c :: rest =>
    if c = '+' ∨ c = '-' then
      match digits? 1 2 rest with
      | some (hours, []) => some (some ⟨c == '-', hours, 0⟩)
      | some (hours, rest) =>
        match (behind? ':' rest).bind (digits? 2 2) with
        | some (minutes, []) => some (some ⟨c == '-', hours, minutes⟩)
        | _ => none
      | none => none
    else none

/-- A time of day at the end of a text. -/
def time? (cs : List Char) : Option DayTime := do
  let (hour, rest) ← digits? 1 2 cs
  let (minute, rest) ← digits? 2 2 (← behind? ':' rest)
  let (second, rest) ← digits? 2 2 (← behind? ':' rest)
  let rest :=
    match rest with
    | '.' :: more => more.dropWhile Text.isAsciiDigit
    | _ => rest
  return ⟨hour, minute, second, ← zone? rest⟩

/-- The moment that a text writes. -/
def read? (cs : List Char) : Option Moment := do
  let (year, rest) ← digits? 4 4 cs
  let (month, rest) ← digits? 1 2 (← behind? '-' rest)
  let (day, rest) ← digits? 1 2 (← behind? '-' rest)
  match rest with
  | [] => return ⟨year, month, day, none⟩
  | c :: more =>
    if c = 'T' ∨ c = 't' then return ⟨year, month, day, some (← time? more)⟩
    else if isPartBlank c then
      return ⟨year, month, day, some (← time? (more.dropWhile isPartBlank))⟩
    else none

def daysIn (year month : Nat) : Nat :=
  if month = 2 then
    if year % 4 = 0 ∧ (year % 100 ≠ 0 ∨ year % 400 = 0) then 29 else 28
  else if month = 4 ∨ month = 6 ∨ month = 9 ∨ month = 11 then 30
  else 31

def zoneFault? (t : DayTime) : Option CalendarFault :=
  t.zone.bind fun z =>
    let minutes := z.hours * 60 + z.minutes
    if minutes < 1440 then none
    else some (.zone (if z.west then -(minutes : Int) else minutes))

def dayFault? (m : Moment) : Option CalendarFault :=
  if m.year = 0 then some (.year m.year)
  else if m.month = 0 ∨ 12 < m.month then some .month
  else if m.day = 0 ∨ daysIn m.year m.month < m.day then some .day
  else none

def timeFault? (t : DayTime) : Option CalendarFault :=
  if 23 < t.hour then some .hour
  else if 59 < t.minute then some .minute
  else if 59 < t.second then some .second
  else none

/-- What the calendar has against a moment: the zone is asked first, then the day, then the time. -/
def fault? (m : Moment) : Option CalendarFault :=
  ((m.time.bind zoneFault?).or m.dayFault?).or (m.time.bind timeFault?)

end Moment

end Ontogram.Yaml
