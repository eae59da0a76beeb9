import JoinPlan.Text.Digits

/-!
# Timestamps

An instant of time, read from a date and time with an offset (the profile of
RFC 3339) or from milliseconds since 1970, and written in UTC to the millisecond.

Days are counted in the proleptic Gregorian calendar. Seconds are counted as if
there were no leap seconds; an instant inside one keeps the second before it and
has `nanos` of a thousand million or more, and is written with second `60`.
-/

namespace JoinPlan

/-- An instant: seconds since 1970-01-01T00:00:00Z, and nanoseconds after them. -/
structure Timestamp where
  seconds : Int
  nanos : Nat
deriving DecidableEq, Repr

namespace Timestamp

/-- The nanoseconds of a second. -/
def nanosPerSecond : Nat := 1000000000

/-- The nanoseconds of a millisecond. -/
def nanosPerMilli : Nat := 1000000

/-! ## The calendar -/

/-- A day of the calendar. -/
structure Date where
  year : Int
  month : Nat
  day : Nat
deriving DecidableEq, Repr

/-- Whether a year has a 29th of February. -/
def isLeapYear (year : Int) : Bool :=
  year % 4 == 0 && (year % 100 != 0 || year % 400 == 0)

/-- The number of days of a month, counted from `1`; other months have none. -/
def daysInMonth (year : Int) : Nat → Nat
  | 2 => if isLeapYear year then 29 else 28
  | 4 | 6 | 9 | 11 => 30
  | 1 | 3 | 5 | 7 | 8 | 10 | 12 => 31
  | _ => 0

/-- Whether the calendar has the day. -/
def Date.isValid (date : Date) : Bool :=
  1 ≤ date.day && date.day ≤ daysInMonth date.year date.month

/-- The days from 1970-01-01 to a date. Years are taken to begin in March, so that
the leap day is the last of its year, and are counted in cycles of 400. -/
def Date.toDays (date : Date) : Int :=
  let year := if date.month ≤ 2 then date.year - 1 else date.year
  let cycle := year / 400
  let yearOfCycle := year - cycle * 400
  let month : Int := ((date.month + 9) % 12 : Nat)
  let dayOfYear := (153 * month + 2) / 5 + date.day - 1
  let dayOfCycle := yearOfCycle * 365 + yearOfCycle / 4 - yearOfCycle / 100 + dayOfYear
  cycle * 146097 + dayOfCycle - 719468

/-- The date a number of days after 1970-01-01. -/
def Date.ofDays (days : Int) : Date :=
  let days := days + 719468
  let cycle := days / 146097
  let dayOfCycle := days - cycle * 146097
  let yearOfCycle :=
    (dayOfCycle - dayOfCycle / 1460 + dayOfCycle / 36524 - dayOfCycle / 146096) / 365
  let dayOfYear := dayOfCycle - (365 * yearOfCycle + yearOfCycle / 4 - yearOfCycle / 100)
  let month := (5 * dayOfYear + 2) / 153
  let day := dayOfYear - (153 * month + 2) / 5 + 1
  let civilMonth := if month < 10 then month + 3 else month - 9
  let year := yearOfCycle + cycle * 400 + (if civilMonth ≤ 2 then 1 else 0)
  ⟨year, civilMonth.toNat, day.toNat⟩

/-! ## Reading -/

/-- A number of exactly this many digits at the start of the text. -/
def readFixed (width : Nat) (cs : List Char) : Option (Nat × List Char) := do
  let digits := cs.take width
  if digits.length = width then
    let n ← Text.natural? digits
    return (n, cs.drop width)
  else none

/-- A character that must stand at the start of the text. -/
def expect (accepted : List Char) : List Char → Option (List Char)
  | c :: rest => if accepted.contains c then some rest else none
  | [] => none

/-- The nanoseconds after a point; digits after the ninth do not count. -/
def readNanos : List Char → Option (Nat × List Char)
  | '.' :: rest =>
    match rest.takeWhile Char.isDigit with
    | [] => none
    | digits =>
      let kept := digits.take 9
      some (Nat.ofDigitChars 10 kept 0 * Nat.pow 10 (9 - kept.length), rest.dropWhile Char.isDigit)
  | cs => some (0, cs)

/-- The offset from UTC in minutes: `Z`, or a sign, hours, a colon and minutes.
The minus may be the sign U+2212. It must end the text. -/
def readOffset : List Char → Option Int
  | ['Z'] | ['z'] => some 0
  | sign :: rest => do
    let negative ← if sign = '+' then some false
      else if sign = '-' ∨ sign = '−' then some true
      else none
    let (hours, rest) ← readFixed 2 rest
    let rest ← expect [':'] rest
    let (minutes, rest) ← readFixed 2 rest
    if rest.isEmpty ∧ hours ≤ 23 ∧ minutes ≤ 59 then
      let size : Int := (hours * 60 + minutes : Nat)
      return if negative then -size else size
    else none
  | [] => none

/-- A date and time with its offset. A small letter or a blank may stand between
date and time; second `60` is allowed at the end of any minute. -/
def ofDateTime? (text : String) : Option Timestamp := do
  let (year, cs) ← readFixed 4 text.toList
  let cs ← expect ['-'] cs
  let (month, cs) ← readFixed 2 cs
  let cs ← expect ['-'] cs
  let (day, cs) ← readFixed 2 cs
  let cs ← expect ['T', 't', ' '] cs
  let (hour, cs) ← readFixed 2 cs
  let cs ← expect [':'] cs
  let (minute, cs) ← readFixed 2 cs
  let cs ← expect [':'] cs
  let (second, cs) ← readFixed 2 cs
  let (nanos, cs) ← readNanos cs
  let offset ← readOffset cs
  let date : Date := ⟨year, month, day⟩
  if date.isValid ∧ hour ≤ 23 ∧ minute ≤ 59 ∧ second ≤ 60 then
    let leap := if second = 60 then 1 else 0
    let time : Int := (hour * 3600 + minute * 60 + (second - leap) : Nat)
    return ⟨date.toDays * 86400 + time - offset * 60, nanos + leap * nanosPerSecond⟩
  else none

/-- The first and the last day that milliseconds may fall on: the years from
`-262143` to `262142`. -/
def dayRange : Int × Int :=
  (Date.toDays ⟨-262143, 1, 1⟩, Date.toDays ⟨262142, 12, 31⟩)

/-- The instant a number of milliseconds after 1970. -/
def ofMillis? (millis : Int) : Option Timestamp :=
  let seconds := millis / 1000
  let day := seconds / 86400
  if dayRange.1 ≤ day ∧ day ≤ dayRange.2 then
    some ⟨seconds, (millis % 1000).toNat * nanosPerMilli⟩
  else none

/-! ## Writing -/

/-- A year: four digits, or a sign and at least four digits outside `0` to `9999`. -/
def yearText (year : Int) : List Char :=
  if 0 ≤ year ∧ year ≤ 9999 then Text.padded 4 year.toNat
  else (if year < 0 then '-' else '+') :: Text.padded 4 year.natAbs

/-- The instant in UTC, cut to the millisecond. -/
def text (t : Timestamp) : String :=
  let date := Date.ofDays (t.seconds / 86400)
  let time := (t.seconds % 86400).toNat
  let second := time % 60 + t.nanos / nanosPerSecond
  let millis := t.nanos % nanosPerSecond / nanosPerMilli
  String.ofList <|
    yearText date.year ++ '-' :: Text.padded 2 date.month ++ '-' :: Text.padded 2 date.day
      ++ 'T' :: Text.padded 2 (time / 3600) ++ ':' :: Text.padded 2 (time / 60 % 60)
      ++ ':' :: Text.padded 2 second ++ '.' :: Text.padded 3 millis ++ ['Z']

end Timestamp

end JoinPlan
