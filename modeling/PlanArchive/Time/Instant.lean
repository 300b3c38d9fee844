/-!
# Points in time

A point in time is a whole number of seconds since the epoch and a fraction in nanoseconds. A leap
second has no number of its own. It belongs to the second that it follows, whose fraction then goes
on to almost two seconds, so that two different points in time can be equally far from the epoch.
This module also writes a point in time as a calendar date and a time of day, in the proleptic
Gregorian calendar and in universal time; nothing here knows how it is stored.
-/

namespace PlanArchive

/-- A point in time: `seconds` since the epoch, which may be negative, and `nanos` more. -/
structure Instant where
  seconds : Int
  nanos : Nat
  /-- The fraction is less than two seconds; from one second on it is within a leap second. -/
  nanos_lt : nanos < 2000000000
deriving DecidableEq, Repr

namespace Instant

/-- The distance from the epoch in nanoseconds. -/
def sinceEpoch (t : Instant) : Int := t.seconds * 1000000000 + t.nanos

/-- The point in time a number of nanoseconds away from the epoch, outside of leap seconds. -/
def ofNanos (n : Int) : Instant where
  seconds := n / 1000000000
  nanos := (n % 1000000000).toNat
  nanos_lt := by omega

/-- The first second of the calendar, the start of the year -262143. -/
def firstSecond : Int := -8334601228800

/-- The last second of the calendar, the end of the year 262142. -/
def lastSecond : Int := 8210266876799

/-- The point in time with these parts, if the calendar has it. It has leap seconds at the end of
every minute. -/
def ofParts? (seconds : Int) (nanos : Nat) : Option Instant :=
  if h : nanos < 2000000000 then
    if (firstSecond ≤ seconds ∧ seconds ≤ lastSecond) ∧ (nanos < 1000000000 ∨ seconds % 60 = 59)
    then some ⟨seconds, nanos, h⟩ else none
  else none

/-- A day of the calendar. -/
structure Date where
  year : Int
  month : Int
  day : Int
deriving DecidableEq, Repr

/-- The day a number of days after the epoch. Years run from March, so that a leap day ends its
year, and repeat every 400 years of 146097 days. -/
def Date.ofDays (days : Int) : Date :=
  let shifted := days + 719468
  let era := shifted / 146097
  let dayOfEra := shifted % 146097
  let yearOfEra :=
    (dayOfEra - dayOfEra / 1460 + dayOfEra / 36524 - dayOfEra / 146096) / 365
  let dayOfYear := dayOfEra - (365 * yearOfEra + yearOfEra / 4 - yearOfEra / 100)
  let marchMonth := (5 * dayOfYear + 2) / 153
  let month := if marchMonth < 10 then marchMonth + 3 else marchMonth - 9
  { year := yearOfEra + era * 400 + (if month ≤ 2 then 1 else 0)
    month := month
    day := dayOfYear - (153 * marchMonth + 2) / 5 + 1 }

/-- A number in decimal, filled up with zeros to at least `width` digits. -/
def padded (width : Nat) (n : Nat) : String :=
  let digits := Nat.toDigits 10 n
  String.ofList (List.replicate (width - digits.length) '0' ++ digits)

/-- A year of four digits or more; a sign stands before a year that four digits do not hold. -/
def yearText (year : Int) : String :=
  if 0 ≤ year ∧ year ≤ 9999 then padded 4 year.toNat
  else (if year < 0 then "-" else "+") ++ padded 4 year.natAbs

/-- Date and time of day to the second. A leap second that ends a minute is its second 60. -/
def clockText (t : Instant) : String :=
  let date := Date.ofDays (t.seconds / 86400)
  let second := (t.seconds % 86400).toNat
  let day := yearText date.year ++ "-" ++ padded 2 date.month.toNat ++ "-"
    ++ padded 2 date.day.toNat
  let time := padded 2 (second / 3600) ++ ":" ++ padded 2 (second / 60 % 60) ++ ":"
    ++ padded 2 (second % 60 + t.nanos / 1000000000)
  day ++ " " ++ time

/-- The fraction of the second in three, six or nine digits, whichever is exact; empty when there
is none. -/
def fractionText (nanos : Nat) : String :=
  if nanos = 0 then ""
  else if nanos % 1000000 = 0 then "." ++ padded 3 (nanos / 1000000)
  else if nanos % 1000 = 0 then "." ++ padded 6 (nanos / 1000)
  else "." ++ padded 9 nanos

/-- The whole point in time, in universal time. -/
def toText (t : Instant) : String :=
  t.clockText ++ fractionText (t.nanos % 1000000000) ++ " UTC"

/-- The point in time to the second, in universal time. -/
def toSecondsText (t : Instant) : String := t.clockText ++ " UTC"

end Instant

end PlanArchive
