import PlanArchive.Json.Real
import PlanArchive.Toml.Basic
import PlanArchive.Toml.Text

/-!
# TOML numbers and points in time

What starts with a digit or a sign: a date with or without a time of day, a time of day, a number
with a fraction or an exponent, or an integer. They are tried in this order, and the first that
fits is taken. Digits may be grouped by single underscores. An integer has 64 bits.
-/

namespace PlanArchive.Toml.Reader

/-! ## Digits -/

/-- A run of digits with single underscores between them, without the underscores. -/
def digits (isDigit : Char → Bool) : Reader (List Char)
  | c :: '_' :: rest =>
    if isDigit c then do
      let (more, rest) ← digits isDigit rest
      some (c :: more, rest)
    else none
  | c :: rest =>
    if isDigit c then
      match rest with
      | d :: _ =>
        if isDigit d then do
          let (more, rest) ← digits isDigit rest
          some (c :: more, rest)
        else some ([c], rest)
      | [] => some ([c], [])
    else none
  | [] => none

/-- The number that a run of decimal digits denotes. -/
def ofDecimal (digits : List Char) : Nat := Nat.ofDigitChars 10 digits 0

/-- The sign of a number, when one is written; whether it is a minus. -/
def sign : List Char → Bool × List Char
  | '+' :: rest => (false, rest)
  | '-' :: rest => (true, rest)
  | text => (false, text)

/-- The decimal digits of a whole number: a zero alone, or a run that starts with another digit. -/
def whole : Reader (List Char)
  | '0' :: rest => some (['0'], rest)
  | text => digits Char.isDigit text

/-! ## Numbers -/

/-- An integer of 64 bits as a value. -/
def fitting? (n : Int) : Option Toml := (Json.toInt64? n).map fun _ => .integer n

/-- An integer in another base, after the mark of the base. -/
def based (base : Nat) (text : List Char) : Option (Toml × List Char) := do
  let below (c : Char) : Bool := (Hex.value? c).any (· < base)
  let (run, rest) ← digits below text
  let n := run.foldl (fun n c => n * base + (Hex.value? c).getD 0) 0
  some (← fitting? n, rest)

/-- An integer. -/
def integer : Reader Toml
  | '0' :: 'x' :: rest => based 16 rest
  | '0' :: 'o' :: rest => based 8 rest
  | '0' :: 'b' :: rest => based 2 rest
  | text => do
    let (negative, text) := sign text
    let (run, rest) ← whole text
    let n : Int := ofDecimal run
    some (← fitting? (if negative then -n else n), rest)

/-- The digits after a point. -/
def fraction : Reader (List Char)
  | '.' :: rest => digits Char.isDigit rest
  | _ => none

/-- A power of ten after its letter. -/
def exponent : Reader Int
  | c :: rest => do
    guard (c = 'e' ∨ c = 'E')
    let (negative, rest) := sign rest
    let (run, rest) ← digits Char.isDigit rest
    let n : Int := ofDecimal run
    some (if negative then -n else n, rest)
  | [] => none

/-- A number with a fraction or an exponent. A positive one that is too large is refused; a negative
one counts as infinite. -/
def decimal (text : List Char) : Option (Toml × List Char) := do
  let (negative, text) := sign text
  let (whole, text) ← whole text
  let (places, power, rest) ← match fraction text with
    | some (places, rest) =>
      match exponent rest with
      | some (power, rest) => some (places, power, rest)
      | none => some (places, 0, rest)
    | none => (exponent text).map fun (power, rest) => ([], power, rest)
  guard (negative ||
    (Json.Real.nearestDecimal? false (ofDecimal (whole ++ places)) (power - places.length)).isSome)
  some (.float, rest)

/-- Infinity and what is no number. -/
def special (text : List Char) : Option (Toml × List Char) :=
  match (sign text).2 with
  | 'i' :: 'n' :: 'f' :: rest => some (.float, rest)
  | 'n' :: 'a' :: 'n' :: rest => some (.float, rest)
  | _ => none

/-! ## Points in time -/

/-- Two digits that denote a number in a range. -/
def pair (least most : Nat) : Reader Nat
  | a :: b :: rest =>
    let n := ofDecimal [a, b]
    if a.isDigit && b.isDigit && least ≤ n && n ≤ most then some (n, rest) else none
  | _ => none

/-- One character that must be there. -/
def mark (c : Char) : Reader Unit
  | d :: rest => if d = c then some ((), rest) else none
  | [] => none

/-- How many days a month has. -/
def daysOf (year month : Nat) : Nat :=
  if month = 2 then
    if year % 4 = 0 ∧ (year % 100 ≠ 0 ∨ year % 400 = 0) then 29 else 28
  else if month ∈ [4, 6, 9, 11] then 30
  else 31

/-- A day of the calendar. -/
def date (text : List Char) : Option (Unit × List Char) := do
  let (century, text) ← pair 0 99 text
  let (year, text) ← pair 0 99 text
  let (_, text) ← mark '-' text
  let (month, text) ← pair 1 12 text
  let (_, text) ← mark '-' text
  let (_, rest) ← pair 1 (daysOf (century * 100 + year) month) text
  some ((), rest)

/-- The digits of a fraction of a second, if there are any. -/
def skipFraction : List Char → List Char
  | '.' :: c :: rest =>
    if c.isDigit then (c :: rest).dropWhile Char.isDigit else '.' :: c :: rest
  | text => text

/-- A time of day; a minute can have a leap second. -/
def time (text : List Char) : Option (Unit × List Char) := do
  let (_, text) ← pair 0 23 text
  let (_, text) ← mark ':' text
  let (_, text) ← pair 0 59 text
  let (_, text) ← mark ':' text
  let (_, rest) ← pair 0 60 text
  some ((), skipFraction rest)

/-- The offset of a time zone in hours and minutes, after its sign. -/
def offset (text : List Char) : Option (Unit × List Char) := do
  let (_, text) ← pair 0 23 text
  let (_, text) ← mark ':' text
  let (_, rest) ← pair 0 59 text
  some ((), rest)

/-- The text after a time zone at its start, if there is one. -/
def skipZone : List Char → List Char
  | c :: rest =>
    if c = 'Z' ∨ c = 'z' then rest
    else if c = '+' ∨ c = '-' then
      match offset rest with
      | some (_, rest) => rest
      | none => c :: rest
    else c :: rest
  | [] => []

/-- The text after a time of day with its time zone, if one follows a date. -/
def skipTime : List Char → List Char
  | c :: rest =>
    if c = 'T' ∨ c = 't' ∨ c = ' ' then
      match time rest with
      | some (_, rest) => skipZone rest
      | none => c :: rest
    else c :: rest
  | [] => []

/-- A date, a date with a time of day, or a time of day. -/
def moment (text : List Char) : Option (Toml × List Char) :=
  match date text with
  | some (_, rest) => some (.moment, skipTime rest)
  | none => (time text).map fun (_, rest) => (.moment, rest)

/-- A value that starts with a digit or a sign. -/
def numeric (text : List Char) : Option (Toml × List Char) :=
  moment text <|> decimal text <|> special text <|> integer text

end PlanArchive.Toml.Reader
