import PlanArchive.Hex

/-!
# Entity identifiers

An identifier is a number of 128 bits. It has one canonical text, thirty-two lower-case digits in
five groups joined by hyphens, and several accepted spellings: digits of either case, with or
without hyphens, and the hyphenated form in braces or behind the URN scheme.
-/

namespace PlanArchive

/-- A 128-bit identifier. -/
structure Uuid where
  /-- The identifier as a number. -/
  value : Nat
  /-- It fits into 128 bits. -/
  value_lt : value < 0x100000000000000000000000000000000
deriving DecidableEq, Repr

namespace Uuid

/-- The identifier that stands for "none". -/
def nil : Uuid := ⟨0, by decide⟩

instance : Inhabited Uuid := ⟨nil⟩

/-- Whether an identifier is the nil one. -/
def isNil (id : Uuid) : Bool := id.value == 0

/-- How many digits stand between the hyphens. -/
def groupWidths : List Nat := [8, 4, 4, 4, 12]

/-- Joins digits into groups of the given widths with a hyphen between two groups. -/
def joinGroups : List Nat → List Char → List Char
  | [], digits => digits
  | [_], digits => digits
  | width :: widths, digits =>
    digits.take width ++ '-' :: joinGroups widths (digits.drop width)

/-- Takes the hyphens out of a grouped text; `none` when a group has another width. -/
def splitGroups? : List Nat → List Char → Option (List Char)
  | [], chars => if chars.isEmpty then some [] else none
  | [width], chars => if chars.length = width then some chars else none
  | width :: widths, chars =>
    match chars.drop width with
    | '-' :: rest => (splitGroups? widths rest).map (chars.take width ++ ·)
    | _ => none

/-- The characters of the canonical text. -/
def toChars (id : Uuid) : List Char := joinGroups groupWidths (Hex.fixed 32 id.value)

/-- The canonical text. -/
def toText (id : Uuid) : String := String.ofList id.toChars

instance : ToString Uuid := ⟨toText⟩

/-- The identifier that thirty-two digits denote. -/
def ofDigits? (digits : List Char) : Option Uuid := do
  guard (digits.length = 32)
  let n ← Hex.read? digits
  if h : n < 0x100000000000000000000000000000000 then some ⟨n, h⟩ else none

/-- Reads the grouped spelling. -/
def ofGrouped? (chars : List Char) : Option Uuid := do
  ofDigits? (← splitGroups? groupWidths chars)

/-- The scheme that may stand before a grouped spelling, compared without regard to case. -/
def urnScheme : List Char := "urn:uuid:".toList

/-- Reads any accepted spelling, given as characters. -/
def ofChars? (chars : List Char) : Option Uuid :=
  if chars.length = 32 then ofDigits? chars
  else if chars.length = 36 then ofGrouped? chars
  else if chars.length = 38 then
    match chars with
    | '{' :: rest => if rest.getLast? = some '}' then ofGrouped? rest.dropLast else none
    | _ => none
  else if chars.length = 45 then
    if (chars.take 9).map Char.toLower = urnScheme then ofGrouped? (chars.drop 9) else none
  else none

/-- Reads any accepted spelling. -/
def parse? (s : String) : Option Uuid := ofChars? s.toList

end Uuid

end PlanArchive
