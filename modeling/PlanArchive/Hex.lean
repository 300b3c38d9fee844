import PlanArchive.Text.Quoted

/-!
# Hexadecimal digits and bytes

Digits are written in lower case and read in either case. Byte strings are written two digits a
byte; reading names the first thing that is wrong. The fixed-width form of a number is the one that
identifiers use.
-/

namespace PlanArchive.Hex

/-- The digit for a value below sixteen. -/
def digit (n : Nat) : Char :=
  if n < 10 then Char.ofNat (48 + n) else Char.ofNat (87 + n)

/-- The value of a digit, in either case. -/
def value? (c : Char) : Option Nat :=
  if '0' ≤ c ∧ c ≤ '9' then some (c.toNat - 48)
  else if 'a' ≤ c ∧ c ≤ 'f' then some (c.toNat - 87)
  else if 'A' ≤ c ∧ c ≤ 'F' then some (c.toNat - 55)
  else none

/-- The last `width` digits of a number, leading zeros included. -/
def fixed : (width : Nat) → Nat → List Char
  | 0, _ => []
  | width + 1, n => fixed width (n / 16) ++ [digit (n % 16)]

/-- Reads digits onto a number that was read so far; `none` at anything that is no digit. -/
def readOnto? (n : Nat) : List Char → Option Nat
  | [] => some n
  | c :: rest => do readOnto? (n * 16 + (← value? c)) rest

/-- The number that a run of digits denotes. -/
def read? (digits : List Char) : Option Nat := readOnto? 0 digits

/-- Two digits for each byte. -/
def encode (bytes : List UInt8) : String :=
  String.ofList (bytes.flatMap fun b => [digit (b.toNat / 16), digit (b.toNat % 16)])

/-- Why a text is not the hexadecimal form of a byte string. -/
inductive Fault where
  /-- The number of bytes in the text is odd. -/
  | oddLength
  /-- The text holds a byte that is no digit; it is shown as the character with that code. -/
  | badDigit (char : Char) (position : Nat)
deriving DecidableEq, Repr

namespace Fault

/-- The wording of the fault. -/
def message : Fault → String
  | .oddLength => "Odd number of digits"
  | .badDigit char position => s!"Invalid character {Text.quotedChar char} at position {position}"

end Fault

/-- Reads pairs of digits given as bytes, counting positions from `position`. -/
def decodeFrom (position : Nat) : List UInt8 → Except Fault (List UInt8)
  | [] => .ok []
  | [_] => .error .oddLength
  | high :: low :: rest =>
    match value? (Char.ofNat high.toNat), value? (Char.ofNat low.toNat) with
    | none, _ => .error (.badDigit (Char.ofNat high.toNat) position)
    | some _, none => .error (.badDigit (Char.ofNat low.toNat) (position + 1))
    | some h, some l => do
      let tail ← decodeFrom (position + 2) rest
      return UInt8.ofNat (h * 16 + l) :: tail

/-- The bytes that a text denotes. An odd length is reported before any bad digit. -/
def decode (s : String) : Except Fault (List UInt8) :=
  let bytes := s.toUTF8.toList
  if bytes.length % 2 = 1 then .error .oddLength else decodeFrom 0 bytes

end PlanArchive.Hex
