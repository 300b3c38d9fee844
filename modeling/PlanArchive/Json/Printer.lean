import PlanArchive.Hex
import PlanArchive.Json.Basic
import PlanArchive.Json.Shortest

/-!
# Compact JSON text

Values are written without blanks, fields in the order in which the value has them. A string
escapes its quote, the backslash and the controls, and nothing else. A number that is no integer has
the digits of its shortest decimal. Every function here writes in front of a text that follows, so
that what a reader does with the rest can be stated.
-/

namespace PlanArchive.Json

/-- One character of a string, in front of `tail`. -/
def writeChar (c : Char) (tail : List Char) : List Char :=
  if c = '"' then '\\' :: '"' :: tail
  else if c = '\\' then '\\' :: '\\' :: tail
  else if c = '\x08' then '\\' :: 'b' :: tail
  else if c = '\x0c' then '\\' :: 'f' :: tail
  else if c = '\n' then '\\' :: 'n' :: tail
  else if c = '\r' then '\\' :: 'r' :: tail
  else if c = '\t' then '\\' :: 't' :: tail
  else if c.toNat < 0x20 then '\\' :: 'u' :: Hex.fixed 4 c.toNat ++ tail
  else c :: tail

/-- The characters of a string and its closing quote. -/
def writeChars : List Char → List Char → List Char
  | [], tail => '"' :: tail
  | c :: rest, tail => writeChar c (writeChars rest tail)

/-- A string with both quotes. -/
def writeString (s : String) (tail : List Char) : List Char := '"' :: writeChars s.toList tail

/-- An integer in decimal. -/
def writeInt (n : Int) (tail : List Char) : List Char :=
  if n < 0 then '-' :: (Nat.toDigits 10 n.natAbs ++ tail) else Nat.toDigits 10 n.natAbs ++ tail

/-- A power of ten behind the digits it scales. Both directions have their sign. -/
def writeExponent (n : Int) (tail : List Char) : List Char :=
  'e' :: (if n < 0 then '-' else '+') :: (Nat.toDigits 10 n.natAbs ++ tail)

/-- Digits with the decimal point after the first `point` of them, which may be before or behind all
of them. From a hundred-thousandth up and below ten to the sixteenth there is no exponent and always
a point, so that the number does not read back as an integer. -/
def layOut (digits : List Char) (point : Int) (tail : List Char) : List Char :=
  if digits.length ≤ point ∧ point ≤ 16 then
    digits ++ List.replicate (point.toNat - digits.length) '0' ++ '.' :: '0' :: tail
  else if 0 < point ∧ point ≤ 16 then
    digits.take point.toNat ++ '.' :: (digits.drop point.toNat ++ tail)
  else if -5 < point ∧ point ≤ 0 then
    '0' :: '.' :: (List.replicate point.natAbs '0' ++ digits ++ tail)
  else
    let exponent := writeExponent (point - 1) tail
    match digits with
    | first :: second :: rest => first :: '.' :: second :: (rest ++ exponent)
    | digits => digits ++ exponent

/-- The digits of a decimal without the zeros at their end, and where its point is. -/
def significantDigits (d : Real.Decimal) : List Char × Int :=
  let digits := Nat.toDigits 10 d.digits
  ((digits.reverse.dropWhile (· == '0')).reverse, digits.length + d.power)

/-- A number that is no integer. -/
def writeReal (r : Real) (tail : List Char) : List Char :=
  let (digits, point) := if r.isZero then (['0'], 1) else significantDigits r.shortest
  let text := layOut digits point tail
  if r.negative then '-' :: text else text

mutual

/-- A value in front of `tail`. -/
def write : Json → List Char → List Char
  | .null, tail => 'n' :: 'u' :: 'l' :: 'l' :: tail
  | .bool true, tail => 't' :: 'r' :: 'u' :: 'e' :: tail
  | .bool false, tail => 'f' :: 'a' :: 'l' :: 's' :: 'e' :: tail
  | .int n, tail => writeInt n tail
  | .real r, tail => writeReal r tail
  | .str s, tail => writeString s tail
  | .arr [], tail => '[' :: ']' :: tail
  | .arr (v :: rest), tail => '[' :: write v (writeItems rest tail)
  | .obj [], tail => '{' :: '}' :: tail
  | .obj ((k, v) :: rest), tail => '{' :: writeString k (':' :: write v (writeFields rest tail))

/-- The items after the first one and the closing bracket. -/
def writeItems : List Json → List Char → List Char
  | [], tail => ']' :: tail
  | v :: rest, tail => ',' :: write v (writeItems rest tail)

/-- The fields after the first one and the closing brace. -/
def writeFields : List (String × Json) → List Char → List Char
  | [], tail => '}' :: tail
  | (k, v) :: rest, tail => ',' :: writeString k (':' :: write v (writeFields rest tail))

end

/-- The compact text of a value. -/
def toText (v : Json) : String := String.ofList (v.write [])

mutual

/-- How many containers stand inside one another at the deepest place. -/
def nesting : Json → Nat
  | .arr items => nestingOfItems items + 1
  | .obj fields => nestingOfFields fields + 1
  | .null => 0
  | .bool _ => 0
  | .int _ => 0
  | .real _ => 0
  | .str _ => 0

/-- The deepest nesting among the items of an array. -/
def nestingOfItems : List Json → Nat
  | [] => 0
  | v :: rest => max (nesting v) (nestingOfItems rest)

/-- The deepest nesting among the values of an object. -/
def nestingOfFields : List (String × Json) → Nat
  | [] => 0
  | (_, v) :: rest => max (nesting v) (nestingOfFields rest)

end

end PlanArchive.Json
