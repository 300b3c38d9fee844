import PlanArchive.Json.Real

/-!
# The shortest decimal of a number

The decimal with the fewest digits among those that no other number is nearer to. The reals nearest
to a number make an interval, from halfway to the neighbour below to halfway to the one above, the
ends included when the significand is even. For a growing count of digits the two decimals around
the number are tried; of two in the interval the nearer one is taken, and of two equally near ones
the one with the even last digit. How such a decimal is laid out is decided where it is written.
-/

namespace PlanArchive.Json.Real

/-- A decimal without a sign: digits times a power of ten. -/
structure Decimal where
  digits : Nat
  power : Int
deriving DecidableEq, Repr

namespace Decimal

/-- Compares a decimal with `n` times a power of two. -/
def compareBinary (d : Decimal) (n : Nat) (exponent : Int) : Ordering :=
  compare ((d.digits * Nat.pow 10 d.power.toNat) <<< (-exponent).toNat)
    ((n * Nat.pow 10 (-d.power).toNat) <<< exponent.toNat)

end Decimal

/-- Whether the neighbour below is half as far away as the one above. -/
def isNarrowBelow (r : Real) : Bool := r.significand == leastNormal && leastExponent < r.exponent

/-- Whether no other number is nearer to a decimal. The ends of the interval are whole at a quarter
of the last place of the significand. -/
def isNearestTo (r : Real) (d : Decimal) : Bool :=
  let least := 4 * r.significand - (if r.isNarrowBelow then 1 else 2)
  let isEven := r.significand % 2 == 0
  let below := d.compareBinary least (r.exponent - 2)
  let above := d.compareBinary (4 * r.significand + 2) (r.exponent - 2)
  (below == .gt || isEven && below == .eq) && (above == .lt || isEven && above == .eq)

/-- How many digits a natural number has. -/
def digitCount (n : Nat) : Nat := (Nat.toDigits 10 n).length

/-- The least power of ten above a number that is not zero. -/
def magnitude (r : Real) : Int :=
  let (num, den) := r.ratio
  if den ≤ num then digitCount (num / den)
  else
    let count := digitCount (den / num)
    if num * Nat.pow 10 (count - 1) = den then 2 - (count : Int) else 1 - (count : Int)

/-- The largest multiple of a power of ten that is not above a number. -/
def decimalBelow (r : Real) (power : Int) : Decimal :=
  let (num, den) := r.ratio
  ⟨num * Nat.pow 10 (-power).toNat / (den * Nat.pow 10 power.toNat), power⟩

/-- The decimal with at most `count` digits that is nearest to a number, if no other number is
nearer to it. -/
def withDigits? (r : Real) (count : Nat) : Option Decimal :=
  let below := r.decimalBelow (r.magnitude - count)
  let above : Decimal := { below with digits := below.digits + 1 }
  match r.isNearestTo below, r.isNearestTo above with
  | false, false => none
  | true, false => some below
  | false, true => some above
  | true, true =>
    let middle : Decimal := { below with digits := below.digits + above.digits }
    match middle.compareBinary r.significand (r.exponent + 1) with
    | .gt => some below
    | .lt => some above
    | .eq => some (if below.digits % 2 = 0 then below else above)

/-- The exact value of a number. -/
def toDecimal (r : Real) : Decimal :=
  if 0 ≤ r.exponent then ⟨r.significand <<< r.exponent.toNat, 0⟩
  else ⟨r.significand * Nat.pow 5 r.exponent.natAbs, r.exponent⟩

/-- How many digits always suffice. -/
def enoughDigits : Nat := 17

/-- The shortest decimal of a number. -/
def shortest (r : Real) : Decimal :=
  ((List.range enoughDigits).findSome? fun count => r.withDigits? (count + 1)).getD r.toDecimal

end PlanArchive.Json.Real
