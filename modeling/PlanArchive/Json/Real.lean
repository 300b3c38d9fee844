/-!
# Numbers with a fraction or an exponent

A JSON number that is no integer in range is kept as a binary number with a significand of 53 bits.
There is rounding to the nearest such number, ties going to the even significand, and products and
quotients with that rounding; nothing else is computed with these numbers.

A decimal in a JSON text is read in several roundings and not in one: its digits give a first
number, which is then multiplied or divided by a power of ten that was rounded itself. The outcome
may be a neighbour of the nearest number, and a decimal that is almost too large may turn out too
large. `nearestDecimal?` is the reading in one rounding.
-/

namespace PlanArchive.Json

/-- A binary floating-point number: the significand times a power of two. A zero has a sign and the
exponent zero, and a number that is not tiny has a significand of exactly 53 bits, so that no
number has two forms. -/
structure Real where
  negative : Bool
  significand : Nat
  exponent : Int
deriving DecidableEq, Repr

namespace Real

/-- A zero with a sign. -/
def zero (negative : Bool) : Real := ⟨negative, 0, 0⟩

/-- Whether a number is a zero of either sign. -/
def isZero (r : Real) : Bool := r.significand == 0

/-- The number, but for a zero the one without a sign: zeros of either sign are equal numbers. -/
def unsignedZero (r : Real) : Real := if r.isZero then zero false else r

/-- The smallest power of two that a significand is multiplied with. -/
def leastExponent : Int := -1074

/-- The largest power of two that a significand is multiplied with. -/
def largestExponent : Int := 971

/-- The least significand of 53 bits. -/
def leastNormal : Nat := 0x10000000000000

/-! ## Rounding -/

/-- The quotient rounded to the nearest number, a half going to the even one. -/
def roundedQuotient (num den : Nat) : Nat :=
  let quotient := num / den
  let twice := 2 * (num % den)
  if twice < den then quotient
  else if den < twice then quotient + 1
  else quotient + quotient % 2

/-- The fraction `num / den` divided by a power of two, as a fraction. -/
def scaled (num den : Nat) (exponent : Int) : Nat × Nat :=
  if 0 ≤ exponent then (num, den <<< exponent.toNat) else (num <<< exponent.natAbs, den)

/-- The exponent at which `num / den` has a whole part of 53 bits, or the least one. -/
def fittingExponent (num den : Nat) : Int :=
  let guess : Int := (Nat.log2 num : Int) - (Nat.log2 den : Int) - 52
  let (n, d) := scaled num den guess
  max leastExponent (if n / d < leastNormal then guess - 1 else guess)

/-- The number nearest to a fraction; `none` when it is too large. -/
def nearest? (negative : Bool) (num den : Nat) : Option Real :=
  let exponent := fittingExponent num den
  let (n, d) := scaled num den exponent
  let rounded := roundedQuotient n d
  let (significand, exponent) :=
    if rounded = 2 * leastNormal then (leastNormal, exponent + 1) else (rounded, exponent)
  if significand = 0 then some (zero negative)
  else if largestExponent < exponent then none
  else some ⟨negative, significand, exponent⟩

/-- The number nearest to a decimal; `none` when it is too large. Decimals far beyond the range are
decided by their order of magnitude alone. -/
def nearestDecimal? (negative : Bool) (digits : Nat) (power : Int) : Option Real :=
  if digits = 0 then some (zero negative)
  else
    let magnitude : Int := power + (Nat.toDigits 10 digits).length
    if 400 < magnitude then none
    else if magnitude < -400 then some (zero negative)
    else if 0 ≤ power then nearest? negative (digits * Nat.pow 10 power.toNat) 1
    else nearest? negative digits (Nat.pow 10 power.natAbs)

/-! ## Products and quotients -/

/-- The absolute value as a fraction. -/
def ratio (r : Real) : Nat × Nat :=
  if 0 ≤ r.exponent then (r.significand <<< r.exponent.toNat, 1)
  else (r.significand, 1 <<< r.exponent.natAbs)

/-- The number nearest to a product; `none` when it is too large. -/
def product? (a b : Real) : Option Real :=
  let (m, c) := a.ratio
  let (n, d) := b.ratio
  nearest? (a.negative != b.negative) (m * n) (c * d)

/-- The number nearest to a quotient; `none` when it is too large. -/
def quotient? (a b : Real) : Option Real :=
  let (m, c) := a.ratio
  let (n, d) := b.ratio
  nearest? (a.negative != b.negative) (m * d) (c * n)

/-! ## Decimals -/

/-- The largest power of ten that is no larger than the largest number. -/
def largestPower : Nat := 308

/-- The number nearest to a power of ten. -/
def tenPower? (power : Nat) : Option Real := nearest? false (Nat.pow 10 power) 1

/-- The number times a power of ten. -/
def raised? (r : Real) (power : Nat) : Option Real :=
  if r.isZero then some r
  else if power ≤ largestPower then (tenPower? power).bind r.product?
  else none

/-- The number divided by a power of ten, in several steps if the power is too large for one. -/
def lowered? (r : Real) (power : Nat) : Option Real :=
  if r.isZero then some r
  else if power ≤ largestPower then (tenPower? power).bind r.quotient?
  else
    (tenPower? largestPower).bind fun tenPower =>
      (r.quotient? tenPower).bind fun r => lowered? r (power - largestPower)
termination_by power
decreasing_by
  have positive : 0 < largestPower := by decide
  omega

/-- The number that a decimal is read as: the number nearest to its digits, times a power of ten or
divided by one; `none` when it is too large. -/
def ofDecimal? (negative : Bool) (digits : Nat) (power : Int) : Option Real := do
  let r ← nearest? negative digits 1
  if 0 ≤ power then r.raised? power.toNat else r.lowered? power.natAbs

end Real

end PlanArchive.Json
