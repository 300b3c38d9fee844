import PlanArchive.Time.Instant

/-!
# Lengths of time

A length of time that cannot be negative: whole seconds and a fraction in nanoseconds.
-/

namespace PlanArchive

/-- A length of time. -/
@[ext]
structure Span where
  seconds : Nat
  nanos : Nat
  /-- The fraction is less than a second. -/
  nanos_lt : nanos < 1000000000
deriving Repr

namespace Span

instance : DecidableEq Span := fun _ _ => decidable_of_iff _ Span.ext_iff.symm

/-- No time at all. -/
def zero : Span := ⟨0, 0, by decide⟩

instance : Inhabited Span := ⟨zero⟩

/-- The length in nanoseconds. -/
def toNanos (d : Span) : Nat := d.seconds * 1000000000 + d.nanos

/-- The length of a number of nanoseconds. -/
def ofNanos (n : Nat) : Span where
  seconds := n / 1000000000
  nanos := n % 1000000000
  nanos_lt := Nat.mod_lt _ (by decide)

/-- The length with these parts; `none` when the fraction is a second or more, or when the seconds
do not fit into 64 bits. -/
def ofParts? (seconds nanos : Nat) : Option Span :=
  if h : nanos < 1000000000 then
    if seconds < UInt64.size then some ⟨seconds, nanos, h⟩ else none
  else none

/-- The fraction without the zeros at its end. -/
def fractionDigits (nanos : Nat) : List Char :=
  let digits := Nat.toDigits 10 nanos
  (List.replicate (9 - digits.length) '0' ++ digits).reverse.dropWhile (· == '0') |>.reverse

/-- A length of at least a second in decimal seconds, followed by the unit. -/
def toText (d : Span) : String :=
  let fraction := if d.nanos = 0 then "" else "." ++ String.ofList (fractionDigits d.nanos)
  toString d.seconds ++ fraction ++ "s"

end Span

end PlanArchive
