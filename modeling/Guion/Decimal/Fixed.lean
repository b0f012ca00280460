/-
Writing a binary64 number with a given number of digits.

The value is an exact fraction, so both layouts round once: the quotient of
the value by the weight of its last digit, a tie to the even neighbour.
`fixed` fixes the digits after the point, `scientific` those of a significand
with one digit before the point. `exponent10` is the exact position of the
leading digit.
-/
import Guion.Binary64.Basic
import Guion.Decimal.Digits

namespace Guion.Decimal

/-- The nearest integer to `numerator / denominator`, a tie to the even one. -/
def roundDiv (numerator denominator : Nat) : Nat :=
  let floor := numerator / denominator
  let rest := 2 * (numerator % denominator)
  if denominator < rest ∨ (rest = denominator ∧ floor % 2 = 1) then floor + 1 else floor

/-- The least `j ≥ start` with `units * 10 ^ j` at least one whole, if it lies
within `fuel` steps. -/
def leastPower (units : Nat) : Nat → Nat → Nat
  | 0, j => j
  | fuel + 1, j =>
    if units * Nat.pow 10 j < Binary64.unitsPerOne then leastPower units fuel (j + 1) else j

/-- The exponent of the leading decimal digit of a positive number of units. -/
def exponent10 (units : Nat) : Int :=
  let whole := units / Binary64.unitsPerOne
  if 0 < whole then digitCount whole - 1
  else
    let start := (1073 - units.log2) * 30102 / 100000
    .negOfNat (leastPower units 8 start)

/-- `units / 10 ^ weight`, where the weight is the exponent of a decimal digit,
as a fraction. -/
def scaledBy (units : Nat) (weight : Int) : Nat × Nat :=
  if 0 ≤ weight then (units, Binary64.unitsPerOne * Nat.pow 10 weight.toNat)
  else (units * Nat.pow 10 (-weight).toNat, Binary64.unitsPerOne)

/-- Puts a point before the last `places` digits, a zero standing before it
when no digit is left. -/
def withPoint (places : Nat) (text : List Char) : List Char :=
  if places = 0 then text
  else
    let text := padZeros (places + 1) text
    text.take (text.length - places) ++ '.' :: text.drop (text.length - places)

/-- The text of the magnitude with exactly `places` digits after the point. -/
def fixedMagnitude (places units : Nat) : List Char :=
  withPoint places (digits (roundDiv (units * Nat.pow 10 places) Binary64.unitsPerOne))

/-- The significand and the exponent of a positive magnitude, with `places`
digits after the point of the significand. -/
def scientificMagnitude (places units : Nat) : List Char × Int :=
  let exponent := exponent10 units
  let (numerator, denominator) := scaledBy units (exponent - places)
  let rounded := roundDiv numerator denominator
  if rounded = Nat.pow 10 (places + 1) then (withPoint places (digits (rounded / 10)), exponent + 1)
  else (withPoint places (digits rounded), exponent)

/-- A finite number with exactly `places` digits after the point; the sign of
a negative zero is kept. -/
def fixed (places : Nat) (x : Binary64) : List Char :=
  match x with
  | .nan .. => ['N', 'a', 'N']
  | .infinite s => (if s then ['-'] else []) ++ ['i', 'n', 'f']
  | .finite s .. => (if s then ['-'] else []) ++ fixedMagnitude places x.magnitude

end Guion.Decimal
