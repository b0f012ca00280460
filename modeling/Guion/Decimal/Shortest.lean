/-
The fewest decimal digits that read back as a given binary64 number.

The reals that round to a number form an interval around it, closed when the
significand is even. For 1, 2, … 17 digits the two neighbours of the value on
that decimal grid are tested against the interval; the first grid with a hit
wins, of two hits the nearer one. Two hits can be equally near, and a
`Tie` says which is written. `Layout`s turn the digits into text.
-/
import Guion.Decimal.Fixed

namespace Guion.Decimal

/-- The choice between two equally near decimals. -/
inductive Tie where
  | toEven
  | awayFromZero
  deriving DecidableEq

/-- `coefficient * 10 ^ exponent`. -/
structure Coefficient where
  coefficient : Nat
  exponent : Int

/-- The interval of reals that round to a number, in quarters of a unit. -/
structure Interval where
  low : Nat
  value : Nat
  high : Nat
  closed : Bool

/-- The rounding interval of a canonical significand and power. The gap below
a power of two is half the gap above it. -/
def Interval.of (significand power : Nat) : Interval :=
  let below := if significand = Binary64.leastNormal ∧ 0 < power then 1 else 2
  let value := 4 * (significand <<< power)
  { low := value - below <<< power
    value := value
    high := value + 2 <<< power
    closed := significand % 2 == 0 }

/-- Whether `numerator / denominator` quarter units lie in the interval. -/
def Interval.contains (i : Interval) (numerator denominator : Nat) : Bool :=
  if i.closed then i.low * denominator ≤ numerator && numerator ≤ i.high * denominator
  else i.low * denominator < numerator && numerator < i.high * denominator

/-- The better of the two neighbours of the value on the grid of multiples of
`10 ^ weight`, among those in the interval. -/
def Interval.onGrid? (i : Interval) (tie : Tie) (weight : Int) : Option Nat :=
  let (numerator, denominator) := scaledBy i.value weight
  let denominator := 4 * denominator
  let floor := numerator / denominator
  let point (n : Nat) : Nat × Nat :=
    if 0 ≤ weight then (n * (4 * Binary64.unitsPerOne * Nat.pow 10 weight.toNat), 1)
    else (n * (4 * Binary64.unitsPerOne), Nat.pow 10 (-weight).toNat)
  let hit (n : Nat) : Bool := let (a, b) := point n; i.contains a b
  let rest := 2 * (numerator % denominator)
  match hit floor && floor != 0, hit (floor + 1) with
  | false, false => none
  | true, false => some floor
  | false, true => some (floor + 1)
  | true, true =>
    if rest < denominator then some floor
    else if denominator < rest then some (floor + 1)
    else match tie with
      | .awayFromZero => some (floor + 1)
      | .toEven => some (if floor % 2 = 0 then floor else floor + 1)

/-- The first hit on the grids with `count`, `count + 1`, … digits. -/
def Interval.search (i : Interval) (tie : Tie) (leading : Int) : Nat → Nat → Coefficient
  | 0, count => ⟨i.value / (4 * Binary64.unitsPerOne), leading + 1 - count⟩
  | fuel + 1, count =>
    let weight := leading + 1 - count
    match i.onGrid? tie weight with
    | some n => ⟨n, weight⟩
    | none => i.search tie leading fuel (count + 1)

/-- Moves the zeros at the end of a coefficient into its exponent. -/
def Coefficient.stripZeros : Nat → Coefficient → Coefficient
  | 0, c => c
  | fuel + 1, c =>
    if c.coefficient ≠ 0 ∧ c.coefficient % 10 = 0 then
      stripZeros fuel ⟨c.coefficient / 10, c.exponent + 1⟩
    else c

/-- The shortest decimal that reads back as the number with this significand,
not zero, and power. -/
def shortest (tie : Tie) (significand power : Nat) : Coefficient :=
  let i := Interval.of significand power
  (i.search tie (exponent10 (significand <<< power)) 17 1).stripZeros 20

/-! ## Layouts -/

/-- Positional text of a coefficient: never an exponent. -/
def Coefficient.positional (c : Coefficient) : List Char :=
  if 0 ≤ c.exponent then digits c.coefficient ++ List.replicate c.exponent.toNat '0'
  else withPoint (-c.exponent).toNat (digits c.coefficient)

/-- The exponent of the leading digit. -/
def Coefficient.leading (c : Coefficient) : Int := c.exponent + digitCount c.coefficient - 1

/-- One digit, the other digits after a point if there are any, and a signed
exponent. -/
def Coefficient.scientific (c : Coefficient) : List Char :=
  let text := digits c.coefficient
  let significand := if text.length = 1 then text else withPoint (text.length - 1) text
  let sign := if c.leading < 0 then '-' else '+'
  significand ++ 'e' :: sign :: digits c.leading.natAbs

end Guion.Decimal
