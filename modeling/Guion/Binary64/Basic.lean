/-
Binary64 numbers as exact dyadic rationals.

A finite number is `± significand * 2 ^ power / 2 ^ 1074`: every finite
binary64 value is a whole number of units of `2 ^ -1074`, so sums, products
and comparisons are integer computations. `Canonical` picks one pair for
each value, and the constructor carries the proof, so two numbers are equal
exactly when they have the same encoding.

Everything inexact goes through `round`: it takes the exact magnitude as a
fraction of units and gives the nearest number, a tie to the even
significand, and an infinity from half a unit above the largest number.
`roundShifted` is `round` of a magnitude with a power of two apart, so that
numbers of about the same size are computed on small integers.
-/

namespace Guion

/-- The smallest significand that fills its 53 bits, `2 ^ 52`. -/
abbrev Binary64.leastNormal : Nat := 0x10_0000_0000_0000

/-- The pairs that name a value in exactly one way: the significand fills its
53 bits unless the power is the smallest one. -/
def Binary64.Canonical (significand power : Nat) : Prop :=
  significand < 2 * leastNormal ∧ (leastNormal ≤ significand ∨ power = 0) ∧ power ≤ 2045

instance (m p : Nat) : Decidable (Binary64.Canonical m p) :=
  inferInstanceAs (Decidable (_ ∧ _ ∧ _))

/-- A binary64 number. A NaN keeps its sign and whether it is quiet; arithmetic
gives quiet ones only. -/
inductive Binary64 where
  | finite (negative : Bool) (significand power : Nat)
      (canonical : Binary64.Canonical significand power)
  | infinite (negative : Bool)
  | nan (negative quiet : Bool)
  deriving DecidableEq

namespace Binary64

/-- The number of units `2 ^ -1074` in one. -/
def unitsPerOne : Nat := Nat.pow 2 1074

/-- Zero with the given sign. -/
def zero (negative : Bool) : Binary64 :=
  .finite negative 0 0 ⟨by decide, .inr rfl, by decide⟩

instance : Inhabited Binary64 := ⟨zero false⟩

/-- What an operation without a meaningful result returns. -/
def invalid : Binary64 := .nan true true

/-- The number of a significand and a power, an infinity when the power is
past the largest one. -/
def make (negative : Bool) (significand power : Nat) : Binary64 :=
  if h : Canonical significand power then .finite negative significand power h
  else .infinite negative

/-- `n * 2 ^ count`. -/
def shiftUp (n count : Nat) : Nat := if count = 0 then n else n <<< count

/-- The number with the given power whose significand is the nearest integer to
`scaled / unit`, a tie going to the even one. -/
def nearest (negative : Bool) (power scaled unit : Nat) : Binary64 :=
  let floor := scaled / unit
  let rest := 2 * (scaled % unit)
  let significand :=
    if unit < rest ∨ (rest = unit ∧ floor % 2 = 1) then floor + 1 else floor
  if significand = 2 * leastNormal then make negative leastNormal (power + 1)
  else make negative significand power

/-- The nearest number to `numerator / denominator` units. -/
def round (negative : Bool) (numerator denominator : Nat) : Binary64 :=
  let power := (numerator / denominator).log2 + 1 - 53
  nearest negative power numerator (shiftUp denominator power)

/-- The nearest number to `numerator / denominator * 2 ^ shift` units. -/
def roundShifted (negative : Bool) (shift numerator denominator : Nat) : Binary64 :=
  if numerator < denominator then round negative (shiftUp numerator shift) denominator
  else
    let power := (numerator / denominator).log2 + shift + 1 - 53
    nearest negative power (shiftUp numerator (shift - power))
      (shiftUp denominator (power - shift))

/-- `2 ^ exponent`, for the exponents of normal numbers. -/
def ofPower (exponent : Int) : Binary64 := make false leastNormal (1022 + exponent).toNat

/-! ## Parts of a number -/

/-- The number of units in the absolute value; 0 when the number is not finite. -/
def magnitude : Binary64 → Nat
  | .finite _ m p _ => m <<< p
  | _ => 0

/-- The sign bit. -/
def isNegative : Binary64 → Bool
  | .finite s _ _ _ | .infinite s | .nan s _ => s

/-- An integer from its sign and its absolute value. -/
def signed (negative : Bool) (n : Nat) : Int := if negative then -(n : Int) else n

/-- The signed number of units. -/
def scaled (x : Binary64) : Int := signed x.isNegative x.magnitude

def isFinite : Binary64 → Bool
  | .finite .. => true
  | _ => false

def isNaN : Binary64 → Bool
  | .nan .. => true
  | _ => false

/-- A NaN that an operation may refuse. -/
def isSignaling : Binary64 → Bool
  | .nan _ quiet => !quiet
  | _ => false

/-- Either zero. -/
def isZero : Binary64 → Bool
  | .finite _ m _ _ => m == 0
  | _ => false

/-- The same number with the sign bit given. -/
def withSign (negative : Bool) : Binary64 → Binary64
  | .finite _ m p h => .finite negative m p h
  | .infinite _ => .infinite negative
  | .nan _ quiet => .nan negative quiet

def neg (x : Binary64) : Binary64 := x.withSign (!x.isNegative)

def abs (x : Binary64) : Binary64 := x.withSign false

/-! ## Order -/

/-- The order of two integers given by their signs and absolute values. -/
def compareSigned (s : Bool) (a : Nat) (t : Bool) (b : Nat) : Ordering :=
  if s == t then if s then compare b a else compare a b
  else if a = 0 ∧ b = 0 then .eq
  else if s then .lt
  else .gt

/-- The order of two numbers; a NaN is unordered and the zeros are equal. -/
def compare? : Binary64 → Binary64 → Option Ordering
  | .nan .., _ | _, .nan .. => none
  | .infinite s, .infinite t => some (if s == t then .eq else if s then .lt else .gt)
  | .infinite s, .finite .. => some (if s then .lt else .gt)
  | .finite .., .infinite t => some (if t then .gt else .lt)
  | .finite s m p _, .finite t n q _ =>
    some (compareSigned s (shiftUp m (p - q)) t (shiftUp n (q - p)))

/-- Numerical equality: a NaN equals nothing, the zeros are equal. -/
def same (x y : Binary64) : Bool := x.compare? y == some .eq

def less (x y : Binary64) : Bool := x.compare? y == some .lt

/-- The order used as a sort key: a NaN stands above every number and is
equal to itself. -/
def keyCompare (x y : Binary64) : Ordering :=
  match x.compare? y with
  | some order => order
  | none => if x.isNaN then (if y.isNaN then .eq else .gt) else .lt

/-! ## Integers -/

/-- The nearest number to an integer. -/
def ofInt (i : Int) : Binary64 := roundShifted (decide (i < 0)) 1074 i.natAbs 1

def one : Binary64 := ofInt 1

/-- Replaces the absolute value of a finite number by a whole number. The choice
is made from the sign, the integer part, and what is left over as a fraction
with a denominator. -/
def mapWhole (choose : Bool → Nat → Nat → Nat → Nat) : Binary64 → Binary64
  | .finite s m p _ =>
    let unit := 1 <<< (1074 - p)
    let scaled := m <<< (p - 1074)
    roundShifted s 1074 (choose s (scaled / unit) (scaled % unit) unit) 1
  | x => x

/-- The integer part, towards zero, of a finite number. -/
def truncate? : Binary64 → Option Int
  | .finite s m p _ => some (signed s ((m <<< (p - 1074)) >>> (1074 - p)))
  | _ => none

/-- Whether a finite number is a whole number. -/
def isWhole : Binary64 → Bool
  | .finite _ m p _ => m % (1 <<< (1074 - p)) == 0
  | _ => false

/-- The largest whole number not above `x`. -/
def floor : Binary64 → Binary64 :=
  mapWhole fun negative whole rest _ => if negative && rest != 0 then whole + 1 else whole

/-- The smallest whole number not below `x`. -/
def ceil : Binary64 → Binary64 :=
  mapWhole fun negative whole rest _ => if !negative && rest != 0 then whole + 1 else whole

/-- The nearest whole number, a half going away from zero. -/
def roundHalfAway : Binary64 → Binary64 :=
  mapWhole fun _ whole rest unit => if unit ≤ 2 * rest then whole + 1 else whole

/-! ## Encoding -/

/-- The number a 64-bit word encodes. -/
def ofBits (word : UInt64) : Binary64 :=
  let negative := word >>> 63 == 1
  let exponent := ((word >>> 52) &&& 0x7ff).toNat
  let fraction := (word &&& 0xfffffffffffff).toNat
  if exponent = 0x7ff then
    if fraction = 0 then .infinite negative
    else .nan negative (leastNormal / 2 ≤ fraction)
  else if exponent = 0 then make negative fraction 0
  else make negative (fraction + leastNormal) (exponent - 1)

/-- The 64-bit word of a number; a NaN is written with one bit of its fraction
set, the highest if it is quiet. -/
def toBits (x : Binary64) : UInt64 :=
  let payload : Nat := match x with
    | .finite _ m p _ => if m < leastNormal then m else (p + 1) * leastNormal + (m - leastNormal)
    | .infinite _ => 0x7ff * leastNormal
    | .nan _ quiet => 0x7ff * leastNormal + if quiet then leastNormal / 2 else 1
  (payload + if x.isNegative then 0x8000_0000_0000_0000 else 0).toUInt64

end Binary64
end Guion
