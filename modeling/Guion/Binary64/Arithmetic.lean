/-
Arithmetic on binary64 numbers.

Each operation is its exact result, computed on integers, rounded once by
`Binary64.round`. The cases without an exact result (a NaN operand, a
difference of infinities, zero divided by zero) come first. The operands are
brought to a common power of two before they are added or compared.
-/
import Guion.Binary64.Basic

namespace Guion.Binary64

/-- The sum of two integers given by their signs and absolute values, in the same
form. The zero of two opposite numbers is not negative. -/
def addSigned (s : Bool) (a : Nat) (t : Bool) (b : Nat) : Bool × Nat :=
  if s == t then (s, a + b)
  else if a = b then (false, 0)
  else if b < a then (s, a - b)
  else (t, b - a)

def add : Binary64 → Binary64 → Binary64
  | .nan s _, _ => .nan s true
  | _, .nan s _ => .nan s true
  | .infinite s, .infinite t => if s == t then .infinite s else invalid
  | .infinite s, .finite .. => .infinite s
  | .finite .., .infinite t => .infinite t
  | .finite s m p _, .finite t n q _ =>
    let (negative, sum) := addSigned s (shiftUp m (p - q)) t (shiftUp n (q - p))
    roundShifted negative (min p q) sum 1

def sub (x y : Binary64) : Binary64 := if y.isNaN then x.add y else x.add y.neg

/-- The nearest number to a product of two numbers of units: `n * 2 ^ exponent`
squared units. -/
def roundProduct (negative : Bool) (n exponent : Nat) : Binary64 :=
  if 1074 ≤ exponent then roundShifted negative (exponent - 1074) n 1
  else round negative n (1 <<< (1074 - exponent))

def mul : Binary64 → Binary64 → Binary64
  | .nan s _, _ => .nan s true
  | _, .nan s _ => .nan s true
  | .infinite s, y => if y.isZero then invalid else .infinite (s != y.isNegative)
  | x, .infinite t => if x.isZero then invalid else .infinite (x.isNegative != t)
  | .finite s m p _, .finite t n q _ => roundProduct (s != t) (m * n) (p + q)

/-- The quotient of two numbers. The dividend is moved up by 53 bits, so that the
quotient of the significands is at least one, whenever its power allows that. -/
def div : Binary64 → Binary64 → Binary64
  | .nan s _, _ => .nan s true
  | _, .nan s _ => .nan s true
  | .infinite _, .infinite _ => invalid
  | .infinite s, .finite t .. => .infinite (s != t)
  | .finite s .., .infinite t => zero (s != t)
  | x@(.finite s m p _), y@(.finite t n q _) =>
    if y.isZero then if x.isZero then invalid else .infinite (s != t)
    else if q ≤ p + 1021 then roundShifted (s != t) (p + 1021 - q) (m <<< 53) n
    else round (s != t) (m <<< (p + 1074)) (n <<< q)

/-- `x * y + z` with a single rounding. -/
def fusedMulAdd (x y z : Binary64) : Binary64 :=
  match x, y, z with
  | .finite sx mx px _, .finite sy my py _, .finite sz mz pz _ =>
    let base := min (px + py) (pz + 1074)
    let (negative, sum) := addSigned (sx != sy) (shiftUp (mx * my) (px + py - base)) sz
      (shiftUp mz (pz + 1074 - base))
    roundProduct negative sum base
  | .finite .., .finite .., _ => z.add (zero false)
  | _, _, _ => (x.mul y).add z

/-- Newton's descent to the integer square root of `n` from a guess above it. -/
def sqrtFrom (n : Nat) : Nat → Nat → Nat
  | 0, guess => guess
  | fuel + 1, guess =>
    let next := (guess + n / guess) / 2
    if next < guess then sqrtFrom n fuel next else guess

/-- The largest `r` with `r * r ≤ n`. -/
def natSqrt (n : Nat) : Nat :=
  if n = 0 then 0 else sqrtFrom n (n.log2 + 2) (1 <<< (n.log2 / 2 + 1))

/-- The square root. The power of the operand is made even and halved; the root
of its significand is taken with 64 more bits and one that records an inexact
root. -/
def sqrt : Binary64 → Binary64
  | .nan s _ => .nan s true
  | .infinite s => if s then invalid else .infinite false
  | x@(.finite s m p _) =>
    if x.isZero then x
    else if s then invalid
    else
      let square := m <<< (128 + p % 2)
      let root := natSqrt square
      let inexact := if root * root = square then 0 else 1
      roundShifted false (p / 2 + 537 - 65) (2 * root + inexact) 1

/-! ## Functions without an exact rule

These are as close as the platform's library makes them. -/

def toFloat (x : Binary64) : Float := Float.ofBits x.toBits

def ofFloat (x : Float) : Binary64 := ofBits x.toBits

def sin (x : Binary64) : Binary64 := ofFloat x.toFloat.sin

def cos (x : Binary64) : Binary64 := ofFloat x.toFloat.cos

/-- The natural logarithm. -/
def log (x : Binary64) : Binary64 := ofFloat x.toFloat.log

def log10 (x : Binary64) : Binary64 := ofFloat x.toFloat.log10

def pow (x y : Binary64) : Binary64 := ofFloat (x.toFloat.pow y.toFloat)

end Guion.Binary64
