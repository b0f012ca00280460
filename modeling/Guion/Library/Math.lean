/-
The numeric functions.

Integers stay integers where the result is one; a real result that is not
finite is an error. `maximo` and `minimo` compare by value and keep the first
of several equal arguments.
-/
import Guion.Operator.Numeric

namespace Guion.Library

open Operator

/-- `absoluto(x)`. -/
def absolute (v : Value) (line : Nat) : Except RuntimeError Value :=
  match v with
  | .integer i => integerResult i.toInt.natAbs line
  | .complex z => finite "absoluto" z.modulus line
  | .decimal x => .ok (.decimal x.abs)
  | _ => do finite "absoluto" (← realOf line v).abs line

/-- `raiz(x)`: a complex number has a complex root. -/
def squareRoot (v : Value) (line : Nat) : Except RuntimeError Value :=
  match v with
  | .complex z =>
    let root := z.principalRoot
    if root.isFinite then .ok (.complex root) else .error (.nonFiniteResult "raiz" line)
  | _ => do finite "raiz" (← realOf line v).sqrt line

/-- The power of an integer, if it fits 64 bits. A base other than 0 and ±1
outgrows them before the exponent 64. -/
def integerPower? (base : Int) (exponent : Nat) : Option Int64 :=
  if exponent ≤ 64 then int64? (Int.pow base exponent)
  else if base.natAbs ≤ 1 then int64? (Int.pow base (2 + exponent % 2))
  else none

/-- `result * base ^ count` by repeated multiplication, as long as it is finite. -/
def complexPowerFrom? (base : Complex) : Nat → Complex → Option Complex
  | 0, result => some result
  | count + 1, result =>
    let next := result.mul base
    if next.isFinite then complexPowerFrom? base count next else none

/-- The power of a complex number. -/
def complexPower (base : Complex) (exponent : Int) (line : Nat) : Except RuntimeError Value :=
  match complexPowerFrom? base exponent.natAbs (.ofReal .one) with
  | none => .error (.overflow line)
  | some result =>
    if exponent < 0 then
      match (Complex.ofReal .one).div? result with
      | some inverse => .ok (.complex inverse)
      | none => .error (.divisionByZero line)
    else .ok (.complex result)

/-- `potencia(base, exponente)`. Two integers with an exponent that is not
negative give an integer. -/
def power (base exponent : Value) (line : Nat) : Except RuntimeError Value :=
  let realPower : Except RuntimeError Value := do
    let x ← realOf line base
    let y ← realOf line exponent
    finite "potencia" (x.pow y) line
  match base, exponent with
  | .integer b, .integer e =>
    if 0 ≤ e.toInt then
      if e.toInt < 0x1_0000_0000 then
        match integerPower? b.toInt e.toInt.toNat with
        | some result => .ok (.integer result)
        | none => .error (.overflow line)
      else .error (.overflow line)
    else realPower
  | .complex z, _ => do complexPower z (← integerOf line exponent).toInt line
  | _, _ => realPower

/-- A whole real as an integer. -/
def wholeResult (x : Binary64) (line : Nat) : Except RuntimeError Value :=
  match Number.exactInteger? x with
  | some i => .ok (.integer i)
  | none => .error (.overflow line)

/-- `redondear(x)`: the nearest integer, a half going away from zero. -/
def roundWhole (v : Value) (line : Nat) : Except RuntimeError Value := do
  wholeResult (← realOf line v).roundHalfAway line

/-- `redondear(x, digitos)`: the real rounded after some decimal places. -/
def roundPlaces (v places : Value) (line : Nat) : Except RuntimeError Value := do
  let x ← realOf line v
  let n := (← integerOf line places).toInt
  if 0 ≤ n ∧ n ≤ 15 then
    let scale := Binary64.ofInt (Nat.pow 10 n.toNat)
    finite "redondear" ((x.mul scale).roundHalfAway.div scale) line
  else .error (.invalidArgument "redondear" "los dígitos deben estar entre 0 y 15" line)

/-- `piso(x)`. -/
def floorWhole (v : Value) (line : Nat) : Except RuntimeError Value := do
  wholeResult (← realOf line v).floor line

/-- `techo(x)`. -/
def ceilingWhole (v : Value) (line : Nat) : Except RuntimeError Value := do
  wholeResult (← realOf line v).ceil line

/-- The best of some values, the best so far being given with its real. -/
def extremeFrom (better : Ordering) (line : Nat) :
    Option (Binary64 × Value) → List Value → Except RuntimeError (Option (Binary64 × Value))
  | best, [] => .ok best
  | best, v :: rest => do
    let x ← realOf line v
    match best with
    | none => extremeFrom better line (some (x, v)) rest
    | some (y, w) =>
      if x.keyCompare y = better then extremeFrom better line (some (x, v)) rest
      else extremeFrom better line (some (y, w)) rest

/-- The largest or smallest argument, or item of a single list. -/
def extreme (function : String) (better : Ordering) (arguments : List Value) (line : Nat) :
    Except RuntimeError Value := do
  let items :=
    match arguments with
    | [.list items] => items
    | _ => arguments
  match ← extremeFrom better line none items with
  | some (_, v) => return v
  | none => .error (.invalidArgument function "la lista está vacía" line)

/-- `seno(x)`. -/
def sine (v : Value) (line : Nat) : Except RuntimeError Value := do
  finite "seno" (← realOf line v).sin line

/-- `coseno(x)`. -/
def cosine (v : Value) (line : Nat) : Except RuntimeError Value := do
  finite "coseno" (← realOf line v).cos line

/-- `logaritmo(x)`: the natural logarithm. -/
def naturalLogarithm (v : Value) (line : Nat) : Except RuntimeError Value := do
  finite "logaritmo" (← realOf line v).log line

/-- `logaritmo(x, base)`. -/
def logarithm (v base : Value) (line : Nat) : Except RuntimeError Value := do
  let x ← realOf line v
  let b ← realOf line base
  finite "logaritmo" (x.log.div b.log) line

end Guion.Library
