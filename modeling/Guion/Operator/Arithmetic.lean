/-
The operators `+ - * / %` and the prefix operators.

`+` joins texts and lists. A complex operand makes the operation complex, a
decimal operand the result decimal. Two integers give an integer as long as
the exact result fits 64 bits, and a real otherwise; `/` always gives a real
and `%` an integer. A result that is not finite is an overflow.
-/
import Guion.Operator.Numeric
import Guion.Syntax.Expr

namespace Guion.Operator

/-- The complex number of an operand. -/
def complexOf (line : Nat) (v : Value) : Except RuntimeError Complex :=
  match v with
  | .complex z => .ok z
  | _ => (realOf line v).map .ofReal

/-- Arithmetic on complex numbers. -/
def complexArithmetic (op : BinaryOperator) (left right : Value) (line : Nat) :
    Except RuntimeError Value := do
  let a ← complexOf line left
  let b ← complexOf line right
  let result ←
    match op with
    | .add => pure (a.add b)
    | .sub => pure (a.sub b)
    | .mul => pure (a.mul b)
    | .div =>
      match a.div? b with
      | some quotient => pure quotient
      | none => .error (.divisionByZero line)
    | _ => .error (.typeMismatch ("'" ++ op.text ++ "' no está definido para complejos") line)
  if result.isFinite then return .complex result else .error (.overflow line)

/-- The integer of an operand of `%`; a real loses its fraction. -/
def moduloOperand (line : Nat) (v : Value) : Except RuntimeError Int64 :=
  match v.asInteger? with
  | some i => .ok i
  | none => do
    let x ← realOf line v
    match Number.truncatedInteger? x with
    | some i => return i
    | none => .error (.overflow line)

/-- The remainder, with the sign of the dividend. The one quotient that does
not fit 64 bits is an overflow. -/
def modulo (left right : Value) (line : Nat) : Except RuntimeError Value := do
  let a ← moduloOperand line left
  let b ← moduloOperand line right
  if b = 0 then .error (.divisionByZero line)
  else if a.toInt = -0x8000_0000_0000_0000 ∧ b.toInt = -1 then .error (.overflow line)
  else integerResult (a.toInt.tmod b.toInt) line

/-- The exact result of `+ - *` on two integers. -/
def exactInteger? (op : BinaryOperator) (x y : Int64) : Option Int64 :=
  match op with
  | .add => int64? (x.toInt + y.toInt)
  | .sub => int64? (x.toInt - y.toInt)
  | _ => int64? (x.toInt * y.toInt)

/-- Arithmetic on reals. -/
def realArithmetic (op : BinaryOperator) (left right : Value) (line : Nat) :
    Except RuntimeError Value := do
  let a ← realOf line left
  let b ← realOf line right
  let result ←
    match op with
    | .add => pure (a.add b)
    | .sub => pure (a.sub b)
    | .mul => pure (a.mul b)
    | .div => if b.isZero then .error (.divisionByZero line) else pure (a.div b)
    | _ => .error (.typeMismatch ("'" ++ op.text ++ "' no es aritmético") line)
  if !result.isFinite then .error (.overflow line)
  else if left.kind = .decimal ∨ right.kind = .decimal then return .decimal result
  else return .real result

/-- Arithmetic on two operands neither of which is a text or a list joined to
another one. -/
def numericArithmetic (op : BinaryOperator) (left right : Value) (line : Nat) :
    Except RuntimeError Value :=
  if left.kind = .complex ∨ right.kind = .complex then complexArithmetic op left right line
  else if op = .mod then modulo left right line
  else
    let exact : Option Int64 :=
      if op = .div then none
      else
        match left.asInteger?, right.asInteger? with
        | some x, some y => exactInteger? op x y
        | _, _ => none
    match exact with
    | some i => .ok (.integer i)
    | none => realArithmetic op left right line

/-- The operators `+ - * / %`. -/
def arithmetic (op : BinaryOperator) (left right : Value) (line : Nat) :
    Except RuntimeError Value :=
  if op = .add ∧ (left.isTextual || right.isTextual) then
    .ok (.string (left.textForm ++ right.textForm))
  else
    match op, left, right with
    | .add, .list a, .list b => .ok (.list (a ++ b))
    | _, _, _ => numericArithmetic op left right line

/-- The prefix operators. `-` keeps integers, decimals and complex numbers what
they are, `+` gives a real, `!` takes booleans only. -/
def unary (op : UnaryOperator) (v : Value) (line : Nat) : Except RuntimeError Value :=
  match op with
  | .negate =>
    match v with
    | .integer i => integerResult (-i.toInt) line
    | .bit b | .boolean b => .ok (.integer (if b then -1 else 0))
    | .decimal x => .ok (.decimal x.neg)
    | .complex z => .ok (.complex z.neg)
    | _ => (realOf line v).map fun x => .real x.neg
  | .plus =>
    match v with
    | .complex z => .ok (.complex z)
    | _ => (realOf line v).map .real
  | .not => (booleanOf line v).map fun b => .boolean !b

end Guion.Operator
