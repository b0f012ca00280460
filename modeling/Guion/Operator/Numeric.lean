/-
Shared steps of the operators and the functions: numeric operands, results
that must be finite, and arguments that must be texts.
-/
import Guion.Error.Runtime
import Guion.Value.Coerce

namespace Guion.Operator

/-- The real of an operand. -/
def realOf (line : Nat) (v : Value) : Except RuntimeError Binary64 :=
  v.toReal.mapError (.conversion · line)

/-- The integer of an operand. -/
def integerOf (line : Nat) (v : Value) : Except RuntimeError Int64 :=
  v.toInteger.mapError (.conversion · line)

/-- A real as the result of a function, unless it is not finite. -/
def finite (function : String) (x : Binary64) (line : Nat) : Except RuntimeError Value :=
  if x.isFinite then .ok (.real x) else .error (.nonFiniteResult function line)

/-- The content of a text argument. -/
def textArgument (function : String) (v : Value) (line : Nat) : Except RuntimeError String :=
  match v.asText? with
  | some s => .ok s
  | none =>
    .error (.invalidArgument function ("se esperaba un texto, se recibió " ++ v.typeName) line)

/-- An integer as a result, unless it does not fit 64 bits. -/
def integerResult (i : Int) (line : Nat) : Except RuntimeError Value :=
  match int64? i with
  | some i => .ok (.integer i)
  | none => .error (.overflow line)

/-- The truth value of an operand that must be a boolean. -/
def booleanOf (line : Nat) (v : Value) : Except RuntimeError Bool :=
  match v with
  | .boolean b => .ok b
  | _ => .error (.expectedBoolean v.display line)

end Guion.Operator
