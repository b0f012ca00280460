/-
Comparisons and logic.

`==` and `!=` compare without conversion. The order compares two integers
exactly, characters, dates, times and spans with their own kind, two texts as
numbers when both are numbers and by their characters otherwise, and anything
else as reals. Logic takes booleans only.
-/
import Guion.Operator.Arithmetic

namespace Guion.Operator

/-- The order of two values. -/
def order (left right : Value) (line : Nat) : Except RuntimeError Ordering :=
  let incomparable : RuntimeError :=
    .typeMismatch ("no se puede comparar " ++ left.typeName ++ " con " ++ right.typeName) line
  let reals (a b : Binary64) : Except RuntimeError Ordering :=
    match a.compare? b with
    | some order => .ok order
    | none => .error incomparable
  match left.asInteger?, right.asInteger? with
  | some a, some b => .ok (compare a.toInt b.toInt)
  | _, _ =>
    match left, right with
    | .character a, .character b => .ok (compare a.toNat b.toNat)
    | .date a, .date b => .ok (a.compare b)
    | .time a, .time b => .ok (a.compare b)
    | .duration a, .duration b => .ok (compare a.seconds.toInt b.seconds.toInt)
    | _, _ =>
      match left.asText?, right.asText? with
      | some a, some b =>
        match Number.readFinite? (Text.trim a.toList), Number.readFinite? (Text.trim b.toList) with
        | some x, some y => reals x y
        | _, _ => .ok (compare a b)
      | _, _ =>
        match left.toReal, right.toReal with
        | .ok x, .ok y => reals x y
        | _, _ => .error incomparable

/-- The operators `< > <= >= == !=`. -/
def comparison (op : BinaryOperator) (left right : Value) (line : Nat) :
    Except RuntimeError Value :=
  match op with
  | .equal => .ok (.boolean (left.same right))
  | .notEqual => .ok (.boolean !(left.same right))
  | _ => do
    let order ← order left right line
    match op with
    | .less => return .boolean (order == .lt)
    | .greater => return .boolean (order == .gt)
    | .lessEqual => return .boolean (order != .gt)
    | .greaterEqual => return .boolean (order != .lt)
    | _ => .error (.typeMismatch ("'" ++ op.text ++ "' no es una comparación") line)

/-- The operators `&&` and `||` on two values. -/
def logic (op : BinaryOperator) (left right : Value) (line : Nat) :
    Except RuntimeError Value := do
  let a ← booleanOf line left
  let b ← booleanOf line right
  match op with
  | .and => return .boolean (a && b)
  | .or => return .boolean (a || b)
  | _ => .error (.typeMismatch ("'" ++ op.text ++ "' no es un operador lógico") line)

/-- A binary operation on two values. -/
def binary (op : BinaryOperator) (left right : Value) (line : Nat) : Except RuntimeError Value :=
  match op with
  | .add | .sub | .mul | .div | .mod => arithmetic op left right line
  | .less | .greater | .lessEqual | .greaterEqual | .equal | .notEqual =>
    comparison op left right line
  | .and | .or => logic op left right line

end Guion.Operator
