/-
The value of an expression.

Operands are evaluated from left to right. `&&` and `||` leave the right one
alone when the left one decides. A pointer is followed where a collection or
a receiver is expected, and nowhere else.
-/
import Guion.Operator.Comparison
import Guion.Run.Call
import Guion.Value.Literal

namespace Guion.Evaluator

/-- A binary operation. -/
def evalBinary (ev : Evaluator) (env : Environment) (left : Expr) (op : BinaryOperator)
    (right : Expr) (line : Nat) : Eval Value := do
  let a ← ev.eval env left
  match op with
  | .and | .or =>
    let decided ← Run.ofExcept (Operator.booleanOf line a)
    if decided == (op == .or) then return .boolean decided
    let b ← ev.eval env right
    return .boolean (← Run.ofExcept (Operator.booleanOf line b))
  | _ =>
    let b ← ev.eval env right
    Run.ofExcept (Operator.binary op a b line)

/-- `&x` names a variable; a pointer to any other expression holds its value. -/
def evalReference (ev : Evaluator) (env : Environment) (operand : Expr) (line : Nat) :
    Eval Value := do
  match operand with
  | .variable name _ =>
    match (← get).lookup name with
    | some _ => return .namedPointer name
    | none => Run.fail (.unknownIdentifier name line)
  | _ => return .valuePointer (← ev.eval env operand)

/-- A cast calls the conversion function of its type. A pointer is cast by
casting what it points to. -/
def evalCast (ev : Evaluator) (env : Environment) (typeName : String) (pointer : Bool)
    (operand : Expr) (line : Nat) : Eval Value := do
  let v ← ev.eval env operand
  let name := "convertir_" ++ typeName
  let convert (v : Value) : Eval Value :=
    ev.callKnown env name [v] line (.unknownFunction name line)
  if pointer then
    let target ← Run.read (·.follow v line)
    return .valuePointer (← convert target)
  else convert v

/-- The value of an expression whose parts `ev` evaluates. -/
def expression (ev : Evaluator) (env : Environment) (e : Expr) : Eval Value := do
  match e with
  | .literal value _ => return value
  | .variable name line =>
    match (← get).lookup name with
    | some value => return value
    | none => Run.fail (.unknownIdentifier name line)
  | .unary op operand line =>
    let v ← ev.eval env operand
    Run.ofExcept (Operator.unary op v line)
  | .binary left op right line => ev.evalBinary env left op right line
  | .call name arguments line => ev.call env name arguments line (.unknownFunction name line)
  | .methodCall receiver method arguments line =>
    ev.callMethod env receiver method arguments line
  | .index target index line =>
    let v ← ev.eval env target
    let i ← ev.eval env index
    let container ← Run.read (·.follow v line)
    Run.ofExcept (Operator.indexValue container i line)
  | .field target field line =>
    let v ← ev.eval env target
    let container ← Run.read (·.follow v line)
    Run.ofExcept (Operator.fieldValue container field line)
  | .reference operand line => ev.evalReference env operand line
  | .deref operand line =>
    let v ← ev.eval env operand
    Run.read (·.deref v line)
  | .cast typeName pointer operand line => ev.evalCast env typeName pointer operand line
  | .list elements _ => return .list (← ev.evalAll env elements)
  | .dictionary entries _ => return .dictionary (← ev.evalEntries env [] entries)
  | .raw text _ => return Value.readLiteral text

end Guion.Evaluator
