/-
Calls of functions.

A name is a function of the program, in its exact spelling, or a built-in
function, in any case. The body of a function runs in a frame that holds its
parameters only; globals, constants and the registry stay visible. However
the call ends, the scopes of the caller are what they were.
-/
import Guion.Library.Table
import Guion.Run.Block
import Guion.Text.Case

namespace Guion

/-- The frame of a call: each parameter with its argument, in its type if it has
one. Of several parameters of one name the last one counts. -/
def Registry.bindParams (registry : Registry) (line : Nat) (frame : Scope) :
    List Param → List Value → Except RuntimeError Scope
  | param :: params, argument :: arguments => do
    let value ← match param.typeName with
      | some typeName =>
        (registry.construct typeName param.name (some argument)).mapError (.registry · line)
      | none => .ok argument
    bindParams registry line (Entries.insert param.name value frame) params arguments
  | _, _ => .ok frame

/-- The kind that the result of a function is converted to. -/
def ReturnKind.kind? : ReturnKind → Option Kind
  | .integer => some .integer
  | .real => some .real
  | .text => some .string
  | .list => some .list
  | .matrix => some .matrix
  | .dynamic => none

/-- The result of a function in the kind that it returns. -/
def ReturnKind.convert (returns : ReturnKind) (v : Value) (line : Nat) :
    Except RuntimeError Value :=
  match returns.kind? with
  | none => .ok v
  | some kind =>
    if v.kind = kind then .ok v else (v.coerce kind).mapError (.conversion · line)

namespace State

/-- Enters a function with a frame. -/
def enterCall (frame : Scope) (s : State) : State :=
  { s with scopes := [frame], loopDepth := 0, callDepth := s.callDepth + 1 }

/-- Leaves a function, back to the scopes and loops of the caller. -/
def leaveCall (caller s : State) : State :=
  { s with scopes := caller.scopes, loopDepth := caller.loopDepth, callDepth := s.callDepth - 1 }

end State

namespace Evaluator

/-- Calls a function of the program. -/
def callDefined (ev : Evaluator) (env : Environment) (function : FunctionDef)
    (arguments : List Value) (line : Nat) : Eval Value := do
  let params := function.signature.params
  let s ← get
  if State.maxCallDepth ≤ s.callDepth then Run.fail (.recursionLimit State.maxCallDepth line)
  if arguments.length ≠ params.length then
    Run.fail (.argumentCountMismatch function.signature.name (toString params.length)
      arguments.length line)
  let frame ← Run.ofExcept (s.registry.bindParams line [] params arguments)
  let flow ← Run.bracket (State.enterCall frame) State.leaveCall
    (ev.statements env function.body.statements)
  match flow with
  | .result v => Run.ofExcept (function.signature.returns.convert v line)
  | .proceed | .leaveLoop => return .integer 0
  | .invoke _ => Run.fail (.nestedInvocation line)

/-- Opens a file for loops over its lines. -/
def openFile (env : Environment) (path : String) (line : Nat) : Eval Value := do
  match ← Run.findFile env path with
  | .error e => Run.fail (.inputOutput path e.message line)
  | .ok .directory => Run.fail (.invalidArgument "abrir" s!"'{path}' es un directorio" line)
  | .ok (.file _) =>
    let s ← get
    set { s with nextIdentity := s.nextIdentity + 1 }
    return .object s.nextIdentity "archivo" s!"<archivo {path}>" (.file path)

/-- Applies a built-in function; `name` is what it was called by. -/
def callBuiltin (env : Environment) (builtin : Builtin) (name : String)
    (arguments : List Value) (line : Nat) : Eval Value := do
  match builtin, arguments with
  | .pure function, _ => Run.ofExcept (function.apply name arguments line)
  | .print, _ =>
    modify (·.print (String.intercalate " " (arguments.map Value.textForm)))
    return .integer 0
  | .isBound, [v] =>
    let wanted ← Run.ofExcept (Operator.textArgument "existe" v line)
    let s ← get
    return .boolean ((s.lookup wanted).isSome || Entries.contains wanted s.functions)
  | .delete, [v] =>
    let wanted ← Run.ofExcept (Operator.textArgument "eliminar" v line)
    let (value, s) ← Run.read (·.delete wanted line)
    set s
    return value
  | .openFile, [v] =>
    let path ← Run.ofExcept (Operator.textArgument "abrir" v line)
    openFile env path line
  | .convert typeName, [v] =>
    Run.read fun s =>
      (s.registry.construct typeName "" (some v)).mapError (.registry · line)
  | _, _ =>
    Run.fail (.argumentCountMismatch name builtin.arity.display arguments.length line)

/-- Calls a function by name; without a result there is no such function. -/
def callNamed (ev : Evaluator) (env : Environment) (name : String) (arguments : List Value)
    (line : Nat) : Eval (Option Value) := do
  match Entries.get? name (← get).functions with
  | some function => return some (← ev.callDefined env function arguments line)
  | none =>
    match Entries.get? (Text.lowerString name) Library.table with
    | none => return none
    | some builtin =>
      if builtin.arity.accepts arguments.length then
        return some (← callBuiltin env builtin name arguments line)
      else
        Run.fail (.argumentCountMismatch name builtin.arity.display arguments.length line)

/-- Calls a function that must exist. -/
def callKnown (ev : Evaluator) (env : Environment) (name : String) (arguments : List Value)
    (line : Nat) (unknown : RuntimeError) : Eval Value := do
  match ← ev.callNamed env name arguments line with
  | some result => return result
  | none => Run.fail unknown

/-- A call as it is written: the arguments are evaluated first. -/
def call (ev : Evaluator) (env : Environment) (name : String) (arguments : List Expr) (line : Nat)
    (unknown : RuntimeError) : Eval Value := do
  let values ← ev.evalAll env arguments
  let result ← ev.callKnown env name values line unknown
  if Library.isMutator (Text.lowerString name) then
    ev.writeBack env (arguments.head?.bind Expr.place?) result line
  return result

/-- The place that a method writes back to: the variable that its receiver
points to, or the place of the receiver. -/
def methodPlace? (receiver : Expr) : Value → Option AssignTarget
  | .namedPointer name => some (.variable name)
  | _ => receiver.place?

/-- A call of a method: of the function under the type of the receiver. -/
def callMethod (ev : Evaluator) (env : Environment) (receiver : Expr) (method : String)
    (arguments : List Expr) (line : Nat) : Eval Value := do
  let v ← ev.eval env receiver
  let target ← Run.read (·.follow v line)
  let values ← ev.evalAll env arguments
  let name := target.typeName ++ "." ++ method
  let result ← ev.callKnown env name (target :: values) line (.unknownFunction name line)
  if Library.isMutator method then
    ev.writeBack env (methodPlace? receiver v) result line
  return result

end Evaluator
end Guion
