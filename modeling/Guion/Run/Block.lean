/-
Sequences of statements, blocks and the passes of loops.

A sequence ends at the first statement that does not proceed. A request to
run a program goes to the invoker, and the sequence goes on behind it;
without an invoker the request ends the sequence. A block has a scope of its
own, which is closed however the block ends.
-/
import Guion.Run.Evaluator

namespace Guion.Evaluator

/-- Serves a request to run a program, or gives it back. -/
def serve (ev : Evaluator) (env : Environment) (request : Invocation) : Eval Flow := do
  match env.invoker with
  | .none => return .invoke request
  | .recorder =>
    let shown := (Value.list request.arguments).display
    modify (·.print s!"invocado {request.path} {shown} {request.line}")
    return .proceed
  | .refuser => Run.fail (.subProgram (.programNotFound request.path) request.line)
  | .programs origin depth =>
    Run.mapError (.subProgram · request.line) (ev.invoke env origin depth request)
    return .proceed

/-- Executes statements in order. -/
def statements (ev : Evaluator) (env : Environment) : List Statement → Eval Flow
  | [] => pure .proceed
  | statement :: rest => do
    match ← ev.exec env statement with
    | .proceed => ev.statements env rest
    | .invoke request =>
      match ← ev.serve env request with
      | .proceed => ev.statements env rest
      | flow => return flow
    | flow => return flow

/-- Executes a block in a new scope. -/
def block (ev : Evaluator) (env : Environment) (body : Block) : Eval Flow :=
  Run.bracket State.pushScope (fun _ => State.popScope) (ev.statements env body.statements)

/-! ## Loops -/

/-- Runs a loop, inside which `rompe` is allowed. -/
def inLoop (loop : Eval α) : Eval α :=
  Run.bracket (fun s => { s with loopDepth := s.loopDepth + 1 })
    (fun _ t => { t with loopDepth := t.loopDepth - 1 }) loop

/-- Repeats a block while a condition holds, at most so many times. -/
def whileLoop (ev : Evaluator) (env : Environment) (test : Expr) (body : Block) :
    Nat → Eval Flow
  | 0 => throw .outOfFuel
  | passes + 1 => do
    if ← ev.condition env test then
      match ← ev.block env body with
      | .proceed => ev.whileLoop env test body passes
      | .leaveLoop => return .proceed
      | flow => return flow
    else return .proceed

/-- Runs a block for every item, with the item under a name. -/
def forItems (ev : Evaluator) (env : Environment) (name : String) (body : Block) :
    List Value → Eval Flow
  | [] => pure .proceed
  | item :: rest => do
    modify (·.bindLoopVariable name item)
    match ← ev.block env body with
    | .proceed => ev.forItems env name body rest
    | .leaveLoop => return .proceed
    | flow => return flow

/-- Draws items from a source that may fail behind the last one. -/
def drawItems (ev : Evaluator) (env : Environment) (name : String) (body : Block)
    (failure : Option RuntimeError) : List Value → Eval Flow
  | [] =>
    match failure with
    | some cause => Run.fail cause
    | none => pure .proceed
  | item :: rest => do
    modify (·.bindLoopVariable name item)
    match ← ev.block env body with
    | .proceed => ev.drawItems env name body failure rest
    | .leaveLoop => return .proceed
    | flow => return flow

/-- Pulls items from an iterator that has given some already, at most so many
times. An item is pulled only when the pass before it has ended. -/
def pullItems (ev : Evaluator) (env : Environment) (name : String) (body : Block)
    (pull : Nat → Pull) (failed : String → RuntimeError) : Nat → Nat → Eval Flow
  | 0, _ => throw .outOfFuel
  | passes + 1, given =>
    match pull given with
    | .finished => pure .proceed
    | .failed reason => Run.fail (failed reason)
    | .item value => do
      modify (·.bindLoopVariable name value)
      match ← ev.block env body with
      | .proceed => ev.pullItems env name body pull failed passes (given + 1)
      | .leaveLoop => return .proceed
      | flow => return flow

end Guion.Evaluator
