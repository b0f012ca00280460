/-
The effect of a statement.

The environment names a handler for every kind of statement; a kind without
one is not recognised, and neither is a statement given to the handler of
another kind.
-/
import Guion.Run.Expression
import Guion.Run.Loop

namespace Guion.Evaluator

/-- The value that a declared name starts with. -/
def declaredValue (registry : Registry) (type : Option TypeSpec) (name : String)
    (initial : Option Value) (line : Nat) : Except RuntimeError Value :=
  match type with
  | some spec => (registry.constructTyped spec name initial).mapError (.registry · line)
  | none => .ok (initial.getD .null)

/-- The state after a declaration of one name. A variable of a program is a
symbol of the registry too; a variable of a function is local only. -/
def declareName (scope : DeclarationScope) (type : Option TypeSpec) (initial : Option Value)
    (line : Nat) (name : String) (s : State) : Except RuntimeError State := do
  let value ← declaredValue s.registry type name initial line
  match scope with
  | .variable =>
    if s.inFunction then return s.defineLocal name value
    else do
      let (stored, registry) ← (s.registry.redeclare name value).mapError (.registry · line)
      return { s with registry := registry }.defineLocal name stored
  | .global => return { s with globals := Entries.insert name value s.globals }
  | .constant =>
    if Entries.contains name s.constants then .error (.constantRedefinition name line)
    else return { s with constants := Entries.insert name value s.constants }

/-- Declares names in order, up to the first that fails. -/
def declareNames (scope : DeclarationScope) (type : Option TypeSpec) (initial : Option Value)
    (line : Nat) : List String → Eval Unit
  | [] => pure ()
  | name :: rest => do
    Run.update (declareName scope type initial line name)
    declareNames scope type initial line rest

/-- A declaration: the initial value is evaluated once for all names. -/
def declare (ev : Evaluator) (env : Environment) (scope : DeclarationScope)
    (type : Option TypeSpec) (names : List String) (value : Option Expr) (line : Nat) :
    Eval Unit := do
  match value with
  | some e => declareNames scope type (some (← ev.initializer env e)) line names
  | none => declareNames scope type none line names

/-- The first branch whose condition holds, else the block behind them. -/
def conditional (ev : Evaluator) (env : Environment) (otherwise : Option Block) :
    List (Expr × Block) → Eval Flow
  | [] =>
    match otherwise with
    | some body => ev.block env body
    | none => pure .proceed
  | (test, body) :: rest => do
    if ← ev.condition env test then ev.block env body
    else ev.conditional env otherwise rest

/-- The state after the definition of a function. The name may belong neither to
a built-in function, in any case, nor to a function of the program. -/
def defineFunction (function : FunctionDef) (s : State) : Except RuntimeError State :=
  let name := function.signature.name
  let line := function.signature.line
  if Library.isBuiltin (Text.lowerString name) then .error (.builtinRedefinition name line)
  else if Entries.contains name s.functions then .error (.functionAlreadyDefined name line)
  else .ok { s with functions := Entries.insert name function s.functions }

/-- A request to run another program; functions may not make one. -/
def request (ev : Evaluator) (env : Environment) (path : Expr) (arguments : List Expr)
    (line : Nat) : Eval Invocation := do
  if (← get).inFunction then Run.fail (.nestedInvocation line)
  let target ← ev.initializer env path
  let values ← ev.evalAll env arguments
  return { path := target.textForm, arguments := values, line := line }

/-- Whether the value of an expression is printed when the expression stands
alone. -/
def printsValue : Expr → Bool
  | .methodCall .. => false
  | _ => true

/-- Executes a statement with a handler. -/
def handle (ev : Evaluator) (env : Environment) (handler : Handler) (statement : Statement) :
    Eval Flow := do
  match handler, statement with
  | .declare, .declaration scope type names value line =>
    ev.declare env scope type names value line
    return .proceed
  | .assign, .assignment target value line =>
    let v ← ev.eval env value
    ev.assign env target v line
    return .proceed
  | .conditional, .conditional branches otherwise _ => ev.conditional env otherwise branches
  | .whileLoop, .whileLoop test body _ => inLoop (ev.whileLoop env test body ev.passes)
  | .forLoop, .forLoop name source body line => ev.forLoop env name source body line
  | .defineFunction, .function signature body =>
    Run.update (defineFunction ⟨signature, body⟩)
    return .proceed
  | .returnValue, .returnValue value _ =>
    match value with
    | some e => return .result (← ev.eval env e)
    | none => return .result (.integer 0)
  | .breakLoop, _ =>
    if (← get).loopDepth = 0 then Run.fail (.breakOutsideLoop statement.line)
    return .leaveLoop
  | .block, .block body => ev.block env body
  | .call, .call name arguments line =>
    let _ ← ev.call env name arguments line (.unrecognizedInstruction name line)
    return .proceed
  | .invoke, .invoke path arguments line => return .invoke (← ev.request env path arguments line)
  | .expression, .expression e _ =>
    let v ← ev.eval env e
    if printsValue e then modify (·.print v.textForm)
    return .proceed
  | .inert, _ => return .proceed
  | .announce text, _ =>
    modify (·.print text)
    return .proceed
  | _, _ => Run.fail (.unrecognizedInstruction statement.kind statement.line)

/-- Executes a statement whose parts `ev` handles. -/
def statement (ev : Evaluator) (env : Environment) (st : Statement) : Eval Flow :=
  match Entries.get? st.kind env.handlers with
  | some handler => ev.handle env handler st
  | none => Run.fail (.unrecognizedInstruction st.kind st.line)

end Guion.Evaluator
