/-
The evaluator, with its recursion left open.

An `Evaluator` says how expressions are evaluated, statements executed and
programs invoked. The rules of the language are written as functions of an
evaluator that handles the parts; `Evaluator.within`, at the end of the
chain of modules, ties the knot for a given depth. A fact about all runs is
proved once for the rules, from the same fact about the parts.
-/
import Guion.Operator.Access
import Guion.Run.State

namespace Guion

/-- How the parts of a program are handled. -/
structure Evaluator where
  /-- How many passes a loop may make. -/
  passes : Nat
  eval : Environment → Expr → Eval Value
  exec : Environment → Statement → Eval Flow
  /-- Runs a sub-program for the program at a path and at a depth of
  invocations. -/
  invoke : Environment → Option String → Nat → Invocation → Run ProgramError Unit

namespace Evaluator

/-- The evaluator that handles nothing. -/
def exhausted : Evaluator where
  passes := 0
  eval _ _ := throw .outOfFuel
  exec _ _ := throw .outOfFuel
  invoke _ _ _ _ := throw .outOfFuel

/-- Evaluates expressions from left to right. -/
def evalAll (ev : Evaluator) (env : Environment) : List Expr → Eval (List Value)
  | [] => pure []
  | e :: rest => do
    let v ← ev.eval env e
    let vs ← ev.evalAll env rest
    return v :: vs

/-- Evaluates the entries of a dictionary in order; of several under one key
the last one counts. -/
def evalEntries (ev : Evaluator) (env : Environment) (entries : Entries Value) :
    List (Expr × Expr) → Eval (Entries Value)
  | [] => pure entries
  | (key, value) :: rest => do
    let k ← ev.eval env key
    let v ← ev.eval env value
    ev.evalEntries env (Entries.insert k.textForm v entries) rest

/-- Evaluates the indexes of a path. -/
def evalKeys (ev : Evaluator) (env : Environment) : List Accessor → Eval (List Operator.Key)
  | [] => pure []
  | .index e :: rest => do
    let v ← ev.eval env e
    let keys ← ev.evalKeys env rest
    return .index v :: keys
  | .field name :: rest => do
    let keys ← ev.evalKeys env rest
    return .field name :: keys

/-- An initial value: a bare name that nothing is bound to stands for itself as
text. -/
def initializer (ev : Evaluator) (env : Environment) (e : Expr) : Eval Value := do
  match e with
  | .variable name _ =>
    match (← get).lookup name with
    | some value => return value
    | none => return .string name
  | _ => ev.eval env e

/-- A condition must have a truth value. -/
def condition (ev : Evaluator) (env : Environment) (e : Expr) : Eval Bool := do
  let v ← ev.eval env e
  match v.toBoolean with
  | .ok b => return b
  | .error _ => Run.fail (.expectedBoolean v.display e.line)

/-- Assigns to a name, to the end of a path, or to the variable that a pointer
names. The root of a path is read before its indexes are evaluated. -/
def assign (ev : Evaluator) (env : Environment) (target : AssignTarget) (value : Value)
    (line : Nat) : Eval Unit := do
  match target with
  | .variable name => Run.update (·.assignVariable name value line)
  | .path root steps =>
    let s ← get
    if Entries.contains root s.constants then Run.fail (.assignmentToConstant root line)
    match s.lookup root with
    | none => Run.fail (.unknownIdentifier root line)
    | some current =>
      let keys ← ev.evalKeys env steps
      let stored ← Run.ofExcept (Operator.storeAt current keys value line)
      Run.update (·.assignVariable root stored line)
  | .deref pointer =>
    match ← ev.eval env pointer with
    | .namedPointer name => Run.update (·.assignVariable name value line)
    | .null | .nullPointer => Run.fail (.nullPointer line)
    | .valuePointer _ => Run.fail (.typeMismatch "el puntero no apunta a una variable" line)
    | v => Run.fail (.notAPointer v.display line)

/-- Writes the result of a function that extends its first argument back to the
place that the argument was read from, if it was one. -/
def writeBack (ev : Evaluator) (env : Environment) (place : Option AssignTarget) (result : Value)
    (line : Nat) : Eval Unit :=
  match place with
  | some target => ev.assign env target result line
  | none => pure ()

end Evaluator
end Guion
