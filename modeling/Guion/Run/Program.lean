/-
Programs and the programs that they invoke.

A program runs in a context of its own and in the world of its caller. The
requests of its top-level statements are served directly, those of inner
blocks by its invoker. What a sub-program defined at its top level becomes
global when it ends.
-/
import Guion.Parse.Program
import Guion.Run.Path
import Guion.Run.Statement

namespace Guion

/-- How deeply programs may invoke each other. -/
def maxInvocationDepth : Nat := 16

/-- The name under which a program finds its arguments. -/
def argumentsName : String := "argumentos"

namespace Context

/-- The context that a program starts in. -/
def initial (arguments : List Value) : Context :=
  { scopes := [[(argumentsName, .list arguments)]] }

/-- The outermost scope. -/
def frame (context : Context) : Scope := context.scopes.getLastD []

/-- What a program defined itself: the variables of its frame, and its constants
over them. -/
def bindings (context : Context) : Entries Value :=
  Entries.override context.frame context.constants

end Context

namespace Environment

/-- The places where a program may be found, in the order of the search. -/
def candidates (env : Environment) (origin : Option String) (requested : String) : List String :=
  let base := (origin.bind Path.parent?).getD ""
  (base :: env.searchPaths).map (Path.join · requested)

/-- The first path at which there is a file. -/
def firstFile (env : Environment) : List String → Run ε (Option String)
  | [] => pure none
  | path :: rest => do
    if (← Run.findFile env path).isFile then return some path else env.firstFile rest

/-- Finds the file of a program: an absolute path stands for itself; any other is
looked for beside the caller and in the search paths. -/
def locate (env : Environment) (origin : Option String) (requested : String) :
    Run ε (Option String) :=
  if Path.isAbsolute requested then env.firstFile [requested]
  else env.firstFile (env.candidates origin requested)

/-- The text of the program at a path. -/
def readProgram (env : Environment) (path : String) : Run ProgramError String := do
  match (← Run.findFile env path).text with
  | .ok source => return source
  | .error e => Run.fail (.inputOutput path e.message)

end Environment

namespace Evaluator

/-- Executes the top-level statements of a program. -/
def topLevel (ev : Evaluator) (env : Environment) (origin : Option String) (depth : Nat) :
    List Statement → Run ProgramError Unit
  | [] => pure ()
  | statement :: rest => do
    match ← Run.mapError ProgramError.ofRuntime (ev.exec env statement) with
    | .proceed | .leaveLoop => ev.topLevel env origin depth rest
    | .result _ => return ()
    | .invoke request =>
      ev.invoke env origin depth request
      ev.topLevel env origin depth rest

/-- The statements of a program text. Lines that cannot be read make the program
fail, unless they are tolerated. -/
def parseProgram (env : Environment) (source : String) : Run ProgramError Block := do
  let (program, errors) := Parse.program (← get).registry.typeNames source
  if errors.isEmpty || env.tolerant then return program else Run.fail (.parse errors)

/-- Runs a program text and gives the context that it ends in. -/
def program (ev : Evaluator) (env : Environment) (source : String) (origin : Option String)
    (arguments : List Value) (depth : Nat) : Run ProgramError Context := do
  let program ← parseProgram env source
  let inner := { env with invoker := .programs origin depth }
  Run.inContext (.initial arguments) (ev.topLevel inner origin depth program.statements)

/-- Serves a request of the program at a path and at a depth of invocations. -/
def invocation (ev : Evaluator) (env : Environment) (origin : Option String) (depth : Nat)
    (request : Invocation) : Run ProgramError Unit := do
  if maxInvocationDepth < depth + 1 then Run.fail (.invocationDepth maxInvocationDepth)
  match ← env.locate origin request.path with
  | none => Run.fail (.programNotFound request.path)
  | some path =>
    let source ← env.readProgram path
    let child ← ev.program env source (some path) request.arguments (depth + 1)
    let own := Entries.erase argumentsName child.bindings
    modify fun s => { s with globals := Entries.override s.globals own }

/-! ## The knot -/

/-- The evaluator of the language, for computations of a limited depth. More
depth never changes the answer of a computation that ends. -/
def within : Nat → Evaluator
  | 0 => exhausted
  | depth + 1 =>
    { passes := depth
      eval := fun env e => (within depth).expression env e
      exec := fun env st => (within depth).statement env st
      invoke := fun env origin level request =>
        (within depth).invocation env origin level request }

/-- The evaluator of the language, for computations of any practical depth. -/
def standard : Evaluator := within 0x4000_0000_0000_0000

end Evaluator
end Guion
