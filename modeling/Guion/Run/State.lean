/-
The state of a running program.

`World` is what all programs of a session share: the registry, the globals
and the output. `Context` belongs to one program: its scopes, constants and
functions, and how deeply calls and loops are nested. The scopes are listed
from the innermost to the outermost one, the frame of the program or of the
function. `Environment` does not change during a run.

A computation ends with a result or a `Halt`, and with a state in either
case: what was done before an error stays done.
-/
import Guion.Error.Runtime
import Guion.Registry
import Guion.Run.Files
import Guion.Syntax.Statement

namespace Guion

/-- How many external iterators were opened and how many released. -/
structure Tally where
  opened : Nat := 0
  released : Nat := 0
  deriving DecidableEq, Inhabited

/-- What all programs of a session share. -/
structure World where
  registry : Registry := .withBaseTypes
  globals : Entries Value := []
  /-- The lines printed so far, the latest first. -/
  output : List String := []
  /-- Iterators over the streams of objects. -/
  streams : Tally := {}
  /-- Iterators over the lines of files. -/
  readings : Tally := {}
  /-- An identity that no object has yet. -/
  nextIdentity : Nat := 0

/-- The bindings of one block. -/
abbrev Scope := Entries Value

/-- What belongs to one program. -/
structure Context where
  /-- Open scopes, the innermost first. -/
  scopes : List Scope := [[]]
  constants : Entries Value := []
  functions : Entries FunctionDef := []
  /-- How many calls of user functions are open. -/
  callDepth : Nat := 0
  /-- How many loops are open in the current function. -/
  loopDepth : Nat := 0

structure State extends World, Context

/-- A request to run another program. -/
structure Invocation where
  path : String
  arguments : List Value
  line : Nat

/-- How a statement ends. -/
inductive Flow where
  /-- With the next statement. -/
  | proceed
  /-- With the end of the loop around it. -/
  | leaveLoop
  /-- With the end of the function or program. -/
  | result (value : Value)
  /-- With a request to run another program. -/
  | invoke (invocation : Invocation)

/-- What runs a program that an inner block asks for. -/
inductive Invoker where
  /-- Nothing: the request goes to whoever runs the statements. -/
  | none
  /-- A line of output that records the request. -/
  | recorder
  /-- A failure: no program is found. -/
  | refuser
  /-- The programs of the session, seen from the program at a path and at a
  depth of invocations. -/
  | programs (origin : Option String) (depth : Nat)

/-- What executes a kind of statement. -/
inductive Handler where
  | declare
  | assign
  | conditional
  | whileLoop
  | forLoop
  | defineFunction
  | returnValue
  | breakLoop
  | block
  | call
  | invoke
  | expression
  /-- Does nothing, whatever the statement. -/
  | inert
  /-- Prints a line, whatever the statement. -/
  | announce (text : String)
  deriving DecidableEq

/-- The handlers of the language by the kind of statement. -/
def Handler.builtin : Entries Handler :=
  [("asignar", .assign), ("bloque", .block), ("constante", .declare), ("declarar", .declare),
    ("ejecutar", .invoke), ("error", .inert), ("expresion", .expression),
    ("funcion", .defineFunction), ("global", .declare), ("llamada", .call),
    ("mientras", .whileLoop), ("para", .forLoop), ("regresa", .returnValue),
    ("rompe", .breakLoop), ("si_es", .conditional)]

/-- What does not change during a run. -/
structure Environment where
  handlers : Entries Handler := Handler.builtin
  invoker : Invoker := .none
  /-- Whether lines that cannot be read are passed over. -/
  tolerant : Bool := false
  /-- Where sub-programs are looked for, after the directory of their caller. -/
  searchPaths : List String := []
  files : Files := .ofList []

/-- Why a computation ends without a result. -/
inductive Halt (ε : Type) where
  | failure (cause : ε)
  /-- The allowed depth of recursion was not enough. -/
  | outOfFuel
  /-- A path was asked for about which nothing is known. -/
  | unread (path : String)

def Halt.map (f : ε → δ) : Halt ε → Halt δ
  | .failure cause => .failure (f cause)
  | .outOfFuel => .outOfFuel
  | .unread path => .unread path

/-- A computation that may fail with an error of type `ε`. -/
abbrev Run (ε α : Type) := EStateM (Halt ε) State α

/-- A computation inside a program. -/
abbrev Eval (α : Type) := Run RuntimeError α

namespace Run

/-- Fails. -/
def fail (cause : ε) : Run ε α := throw (.failure cause)

/-- The result of a computation without effects. -/
def ofExcept : Except ε α → Run ε α
  | .ok a => pure a
  | .error cause => fail cause

/-- What can be read off the state. -/
def read (f : State → Except ε α) : Run ε α := do ofExcept (f (← get))

/-- A change of the state that may fail; then nothing changes. -/
def update (f : State → Except ε State) : Run ε Unit := do set (← read f)

/-- The same computation with its error reworded. -/
def mapError (f : ε → δ) (run : Run ε α) : Run δ α := fun s =>
  match run s with
  | .ok a t => .ok a t
  | .error halt t => .error (halt.map f) t

/-- Runs a computation in a state prepared by `enter`; `leave` makes the final
state from the state before and the state after, however the computation
ends. -/
def bracket (enter : State → State) (leave : State → State → State) (run : Run ε α) :
    Run ε α := fun s =>
  match run (enter s) with
  | .ok a t => .ok a (leave s t)
  | .error halt t => .error halt (leave s t)

/-- Runs a computation in another context and gives the final one. The context
around it comes back, however the computation ends. -/
def inContext (context : Context) (run : Run ε Unit) : Run ε Context := fun s =>
  match run { s with toContext := context } with
  | .ok _ t => .ok t.toContext { t with toContext := s.toContext }
  | .error halt t => .error halt { t with toContext := s.toContext }

/-- What stands at a path. -/
def findFile (env : Environment) (path : String) : Run ε FileAnswer :=
  match env.files.find? path with
  | some answer => pure answer
  | none => throw (.unread path)

end Run

namespace State

/-- Prints one line. -/
def print (line : String) (s : State) : State := { s with output := line :: s.output }

def inFunction (s : State) : Bool := 0 < s.callDepth

/-! ## Reading names -/

/-- The value under a name in the innermost scope that has it. -/
def local? (name : String) : List Scope → Option Value
  | [] => none
  | scope :: outer =>
    match Entries.get? name scope with
    | some value => some value
    | none => local? name outer

/-- The value of a name: constants come first, then the scopes from the inside
out, the globals, and the registry. -/
def lookup (name : String) (s : State) : Option Value :=
  match Entries.get? name s.constants with
  | some value => some value
  | none =>
    match local? name s.scopes with
    | some value => some value
    | none =>
      match Entries.get? name s.globals with
      | some value => some value
      | none => s.registry.get? name

/-! ## Scopes -/

def pushScope (s : State) : State := { s with scopes := [] :: s.scopes }

/-- Closes the innermost scope, unless it is the only one. -/
def popScope (s : State) : State :=
  match s.scopes with
  | _ :: outer :: rest => { s with scopes := outer :: rest }
  | _ => s

/-- Binds a name in the innermost scope. -/
def defineLocal (name : String) (value : Value) (s : State) : State :=
  match s.scopes with
  | scope :: outer => { s with scopes := Entries.insert name value scope :: outer }
  | [] => s

/-- Writes to a name in the innermost scope that has it. -/
def setLocal (name : String) (value : Value) : List Scope → List Scope
  | [] => []
  | scope :: outer =>
    if Entries.contains name scope then Entries.insert name value scope :: outer
    else scope :: setLocal name value outer

/-- Drops a name from the innermost scope that has it. -/
def eraseLocal (name : String) : List Scope → List Scope
  | [] => []
  | scope :: outer =>
    if Entries.contains name scope then Entries.erase name scope :: outer
    else scope :: eraseLocal name outer

/-- Binds a name in the outermost scope. -/
def defineInFrame (name : String) (value : Value) : List Scope → List Scope
  | [] => []
  | [frame] => [Entries.insert name value frame]
  | scope :: outer => scope :: defineInFrame name value outer

/-- Binds a loop variable: over the local of that name if there is one, else in
the innermost scope. The kind of the old value does not matter. -/
def bindLoopVariable (name : String) (value : Value) (s : State) : State :=
  match local? name s.scopes with
  | some _ => { s with scopes := setLocal name value s.scopes }
  | none => s.defineLocal name value

/-! ## Writing names -/

/-- The registry after a program-level variable was written: a symbol of the
same name follows it. -/
def published (name : String) (value : Value) (s : State) : Registry :=
  if !s.inFunction && s.registry.contains name then s.registry.put name value else s.registry

/-- Assigns to a name. An existing variable keeps its kind; a name that nothing
is bound to becomes a variable of the frame. -/
def assignVariable (name : String) (value : Value) (line : Nat) (s : State) :
    Except RuntimeError State :=
  if Entries.contains name s.constants then .error (.assignmentToConstant name line)
  else
    match local? name s.scopes with
    | some slot =>
      match slot.overwrite value with
      | .ok stored =>
        .ok { s with scopes := setLocal name stored s.scopes, registry := s.published name stored }
      | .error e => .error (.conversion e line)
    | none =>
      match Entries.get? name s.globals with
      | some slot =>
        match slot.overwrite value with
        | .ok stored => .ok { s with globals := Entries.insert name stored s.globals }
        | .error e => .error (.conversion e line)
      | none =>
        if s.registry.contains name then
          match s.registry.modify name value with
          | .ok (_, registry) => .ok { s with registry := registry }
          | .error e => .error (.registry e line)
        else .ok { s with scopes := defineInFrame name value s.scopes }

/-- Removes a name from the innermost scope that has it, from the registry and
from the globals, and gives its value. -/
def delete (name : String) (line : Nat) (s : State) : Except RuntimeError (Value × State) :=
  if Entries.contains name s.constants then .error (.assignmentToConstant name line)
  else
    let found : Option Value :=
      match local? name s.scopes with
      | some value => some value
      | none =>
        match s.registry.get? name with
        | some value => some value
        | none => Entries.get? name s.globals
    match found with
    | none => .error (.unknownIdentifier name line)
    | some value =>
      .ok (value,
        { s with
          scopes := eraseLocal name s.scopes
          registry := { s.registry with symbols := Entries.erase name s.registry.symbols }
          globals := Entries.erase name s.globals })

/-! ## Pointers -/

/-- The value that a pointer points to. -/
def deref (v : Value) (line : Nat) (s : State) : Except RuntimeError Value :=
  match v with
  | .namedPointer name =>
    match s.lookup name with
    | some value => .ok value
    | none => .error (.unknownIdentifier name line)
  | .valuePointer target => .ok target
  | .nullPointer | .null => .error (.nullPointer line)
  | _ => .error (.notAPointer v.display line)

/-- Follows at most so many pointers from a value. -/
def followWithin (s : State) (line : Nat) : Nat → Value → Except RuntimeError Value
  | 0, _ => .error (.typeMismatch "cadena de punteros demasiado larga" line)
  | count + 1, v =>
    if v.isPointer then
      match s.deref v line with
      | .ok target => followWithin s line count target
      | .error e => .error e
    else .ok v

/-- The largest number of open calls, and of pointers in a chain. -/
def maxCallDepth : Nat := 256

/-- The value at the end of a chain of pointers. -/
def follow (v : Value) (line : Nat) (s : State) : Except RuntimeError Value :=
  followWithin s line maxCallDepth v

end State
end Guion
