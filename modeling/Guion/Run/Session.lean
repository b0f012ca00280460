/-
A session: programs that run one after the other in one world.

What a program leaves in the registry and in the globals is there for the
next one, also when the program failed. The bindings that a program reports
at its end are what its last statement could read.
-/
import Guion.Config
import Guion.Run.Program

namespace Guion

structure Session where
  env : Environment
  world : World

/-- What a program ends with: its visible bindings in their displayed form, or
why it did not end. -/
abbrev Outcome := Except (Halt ProgramError) (Entries String)

/-- The names that are visible at the end of a program, with their values. -/
def State.visible (context : Context) (s : State) : Entries Value :=
  Entries.override (Entries.override s.registry.symbols s.globals) context.bindings

namespace Session

/-- A session with a configuration, over some files. -/
def start (config : Config) (files : Files) : Session where
  env := { tolerant := config.tolerant, searchPaths := config.searchPaths, files := files }
  world := { globals := config.globals }

/-- The bindings that a run of a program reports. -/
def report (run : Run ProgramError Context) : Run ProgramError (Entries String) := do
  let context ← run
  let s ← get
  return Entries.mapValues Value.display (s.visible context)

/-- Runs a computation in the world of the session. -/
def run (session : Session) (computation : Run ProgramError (Entries String)) :
    Outcome × Session :=
  match computation { toWorld := session.world, toContext := {} } with
  | .ok bindings s => (.ok bindings, { session with world := s.toWorld })
  | .error halt s => (.error halt, { session with world := s.toWorld })

/-- Runs a program text. -/
def runSource (session : Session) (source : String) (arguments : List Value) :
    Outcome × Session :=
  session.run (report (Evaluator.standard.program session.env source none arguments 0))

/-- Runs the program in a file. -/
def runFile (session : Session) (path : String) (arguments : List Value) : Outcome × Session :=
  session.run (report do
    let source ← session.env.readProgram path
    Evaluator.standard.program session.env source (some path) arguments 0)

/-- The lines printed so far. -/
def lines (session : Session) : List String := session.world.output.reverse

/-- The session with nothing printed yet. -/
def clearOutput (session : Session) : Session :=
  { session with world := { session.world with output := [] } }

end Session
end Guion
