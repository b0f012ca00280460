/-
The executable. The command is run over the files known so far; each time it
asks for another path, that path is looked up and the command is run again.
-/
import Guion.CommandLine

namespace Guion

/-- What stands at a path that the system could not read. -/
def answerOfError : IO.Error → FileAnswer
  | .noFileOrDirectory .. => .error .notFound
  | .inappropriateType _ code _ => if code = 21 then .ok .directory else .error .notADirectory
  | e => .error (.other (toString e))

/-- Looks a path up. -/
def lookUp (path : String) : IO FileAnswer := do
  match Files.fault? path with
  | some fault => return .error fault
  | none =>
    try
      return .ok (.file (← IO.FS.readBinFile path))
    catch e => return answerOfError e

/-- Runs a command line over the files known so far. -/
partial def runWith (known : List (String × FileAnswer)) (arguments : List String) :
    IO CommandLine.Report := do
  match CommandLine.run ⟨fun path => List.lookup path known⟩ arguments with
  | .ok report => return report
  | .error path =>
    let answer ← lookUp path
    runWith ((path, answer) :: known) arguments

end Guion

def main (arguments : List String) : IO UInt32 := do
  let report ← Guion.runWith [] arguments
  (← IO.getStdout).putStr report.output
  (← IO.getStderr).putStr report.errors
  return report.exitCode.toUInt32
