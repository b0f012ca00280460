/-
The command line: which options there are, how arguments are read, and what
the program prints and answers.

Options may stand before the program and between the program and its first
argument; behind that everything is an argument. A double hyphen ends the
options. Between the program and its first argument an unknown option is an
argument. No option may be given twice.
-/
import Guion.Catalog
import Guion.Run.Session
import Guion.Value.Literal

namespace Guion.CommandLine

/-- Options without a value. -/
inductive Switch where
  | version
  | credits
  | usage
  /-- A verbosity, from 1 to 4. -/
  | verbosity (level : Nat)
  deriving DecidableEq

/-- The switches by their long names. -/
def switches : List (String × Switch) :=
  [("version", .version), ("creditos", .credits), ("ayuda", .usage), ("v", .verbosity 1),
    ("vv", .verbosity 2), ("vvv", .verbosity 3), ("vvvv", .verbosity 4)]

/-- The names of the option that gives the configuration file. -/
def configNames : List String := ["configuracion", "c"]

/-- The switch of a letter. -/
def shortSwitch? (c : Char) : Option Switch := if c = 'a' then some .usage else none

/-- What the arguments ask for. -/
structure Options where
  switches : List Switch := []
  config : Option String := none
  program : Option String := none
  arguments : List String := []

/-- What one argument is on its own. -/
inductive Word where
  | terminator
  | switches (given : List Switch)
  /-- The configuration option, with its value if that is attached. -/
  | config (value : Option String)
  | plain
  | invalid
  deriving DecidableEq

/-- The part before the first `=`, and the part behind it. -/
def splitAttached (text : List Char) : List Char × Option (List Char) :=
  match text.dropWhile (· != '=') with
  | _ :: value => (text.takeWhile (· != '='), some value)
  | [] => (text, none)

/-- Reads an argument behind two hyphens. -/
def longWord (lenient : Bool) (text : List Char) : Word :=
  let (name, value) := splitAttached text
  let name := String.ofList name
  if configNames.contains name then .config (value.map String.ofList)
  else
    match switches.lookup name, value with
    | some switch, none => .switches [switch]
    | some _, some _ => .invalid
    | none, _ => if lenient then .plain else .invalid

/-- Reads an argument behind one hyphen. -/
def shortWord (lenient : Bool) (letters : List Char) : Word :=
  match letters.mapM shortSwitch? with
  | some given => .switches given
  | none => if lenient then .plain else .invalid

/-- Reads an argument. When `lenient`, an unknown option is a plain argument. -/
def word (lenient : Bool) (argument : String) : Word :=
  match argument.toList with
  | ['-', '-'] => .terminator
  | '-' :: '-' :: text => longWord lenient text
  | ['-'] => .plain
  | '-' :: letters => shortWord lenient letters
  | _ => .plain

namespace Options

/-- Sets switches, none of them twice. -/
def addSwitches (options : Options) : List Switch → Option Options
  | [] => some options
  | switch :: rest =>
    if options.switches.contains switch then none
    else { options with switches := switch :: options.switches }.addSwitches rest

/-- Sets the configuration file, not twice and not to nothing. -/
def addConfig (options : Options) (path : String) : Option Options :=
  if options.config.isSome || path.isEmpty then none else some { options with config := some path }

/-- Takes arguments that no option is among. -/
def addPositionals (options : Options) (arguments : List String) : Option Options :=
  match options.program, arguments with
  | _, [] => some options
  | some _, _ => some { options with arguments := arguments }
  | none, path :: rest =>
    if path.isEmpty then none else some { options with program := some path, arguments := rest }

/-- Reads arguments over those read so far. -/
def readFrom (options : Options) : List String → Option Options
  | [] => some options
  | argument :: rest =>
    match word options.program.isSome argument with
    | .terminator => options.addPositionals rest
    | .switches given => (options.addSwitches given).bind (·.readFrom rest)
    | .config (some path) => (options.addConfig path).bind (·.readFrom rest)
    | .config none =>
      match rest with
      | path :: rest =>
        if word options.program.isSome path = .plain then
          (options.addConfig path).bind (·.readFrom rest)
        else none
      | [] => none
    | .plain =>
      match options.program with
      | some _ => some { options with arguments := argument :: rest }
      | none =>
        if argument.isEmpty then none else { options with program := some argument }.readFrom rest
    | .invalid => none

/-- Reads the arguments of a command line. -/
def read? (arguments : List String) : Option Options := readFrom {} arguments

end Options

/-- What a command ends with. -/
structure Report where
  exitCode : Nat
  output : String := ""
  errors : String := ""

/-- Texts as lines. -/
def asLines (texts : List String) : String := String.join (texts.map (· ++ "\n"))

/-- The answer to a command line that cannot be read. -/
def usageError : Report := { exitCode := 2, errors := asLines [Catalog.message 3 []] }

/-- Runs the program of the options with a configuration. -/
def runProgram (files : Files) (config : Config) (program : String) (arguments : List String) :
    Except String Report :=
  let session := Session.start config files
  let (outcome, session) := session.runFile program (arguments.map Value.readLiteral)
  let output := asLines session.lines
  match outcome with
  | .ok _ => .ok { exitCode := 0, output := output }
  | .error (.unread path) => .error path
  | .error .outOfFuel => .ok { exitCode := 1, output := output }
  | .error (.failure cause) =>
    .ok { exitCode := 1, output := output, errors := asLines [Catalog.message 5 [cause.message]] }

/-- The configuration that the options ask for. -/
def loadConfig (files : Files) (path : Option String) :
    Except String (Except ProgramError Config) :=
  match path with
  | none => .ok (.ok {})
  | some path =>
    match files.find? path with
    | some answer => .ok (Config.ofAnswer path answer)
    | none => .error path

/-- Does what the options ask for. -/
def execute (files : Files) (options : Options) : Except String Report :=
  let prints (text : String) : Report := { exitCode := 0, output := asLines [text] }
  if options.switches.contains .version then .ok (prints (Catalog.message 1 ["0.1.0"]))
  else if options.switches.contains .credits then
    .ok (prints (Catalog.message 2 ["", "MIT OR Apache-2.0"]))
  else if options.switches.contains .usage then .ok (prints (Catalog.message 3 []))
  else do
    match ← loadConfig files options.config with
    | .error cause =>
      return { exitCode := 1, errors := asLines [Catalog.message 5 [cause.message]] }
    | .ok config =>
      match options.program with
      | none =>
        return { exitCode := 1, errors := asLines [Catalog.message 4 [], Catalog.message 3 []] }
      | some program => runProgram files config program options.arguments

/-- Runs a command line. An error is a path about which `files` knows nothing. -/
def run (files : Files) (arguments : List String) : Except String Report :=
  match Options.read? arguments with
  | some options => execute files options
  | none => .ok usageError

end Guion.CommandLine
