/-
The configuration of a session, read from a JSON document.

Every field may be missing. The document is an object, in which no other
field and no repeated one is allowed, or the list of the fields in their
order, from which the last ones may be missing.
-/
import Guion.Error.Runtime
import Guion.Json.Reader
import Guion.Run.Files
import Guion.Value.Json

namespace Guion

structure Config where
  /-- How much is logged. -/
  verbosity : Nat := 0
  /-- Whether programs run in spite of lines that cannot be read. -/
  tolerant : Bool := false
  /-- Where sub-programs are looked for. -/
  searchPaths : List String := []
  /-- The globals that a session starts with. -/
  presets : Entries Json := []

namespace Config

/-- The largest verbosity. -/
def maxVerbosity : Nat := 4

/-- The least severe messages that a verbosity lets through. -/
def level : Nat → String
  | 0 => "warn"
  | 1 => "info"
  | 2 => "debug"
  | _ => "trace"

/-- The names of the fields, in their order. -/
def fields : List String := ["verbosidad", "tolerante", "rutas", "variables"]

/-- Reads a verbosity: an integer of eight bits. -/
def verbosity? : Json → Option Nat
  | .integer n => if 0 ≤ n ∧ n < 256 then some n.toNat else none
  | _ => none

def flag? : Json → Option Bool
  | .bool b => some b
  | _ => none

def string? : Json → Option String
  | .string s => some s
  | _ => none

def strings? : Json → Option (List String)
  | .array items => items.mapM string?
  | _ => none

def members? : Json → Option (Entries Json)
  | .object members => some members
  | _ => none

/-- The configuration with a field set. -/
def set? (config : Config) (field : String) (json : Json) : Option Config :=
  match field with
  | "verbosidad" => (verbosity? json).map fun n => { config with verbosity := n }
  | "tolerante" => (flag? json).map fun b => { config with tolerant := b }
  | "rutas" => (strings? json).map fun paths => { config with searchPaths := paths }
  | "variables" => (members? json).map fun members => { config with presets := members }
  | _ => none

/-- The configuration with fields set one after the other. -/
def setAll? (config : Config) : List (String × Json) → Option Config
  | [] => some config
  | (field, json) :: rest => (config.set? field json).bind fun config => config.setAll? rest

/-- Reads a configuration. -/
def read? (text : String) : Option Config :=
  match Json.readMembers? text with
  | some members =>
    if (members.map (·.1)).Nodup then setAll? {} members else none
  | none =>
    match Json.read? text with
    | some (.array items) =>
      if items.length ≤ fields.length then setAll? {} (fields.zip items) else none
    | _ => none

/-- The globals that a session starts with. -/
def globals (config : Config) : Entries Value := Entries.mapValues Value.ofJson config.presets

/-- The configuration in the file at a path. -/
def ofAnswer (path : String) (answer : FileAnswer) : Except ProgramError Config :=
  match answer.text with
  | .error e => .error (.config path e.message)
  | .ok text =>
    match read? text with
    | none => .error (.config path "no es una configuración válida")
    | some config =>
      if config.verbosity ≤ maxVerbosity then .ok config
      else
        .error (.config path
          s!"verbosidad {config.verbosity} fuera de rango (0 a {maxVerbosity})")

end Config
end Guion
