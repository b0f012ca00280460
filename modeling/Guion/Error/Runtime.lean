/-
What can go wrong while a program runs.

A `RegistryError` comes from the symbols and types that all programs of a
session share. A `RuntimeError` stops a program and carries the line of the
statement or expression. A `ProgramError` is what a whole run ends with; a
sub-program's own error travels inside the caller's as `subProgram`.
-/
import Guion.Error.Conversion
import Guion.Error.Parse

namespace Guion

inductive RegistryError where
  | alreadyExists (name : String)
  | notFound (name : String)
  | noSuchConstructor (typeName : String)
  | conversion (cause : ConversionError)
  deriving DecidableEq, Inhabited

def RegistryError.message : RegistryError → String
  | .alreadyExists name => s!"la variable '{name}' ya existe"
  | .notFound name => s!"la variable '{name}' no existe"
  | .noSuchConstructor typeName => s!"no hay constructor para el tipo '{typeName}'"
  | .conversion cause => cause.message

mutual

inductive RuntimeError where
  | unknownIdentifier (name : String) (line : Nat)
  | unrecognizedInstruction (name : String) (line : Nat)
  | unknownFunction (name : String) (line : Nat)
  | divisionByZero (line : Nat)
  | typeMismatch (details : String) (line : Nat)
  | expectedBoolean (found : String) (line : Nat)
  | notAPointer (found : String) (line : Nat)
  | nullPointer (line : Nat)
  | nonFiniteResult (function : String) (line : Nat)
  | zeroStep (line : Nat)
  | invalidRangeBound (details : String) (line : Nat)
  | registry (cause : RegistryError) (line : Nat)
  | conversion (cause : ConversionError) (line : Nat)
  | constantRedefinition (name : String) (line : Nat)
  | assignmentToConstant (name : String) (line : Nat)
  | functionAlreadyDefined (name : String) (line : Nat)
  | builtinRedefinition (name : String) (line : Nat)
  | argumentCountMismatch (name expected : String) (found line : Nat)
  | invalidArgument (name details : String) (line : Nat)
  | indexOutOfBounds (index : Int64) (length line : Nat)
  | keyNotFound (key : String) (line : Nat)
  | notIndexable (found : String) (line : Nat)
  | breakOutsideLoop (line : Nat)
  | nestedInvocation (line : Nat)
  | subProgram (cause : ProgramError) (line : Nat)
  | recursionLimit (limit line : Nat)
  | assertionFailed (line : Nat)
  | overflow (line : Nat)
  | inputOutput (path reason : String) (line : Nat)

inductive ProgramError where
  | parse (errors : List ParseError)
  | runtime (cause : RuntimeError)
  | inputOutput (path reason : String)
  | config (path details : String)
  | programNotFound (path : String)
  | invocationDepth (limit : Nat)

end

instance : Inhabited RuntimeError := ⟨.divisionByZero 0⟩

mutual

def RuntimeError.message : RuntimeError → String
  | .unknownIdentifier name line => s!"línea {line}: identificador desconocido '{name}'"
  | .unrecognizedInstruction name line => s!"línea {line}: instrucción no reconocida '{name}'"
  | .unknownFunction name line => s!"línea {line}: función desconocida '{name}'"
  | .divisionByZero line => s!"línea {line}: división por cero"
  | .typeMismatch details line => s!"línea {line}: tipos incompatibles: {details}"
  | .expectedBoolean found line =>
    s!"línea {line}: se esperaba un booleano, se encontró '{found}'"
  | .notAPointer found line => s!"línea {line}: '{found}' no es un puntero"
  | .nullPointer line => s!"línea {line}: puntero nulo"
  | .nonFiniteResult function line =>
    s!"línea {line}: '{function}' produjo un resultado no finito"
  | .zeroStep line => s!"línea {line}: el incremento del ciclo 'para' es cero"
  | .invalidRangeBound details line => s!"línea {line}: límite de rango inválido: {details}"
  | .registry cause line => s!"línea {line}: " ++ cause.message
  | .conversion cause line => s!"línea {line}: " ++ cause.message
  | .constantRedefinition name line => s!"línea {line}: la constante '{name}' ya fue declarada"
  | .assignmentToConstant name line =>
    s!"línea {line}: no se puede asignar a la constante '{name}'"
  | .functionAlreadyDefined name line => s!"línea {line}: la función '{name}' ya está definida"
  | .builtinRedefinition name line =>
    s!"línea {line}: no se puede redefinir la función integrada '{name}'"
  | .argumentCountMismatch name expected found line =>
    s!"línea {line}: '{name}' esperaba {expected} argumento(s), recibió {found}"
  | .invalidArgument name details line =>
    s!"línea {line}: argumento inválido para '{name}': {details}"
  | .indexOutOfBounds index length line =>
    s!"línea {line}: índice {index} fuera de rango (longitud {length})"
  | .keyNotFound key line => s!"línea {line}: la clave '{key}' no existe"
  | .notIndexable found line => s!"línea {line}: '{found}' no se puede indexar"
  | .breakOutsideLoop line => s!"línea {line}: 'rompe' fuera de un ciclo"
  | .nestedInvocation line =>
    s!"línea {line}: 'ejecutar' no está permitido dentro de una función"
  | .subProgram cause _ => cause.message
  | .recursionLimit limit line =>
    s!"línea {line}: se excedió la profundidad máxima de llamadas ({limit})"
  | .assertionFailed line => s!"línea {line}: la afirmación falló"
  | .overflow line => s!"línea {line}: desbordamiento aritmético"
  | .inputOutput path reason line => s!"línea {line}: error de E/S en '{path}': {reason}"

def ProgramError.message : ProgramError → String
  | .parse errors => ParseError.messages errors
  | .runtime cause => cause.message
  | .inputOutput path reason => s!"no se pudo leer '{path}': {reason}"
  | .config path details => s!"configuración inválida en '{path}': {details}"
  | .programNotFound path => s!"no se encontró el subprograma '{path}'"
  | .invocationDepth limit =>
    s!"se excedió la profundidad máxima de subprogramas ({limit})"

end

/-- The error of a run that a runtime error ended. A failed sub-program shows
as its own error, however deeply its invocation was nested. -/
def ProgramError.ofRuntime : RuntimeError → ProgramError
  | .subProgram cause _ => cause
  | e => .runtime e

end Guion
