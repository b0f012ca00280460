/-
The built-in functions by name.

A function that needs its arguments only is `PureFunction`; the others need
the state. A method is a function under the name `type.method`, with the
receiver as its first argument. Every type has a conversion function.
-/
import Guion.Library.Collections
import Guion.Library.Math
import Guion.Registry

namespace Guion

/-- How many arguments a function takes. -/
inductive Arity where
  | exactly (n : Nat)
  | oneOf (counts : List Nat)
  | atLeast (n : Nat)
  | any
  deriving DecidableEq

namespace Arity

def accepts : Arity → Nat → Bool
  | .exactly m, n => n == m
  | .oneOf counts, n => counts.contains n
  | .atLeast m, n => m ≤ n
  | .any, _ => true

/-- The expected number of arguments in messages. -/
def display : Arity → String
  | .exactly n => toString n
  | .oneOf counts => String.intercalate " o " (counts.map toString)
  | .atLeast n => s!"al menos {n}"
  | .any => "cualquier cantidad de"

end Arity

/-- Functions that need their arguments only. -/
inductive PureFunction where
  | typeOf
  | length
  | assertTrue
  | json
  | append
  | keys
  | values
  | contains
  | sort
  | range
  | upper
  | lower
  | trim
  | split
  | absolute
  | squareRoot
  | power
  | round
  | floor
  | ceiling
  | maximum
  | minimum
  | sine
  | cosine
  | logarithm
  deriving DecidableEq

/-- Built-in functions. -/
inductive Builtin where
  | pure (function : PureFunction)
  | print
  | isBound
  | delete
  | openFile
  | convert (typeName : String)
  deriving DecidableEq

def PureFunction.arity : PureFunction → Arity
  | .append => .atLeast 2
  | .contains | .power => .exactly 2
  | .split | .round | .logarithm => .oneOf [1, 2]
  | .range => .oneOf [1, 2, 3]
  | .maximum | .minimum => .atLeast 1
  | _ => .exactly 1

def Builtin.arity : Builtin → Arity
  | .pure function => function.arity
  | .print => .any
  | _ => .exactly 1

namespace Library

/-- The functions that are not methods or conversions. -/
def functions : List (String × Builtin) :=
  [("imprimir", .print), ("tipo", .pure .typeOf), ("longitud", .pure .length),
    ("afirmar", .pure .assertTrue), ("a_json", .pure .json), ("existe", .isBound),
    ("eliminar", .delete), ("agregar", .pure .append), ("claves", .pure .keys),
    ("valores", .pure .values), ("contiene", .pure .contains), ("ordenar", .pure .sort),
    ("rango", .pure .range), ("mayusculas", .pure .upper), ("minusculas", .pure .lower),
    ("recortar", .pure .trim), ("dividir", .pure .split), ("abrir", .openFile),
    ("absoluto", .pure .absolute), ("raiz", .pure .squareRoot), ("potencia", .pure .power),
    ("redondear", .pure .round), ("piso", .pure .floor), ("techo", .pure .ceiling),
    ("maximo", .pure .maximum), ("minimo", .pure .minimum), ("seno", .pure .sine),
    ("coseno", .pure .cosine), ("logaritmo", .pure .logarithm)]

/-- The conversion function of every built-in type. -/
def conversions : List (String × Builtin) :=
  Registry.baseTypes.map fun (name, _) => ("convertir_" ++ name, .convert name)

/-- The methods, with the types that have them. -/
def methodTypes : List (String × Builtin × List String) :=
  [("longitud", .pure .length, ["texto", "cadena", "lista", "matriz", "diccionario"]),
    ("mayusculas", .pure .upper, ["texto", "cadena", "caracter"]),
    ("minusculas", .pure .lower, ["texto", "cadena", "caracter"]),
    ("recortar", .pure .trim, ["texto", "cadena"]),
    ("dividir", .pure .split, ["texto", "cadena"]),
    ("contiene", .pure .contains, ["texto", "cadena", "lista", "diccionario"]),
    ("agregar", .pure .append, ["lista"]),
    ("ordenar", .pure .sort, ["lista"]),
    ("claves", .pure .keys, ["diccionario"]),
    ("valores", .pure .values, ["diccionario"]),
    ("a_json", .pure .json, ["lista", "diccionario", "matriz"])]

/-- Every method under its full name. -/
def methods : List (String × Builtin) :=
  methodTypes.flatMap fun (name, builtin, types) =>
    types.map fun typeName => (typeName ++ "." ++ name, builtin)

/-- All built-in functions by name. -/
def table : Entries Builtin := Entries.ofList (functions ++ conversions ++ methods)

/-- Whether a name is the name of a built-in function. -/
def isBuiltin (name : String) : Bool := Entries.contains name table

/-- The functions whose result is written back to where their first argument
was read from. -/
def isMutator (name : String) : Bool := name == "agregar"

end Library

/-- Applies a function to its arguments; `name` is what it was called by. -/
def PureFunction.apply (function : PureFunction) (name : String) (arguments : List Value)
    (line : Nat) : Except RuntimeError Value :=
  let mismatch : Except RuntimeError Value :=
    .error (.argumentCountMismatch name function.arity.display arguments.length line)
  match function, arguments with
  | .typeOf, [v] => .ok (Library.typeOf v)
  | .length, [v] => Library.length v line
  | .assertTrue, [v] => Library.assertTrue v line
  | .json, [v] => .ok (Library.json v)
  | .append, v :: more => Library.append v more line
  | .keys, [v] => Library.keys v line
  | .values, [v] => Library.values v line
  | .contains, [v, needle] => Library.contains v needle line
  | .sort, [v] => Library.sort v line
  | .range, _ => do
    match ← arguments.mapM (Operator.integerOf line) with
    | [stop] => Library.range 0 stop 1 line
    | [start, stop] => Library.range start stop 1 line
    | [start, stop, step] => Library.range start stop step line
    | _ => mismatch
  | .upper, [v] => Library.upper v line
  | .lower, [v] => Library.lower v line
  | .trim, [v] => Library.trim v line
  | .split, [v] => Library.splitWords v line
  | .split, [v, separator] => Library.split v separator line
  | .absolute, [v] => Library.absolute v line
  | .squareRoot, [v] => Library.squareRoot v line
  | .power, [base, exponent] => Library.power base exponent line
  | .round, [v] => Library.roundWhole v line
  | .round, [v, places] => Library.roundPlaces v places line
  | .floor, [v] => Library.floorWhole v line
  | .ceiling, [v] => Library.ceilingWhole v line
  | .maximum, _ => Library.extreme "maximo" .gt arguments line
  | .minimum, _ => Library.extreme "minimo" .lt arguments line
  | .sine, [v] => Library.sine v line
  | .cosine, [v] => Library.cosine v line
  | .logarithm, [v] => Library.naturalLogarithm v line
  | .logarithm, [v, base] => Library.logarithm v base line
  | _, _ => mismatch

end Guion
