/-
The kinds of values and their names.

A kind has one name in the language; `estructura` is a second name of the
kind `diccionario`.
-/

namespace Guion

inductive Kind where
  | bit
  | boolean
  | integer
  | real
  | decimal
  | character
  | text
  | string
  | complex
  | date
  | time
  | duration
  | list
  | matrix
  | dictionary
  | object
  | pointer
  deriving DecidableEq, Inhabited

namespace Kind

def all : List Kind :=
  [.bit, .boolean, .integer, .real, .decimal, .character, .text, .string, .complex, .date, .time,
    .duration, .list, .matrix, .dictionary, .object, .pointer]

def name : Kind → String
  | .bit => "bit"
  | .boolean => "booleano"
  | .integer => "entero"
  | .real => "real"
  | .decimal => "decimal"
  | .character => "caracter"
  | .text => "texto"
  | .string => "cadena"
  | .complex => "complejo"
  | .date => "fecha"
  | .time => "hora"
  | .duration => "tiempo"
  | .list => "lista"
  | .matrix => "matriz"
  | .dictionary => "diccionario"
  | .object => "objeto"
  | .pointer => "puntero"

/-- The kind that a type name stands for. -/
def ofName? (name : String) : Option Kind :=
  if name = "estructura" then some .dictionary else all.find? fun kind => kind.name = name

/-- The kinds that a matrix may hold. -/
def isNumeric : Kind → Bool
  | .integer | .real | .decimal | .complex | .bit => true
  | _ => false

end Kind
end Guion
