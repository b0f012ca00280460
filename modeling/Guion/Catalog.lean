/-
The numbered messages of the command line.

A template has placeholders, which are filled in order. What is left over on
either side is dropped.
-/
import Guion.Text.Pieces

namespace Guion.Catalog

/-- The templates by their codes. -/
def templates : List (Nat × String) :=
  [(1, "nepa \x7b\x7d"),
    (2, "nepa: intérprete de programas .script\nAutores: \x7b\x7d\nLicencia: \x7b\x7d"),
    (3, "uso: nepa [opciones] <programa> [argumentos...]"),
    (4, "falta el programa a ejecutar"),
    (5, "error: \x7b\x7d"),
    (10, "ejecutando '\x7b\x7d'"),
    (11, "'\x7b\x7d' terminó con \x7b\x7d variables"),
    (12, "subprograma '\x7b\x7d' invocado desde la línea \x7b\x7d"),
    (13, "configuración cargada de '\x7b\x7d'"),
    (20, "se ignoran \x7b\x7d errores de sintaxis")]

/-- The template of a code. -/
def template? (code : Nat) : Option String := templates.lookup code

/-- Puts arguments between pieces; a missing argument is empty. -/
def interleave : List (List Char) → List String → List Char
  | [], _ => []
  | [piece], _ => piece
  | piece :: rest, arguments =>
    piece ++ (arguments.headD "").toList ++ interleave rest arguments.tail

/-- The message of a code. -/
def message (code : Nat) (arguments : List String) : String :=
  match template? code with
  | some template =>
    String.ofList (interleave (Text.splitOn ['\x7b', '\x7d'] template.toList) arguments)
  | none => s!"[mensaje {code}]"

end Guion.Catalog
