/-
What can be wrong with a source line.

Every cause carries the number of the line that it was found on. A program
collects all of them; `ParseError.message` words one.
-/

namespace Guion

inductive ParseError where
  | irregularIndentation (width line : Nat)
  | unexpectedIndentation (expected found line : Nat)
  | unterminatedLiteral (line : Nat)
  | unknownCharacter (text : String) (line : Nat)
  | malformedDeclaration (details : String) (line : Nat)
  | unknownType (name : String) (line : Nat)
  | unexpectedToken (token : String) (line : Nat)
  | unexpectedEndOfLine (line : Nat)
  | expectedColon (header : String) (line : Nat)
  | emptyBlock (header : String) (line : Nat)
  | orphanBranch (keyword : String) (line : Nat)
  | literalTooLarge (line : Nat)
  deriving DecidableEq, Inhabited

namespace ParseError

/-- The line that the error refers to. -/
def line : ParseError → Nat
  | .irregularIndentation _ line
  | .unexpectedIndentation _ _ line
  | .unterminatedLiteral line
  | .unknownCharacter _ line
  | .malformedDeclaration _ line
  | .unknownType _ line
  | .unexpectedToken _ line
  | .unexpectedEndOfLine line
  | .expectedColon _ line
  | .emptyBlock _ line
  | .orphanBranch _ line
  | .literalTooLarge line => line

def message : ParseError → String
  | .irregularIndentation width line =>
    s!"línea {line}: sangría irregular de {width} columnas (debe ser múltiplo de 4)"
  | .unexpectedIndentation expected found line =>
    s!"línea {line}: sangría inesperada (nivel {found}, se esperaba {expected})"
  | .unterminatedLiteral line => s!"línea {line}: literal de texto sin cerrar"
  | .unknownCharacter text line => s!"línea {line}: carácter desconocido '{text}'"
  | .malformedDeclaration details line => s!"línea {line}: declaración mal formada: {details}"
  | .unknownType name line => s!"línea {line}: tipo desconocido '{name}'"
  | .unexpectedToken token line => s!"línea {line}: símbolo inesperado {token}"
  | .unexpectedEndOfLine line => s!"línea {line}: fin de línea inesperado"
  | .expectedColon header line => s!"línea {line}: se esperaba ':' al final de '{header}'"
  | .emptyBlock header line => s!"línea {line}: el bloque de '{header}' está vacío"
  | .orphanBranch keyword line => s!"línea {line}: '{keyword}' sin un 'si_es' previo"
  | .literalTooLarge line => s!"línea {line}: literal numérico demasiado grande"

/-- The messages of several errors, one a line. -/
def messages (errors : List ParseError) : String :=
  String.intercalate "\n" (errors.map message)

end ParseError
end Guion
