/-
Declarations from tokens.

    declaration := [type] name ("," name)* [(":=" | "=") initializer]
    type        := marker* ("[" "]")* base ("[" "]")*

A marker is a word that wraps another type, or brackets; the same word
without either is a base type. The type may be left out for `global` and
`constante`. An initializer that is no expression is kept as text, unless a
quote is not closed or a number is too large.
-/
import Guion.Parse.Expression
import Guion.Syntax.Statement

namespace Guion.Parse

/-- The words that wrap a type. -/
def markerWords : List String :=
  ["puntero", "matriz", "diccionario", "objeto", "lista", "estructura"]

/-- Whether a line is a declaration that starts with a marker. -/
def startsWithMarker : List Lexeme → Bool
  | first :: second :: _ =>
    match first.token, second.token with
    | .identifier word, .identifier _ => markerWords.contains word
    | .identifier word, .symbol .leftBracket => markerWords.contains word
    | _, _ => false
  | _ => false

/-- Takes pairs of brackets and counts them. -/
def brackets (line : Nat) : List Lexeme → Except ParseError (Nat × List Lexeme)
  | [] => .ok (0, [])
  | lexeme :: rest =>
    if lexeme.token = .symbol .leftBracket then
      match rest with
      | close :: rest =>
        if close.token = .symbol .rightBracket then
          match brackets line rest with
          | .ok (count, rest) => .ok (count + 1, rest)
          | .error e => .error e
        else .error (.malformedDeclaration "se esperaba '[]' en el tipo" line)
      | [] => .error (.malformedDeclaration "se esperaba '[]' en el tipo" line)
    else .ok (0, lexeme :: rest)

/-- Takes the markers in front of a type, with the brackets behind each. -/
def markers (types : List String) (line : Nat) :
    Nat → List Lexeme → Except ParseError (List String × Nat × List Lexeme)
  | 0, tokens => .ok ([], 0, tokens)
  | fuel + 1, tokens =>
    match tokens with
    | first :: second :: rest =>
      match first.token, second.token with
      | .identifier word, .symbol .leftBracket =>
        if markerWords.contains word then do
          let (dims, rest) ← brackets line (second :: rest)
          let (words, moreDims, rest) ← markers types line fuel rest
          return (word :: words, dims + moreDims, rest)
        else return ([], 0, tokens)
      | .identifier word, .identifier next =>
        if markerWords.contains word ∧ types.contains next then do
          let (words, dims, rest) ← markers types line fuel (second :: rest)
          return (word :: words, dims, rest)
        else return ([], 0, tokens)
      | _, _ => return ([], 0, tokens)
    | _ => return ([], 0, tokens)

/-- The name of an identifier token. -/
def identifierName? : Token → Option String
  | .identifier name => some name
  | _ => none

/-- Takes the type of a declaration. -/
def typeSpec (scope : DeclarationScope) (types : List String) (line : Nat)
    (tokens : List Lexeme) : Except ParseError (Option TypeSpec × List Lexeme) := do
  let (words, dims, rest) ← markers types line tokens.length tokens
  let (moreDims, rest) ← brackets line rest
  let dims := dims + moreDims
  let missing : Except ParseError (Option TypeSpec × List Lexeme) :=
    if words.isEmpty ∧ dims = 0 ∧ scope ≠ .variable then .ok (none, rest)
    else .error (.malformedDeclaration "falta el tipo de la variable" line)
  match rest with
  | [] => missing
  | lexeme :: after =>
    match identifierName? lexeme.token with
    | none => missing
    | some word =>
      if types.contains word then do
        let (lastDims, rest) ← brackets line after
        return (some { markers := words, dims := dims + lastDims, base := word }, rest)
      else if (after.head?.bind fun next => identifierName? next.token).isSome then
        .error (.unknownType word line)
      else missing

/-- Takes the declared names. -/
def declaredNames (line : Nat) : List Lexeme → Except ParseError (List String × List Lexeme)
  | [] => .error (.malformedDeclaration "se esperaba el nombre de la variable" line)
  | lexeme :: rest =>
    match identifierName? lexeme.token with
    | none => .error (.malformedDeclaration "se esperaba el nombre de la variable" line)
    | some name =>
      match rest with
      | comma :: more =>
        if comma.token = .symbol .comma then
          match declaredNames line more with
          | .ok (names, rest) => .ok (name :: names, rest)
          | .error e => .error e
        else .ok ([name], rest)
      | [] => .ok ([name], [])

/-- Reads an initial value. -/
def initializer (text : List Char) (line : Nat) (tokens : List Lexeme) :
    Except ParseError Expr :=
  match complete tokens line with
  | .ok expr => .ok expr
  | .error (.unterminatedLiteral l) => .error (.unterminatedLiteral l)
  | .error (.literalTooLarge l) => .error (.literalTooLarge l)
  | .error _ => .ok (.raw (sourceText text tokens) line)

/-- Reads what follows the declared names. -/
def initialValue (text : List Char) (line : Nat) :
    List Lexeme → Except ParseError (Option Expr)
  | [] => .ok none
  | lexeme :: rest =>
    if lexeme.token = .symbol .assign ∨ lexeme.token = .symbol .equals then
      if rest.isEmpty then
        .error (.malformedDeclaration "falta el valor inicial después de ':='" line)
      else (initializer text line rest).map some
    else
      .error (.malformedDeclaration ("símbolo inesperado '" ++ lexeme.token.display ++ "'") line)

/-- Reads a declaration after its scope keyword. `text` is the source line. -/
def declaration (scope : DeclarationScope) (types : List String) (text : List Char) (line : Nat)
    (tokens : List Lexeme) : Except ParseError Statement := do
  let (type, rest) ← typeSpec scope types line tokens
  let (names, rest) ← declaredNames line rest
  let value ← initialValue text line rest
  if scope = .constant ∧ value.isNone then
    .error (.malformedDeclaration "una constante necesita un valor" line)
  else return .declaration scope type names value line

end Guion.Parse
