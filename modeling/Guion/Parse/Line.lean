/-
One source line: a whole statement, or a header that still needs its block.

What a line is shows in its shape. Scope words and markers start
declarations, header words need a `:` at the end, a top-level `:=` or `=`
makes an assignment, `name(…)` over the whole line is a call, and a name
followed by the start of an operand is a call without parentheses. Anything
else is an expression.
-/
import Guion.Parse.Declaration

namespace Guion.Parse

/-- A block header before its body is attached. -/
inductive Header where
  | ifIs (condition : Expr)
  | elseIf (condition : Expr)
  | otherwise
  | whileLoop (condition : Expr)
  | forLoop (name : String) (source : ForSource)
  | function (name : String) (params : List Param)

/-- The word that opened the header. -/
def Header.keyword : Header → String
  | .ifIs _ => "si_es"
  | .elseIf _ => "pero_si"
  | .otherwise => "si_no"
  | .whileLoop _ => "mientras"
  | .forLoop .. => "para"
  | .function .. => "funcion"

inductive Line where
  | simple (statement : Statement)
  | header (header : Header)

/-! ## Assignments, calls and expressions -/

/-- The path that an expression denotes, with the steps read so far behind it. -/
def targetOf? : List Accessor → Expr → Option AssignTarget
  | steps, .variable name _ =>
    if steps.isEmpty then some (.variable name) else some (.path name steps)
  | steps, .deref pointer _ => if steps.isEmpty then some (.deref pointer) else none
  | steps, .index target index _ => targetOf? (.index index :: steps) target
  | steps, .field target field _ => targetOf? (.field field :: steps) target
  | _, _ => none

/-- The target of an assignment written before `operator`. -/
def target (operator : Lexeme) (expr : Expr) : Except ParseError AssignTarget :=
  match targetOf? [] expr with
  | some target => .ok target
  | none =>
    .error (.unexpectedToken
      ("'" ++ operator.token.display ++ "' (destino de asignación inválido)") operator.line)

/-- Whether a name starts a call without parentheses. The symbols that are also
binary operators count only with a blank before them and none after, brackets
only with a blank before them. -/
def isCommand (first second : Lexeme) (third : Option Lexeme) : Bool :=
  match second.token with
  | .symbol .leftParen | .symbol .leftBracket => !adjacent first second
  | .symbol .star | .symbol .ampersand | .symbol .minus | .symbol .plus =>
    !adjacent first second && (third.map (adjacent second)).getD false
  | token => token.startsOperand

def isAssignment (token : Token) : Bool := token == .symbol .assign || token == .symbol .equals

/-- Reads a call or an expression statement. -/
def callOrExpression (line : Nat) (tokens : List Lexeme) : Except ParseError Statement :=
  let expressionStatement : Except ParseError Statement :=
    (complete tokens line).map fun expr => .expression expr line
  match tokens with
  | first :: second :: rest =>
    match first.token with
    | .identifier name =>
      if second.token = .symbol .leftParen ∧ adjacent first second ∧
          isEnclosed (second :: rest) then
        (pieces rest.dropLast line).map fun arguments => .call name arguments line
      else if isCommand first second rest.head? then
        (pieces (second :: rest) line).map fun arguments => .call name arguments line
      else expressionStatement
    | _ => expressionStatement
  | _ => expressionStatement

/-- Reads an assignment, a call or an expression statement. -/
def simple (line : Nat) (tokens : List Lexeme) : Except ParseError Statement :=
  match splitAtTopLevel? isAssignment 0 [] tokens with
  | some (left, operator, right) => do
    let destination ← complete left line
    let value ← complete right line
    let destination ← target operator destination
    return .assignment destination value line
  | none => callOrExpression line tokens

/-- Reads what follows `ejecutar`. -/
def invocation (line : Nat) (tokens : List Lexeme) : Except ParseError Statement :=
  match commaPieces tokens with
  | [] => .error (.unexpectedEndOfLine line)
  | path :: arguments => do
    let path ← complete path line
    let arguments ← arguments.mapM fun piece => complete piece line
    return .invoke path arguments line

/-! ## Headers -/

/-- Reads the limits of a range loop after `desde`. -/
def range (line : Nat) (tokens : List Lexeme) : Except ParseError ForSource := do
  let (start, rest) ← expression tokens
  match rest with
  | [] => .error (.unexpectedEndOfLine line)
  | lexeme :: rest =>
    if lexeme.token ≠ .keyword .to then .error (unexpected lexeme)
    else do
      let (stop, rest) ← expression rest
      match rest with
      | [] => return .range start stop none
      | lexeme :: rest =>
        if lexeme.token ≠ .keyword .step then .error (unexpected lexeme)
        else do
          let (step, _) ← expression rest
          return .range start stop (some step)

/-- Reads a `para` header after its keyword. -/
def forHeader (line : Nat) (tokens : List Lexeme) : Except ParseError Header := do
  let (name, rest) ← expectIdentifier line tokens
  match rest with
  | [] => .error (.unexpectedEndOfLine line)
  | lexeme :: rest =>
    match lexeme.token with
    | .keyword .from => (range line rest).map (.forLoop name)
    | .keyword .in => (complete rest line).map fun expr => .forLoop name (.collection expr)
    | _ => .error (unexpected lexeme)

/-- Reads one parameter: a name, with a type before it or not. -/
def param (types : List String) (line : Nat) (tokens : List Lexeme) : Except ParseError Param :=
  let fault : ParseError :=
    match tokens.getLast? with
    | some last => unexpected last
    | none => .unexpectedEndOfLine line
  match tokens.map fun lexeme => identifierName? lexeme.token with
  | [some name] => .ok ⟨name, none⟩
  | [some typeName, some name] =>
    if types.contains typeName then .ok ⟨name, some typeName⟩
    else .error (.unknownType typeName line)
  | _ => .error fault

/-- Reads a `funcion` header after its keyword. -/
def functionHeader (types : List String) (line : Nat) (tokens : List Lexeme) :
    Except ParseError Header := do
  let (name, rest) ← expectIdentifier line tokens
  match rest with
  | [] => .error (.unexpectedEndOfLine line)
  | lexeme :: inner =>
    if lexeme.token ≠ .symbol .leftParen then .error (unexpected lexeme)
    else if !isEnclosed rest then .error (.unexpectedEndOfLine line)
    else do
      let params ← (commaPieces inner.dropLast).mapM (param types line)
      return .function name params

/-- Reads a header, given its keyword and the tokens after it. -/
def header (keyword : Keyword) (types : List String) (line : Nat) (tokens : List Lexeme) :
    Except ParseError Header :=
  if (tokens.getLast?.map Lexeme.token) ≠ some (.symbol .colon) then
    .error (.expectedColon keyword.text line)
  else
    let body := tokens.dropLast
    match keyword with
    | .ifIs => (complete body line).map .ifIs
    | .elseIf => (complete body line).map .elseIf
    | .while => (complete body line).map .whileLoop
    | .otherwise =>
      match body with
      | [] => .ok .otherwise
      | extra :: _ => .error (unexpected extra)
    | .for => forHeader line body
    | _ => functionHeader types line body

/-! ## Lines -/

/-- Reads a line that starts with a keyword. -/
def keywordLine (keyword : Keyword) (types : List String) (text : List Char)
    (first : Lexeme) (rest : List Lexeme) : Except ParseError Line :=
  let line := first.line
  match keyword with
  | .variable => (declaration .variable types text line rest).map .simple
  | .global => (declaration .global types text line rest).map .simple
  | .constant => (declaration .constant types text line rest).map .simple
  | .ifIs | .elseIf | .otherwise | .while | .for | .function =>
    (header keyword types line rest).map .header
  | .return =>
    if rest.isEmpty then .ok (.simple (.returnValue none line))
    else (complete rest line).map fun value => .simple (.returnValue (some value) line)
  | .break =>
    match rest with
    | [] => .ok (.simple (.breakLoop line))
    | extra :: _ => .error (unexpected extra)
  | .invoke => (invocation line rest).map .simple
  | .from | .to | .step | .in => (simple line (first :: rest)).map .simple

/-- Reads the tokens of one line. `text` is the line itself, `types` are the
type names that a declaration may use. -/
def line (types : List String) (text : List Char) : List Lexeme → Except ParseError Line
  | [] => .error (.unexpectedEndOfLine 0)
  | first :: rest =>
    match first.token with
    | .keyword k => keywordLine k types text first rest
    | _ =>
      if startsWithMarker (first :: rest) then
        (declaration .variable types text first.line (first :: rest)).map .simple
      else (simple first.line (first :: rest)).map .simple

end Guion.Parse
