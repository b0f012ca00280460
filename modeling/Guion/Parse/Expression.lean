/-
Expressions from tokens.

The grammar, from the loosest to the tightest level:

    expression := level of `||`, `&&`, `== !=`, `< > <= >=`, `+ -`, `* / %`
    unary      := ("-" | "+" | "!" | "&" | "*") unary | cast unary | primary postfix*
    primary    := literal | date [time] | name ["(" expressions ")"]
                | "(" expression ")" | "[" expressions "]" | "{" entries "}"
    postfix    := "[" expression "]" | "." name ["(" expressions ")"]

All binary levels associate to the left. `(name)` is a cast when an operand
follows it; `(puntero name)` and `(name *)` always are.

Each step of the descent takes one unit of fuel. Between two tokens the
descent passes at most ten steps, so the fuel that `complete` and
`expression` start with outlasts the tokens.
-/
import Guion.Calendar.Date
import Guion.Parse.Run
import Guion.Syntax.Expr

namespace Guion.Parse

/-- The binary operator that a token is. -/
def binaryOperator? : Token → Option BinaryOperator
  | .symbol .plus => some .add
  | .symbol .minus => some .sub
  | .symbol .star => some .mul
  | .symbol .slash => some .div
  | .symbol .percent => some .mod
  | .symbol .less => some .less
  | .symbol .greater => some .greater
  | .symbol .lessEqual => some .lessEqual
  | .symbol .greaterEqual => some .greaterEqual
  | .symbol .equal => some .equal
  | .symbol .notEqual => some .notEqual
  | .symbol .and => some .and
  | .symbol .or => some .or
  | _ => none

/-- The prefix operator that a token is. -/
def unaryOperator? : Token → Option UnaryOperator
  | .symbol .minus => some .negate
  | .symbol .plus => some .plus
  | .symbol .bang => some .not
  | _ => none

/-- The binary levels, the loosest first. -/
def precedence : List (List BinaryOperator) :=
  [[.or], [.and], [.equal, .notEqual], [.less, .greater, .lessEqual, .greaterEqual],
    [.add, .sub], [.mul, .div, .mod]]

/-- Reads a cast after its opening parenthesis: the type, whether it is a
pointer, and the tokens of the operand. -/
def castHeader? : List Lexeme → Option (String × Bool × List Lexeme)
  | first :: second :: rest =>
    match first.token, second.token with
    | .identifier name, .symbol .rightParen =>
      match rest with
      | next :: _ => if next.token.startsOperand then some (name, false, rest) else none
      | [] => none
    | .identifier name, .identifier target =>
      match rest with
      | close :: rest =>
        if name = "puntero" ∧ close.token = .symbol .rightParen then some (target, true, rest)
        else none
      | [] => none
    | .identifier name, .symbol .star =>
      match rest with
      | close :: rest =>
        if close.token = .symbol .rightParen then some (name, true, rest) else none
      | [] => none
    | _, _ => none
  | _ => none

/-- The value of a token that is a literal by itself. -/
def literal? : Token → Option Value
  | .integer i => some (.integer i)
  | .real x => some (.real x)
  | .text content => some (.string content)
  | .character c => some (.character c)
  | .boolean b => some (.boolean b)
  | .null => some .null
  | _ => none

/-- Reads a date literal, with the time that may follow it. -/
def dateLiteral (lexeme : Lexeme) (text : String) (rest : List Lexeme) : Parsed Expr :=
  match Date.read? text.toList with
  | none => .error (unexpected lexeme)
  | some date =>
    match rest with
    | next :: after =>
      match next.token with
      | .time clock =>
        match TimeOfDay.read? clock.toList with
        | some time => .ok (.literal (.date { date with time := some time }) lexeme.line, after)
        | none => .error (unexpected lexeme)
      | _ => .ok (.literal (.date date) lexeme.line, rest)
    | [] => .ok (.literal (.date date) lexeme.line, rest)

/-- The error of a token that neither goes on nor ends a list. -/
def unexpectedInList (lexeme : Lexeme) (closing : Symbol) : ParseError :=
  .unexpectedToken
    ("'" ++ lexeme.token.display ++ "' (se esperaba ',' o '" ++ closing.text ++ "')") lexeme.line

/-- Whether the first token of a run is the given symbol. -/
def startsWith (symbol : Symbol) : List Lexeme → Bool
  | lexeme :: _ => lexeme.token == .symbol symbol
  | [] => false

mutual

/-- Reads an expression of the given binary levels. -/
def binary : Nat → List (List BinaryOperator) → List Lexeme → Parsed Expr
  | 0, _, _ => .error (.unexpectedEndOfLine 0)
  | fuel + 1, [], tokens => unary fuel tokens
  | fuel + 1, operators :: tighter, tokens =>
    match binary fuel tighter tokens with
    | .error e => .error e
    | .ok (left, rest) => binaryRest fuel operators tighter left rest

/-- Reads the operators and right operands that follow a left operand. -/
def binaryRest :
    Nat → List BinaryOperator → List (List BinaryOperator) → Expr → List Lexeme → Parsed Expr
  | 0, _, _, _, _ => .error (.unexpectedEndOfLine 0)
  | _ + 1, _, _, left, [] => .ok (left, [])
  | fuel + 1, operators, tighter, left, lexeme :: rest =>
    match binaryOperator? lexeme.token with
    | none => .ok (left, lexeme :: rest)
    | some op =>
      if operators.contains op then
        match binary fuel tighter rest with
        | .error e => .error e
        | .ok (right, rest) =>
          binaryRest fuel operators tighter (.binary left op right lexeme.line) rest
      else .ok (left, lexeme :: rest)

/-- Reads prefix operators, casts, and a primary expression. -/
def unary : Nat → List Lexeme → Parsed Expr
  | 0, _ => .error (.unexpectedEndOfLine 0)
  | _ + 1, [] => .error (.unexpectedEndOfLine 0)
  | fuel + 1, lexeme :: rest =>
    let line := lexeme.line
    match unaryOperator? lexeme.token with
    | some op =>
      match unary fuel rest with
      | .error e => .error e
      | .ok (operand, rest) => .ok (.unary op operand line, rest)
    | none =>
      if lexeme.token = .symbol .ampersand then
        match unary fuel rest with
        | .error e => .error e
        | .ok (operand, rest) => .ok (.reference operand line, rest)
      else if lexeme.token = .symbol .star then
        match unary fuel rest with
        | .error e => .error e
        | .ok (operand, rest) => .ok (.deref operand line, rest)
      else
        match if lexeme.token = .symbol .leftParen then castHeader? rest else none with
        | some (typeName, pointer, rest) =>
          match unary fuel rest with
          | .error e => .error e
          | .ok (operand, rest) => .ok (.cast typeName pointer operand line, rest)
        | none =>
          match primary fuel lexeme rest with
          | .error e => .error e
          | .ok (expr, rest) => postfixes fuel expr rest

/-- Reads a primary expression, given its first token. -/
def primary : Nat → Lexeme → List Lexeme → Parsed Expr
  | 0, _, _ => .error (.unexpectedEndOfLine 0)
  | fuel + 1, lexeme, rest =>
    let line := lexeme.line
    match lexeme.token with
    | .date text => dateLiteral lexeme text rest
    | .time text =>
      match TimeOfDay.read? text.toList with
      | some time => .ok (.literal (.time time) line, rest)
      | none => .error (unexpected lexeme)
    | .duration text =>
      match Duration.read? text.toList with
      | some duration => .ok (.literal (.duration duration) line, rest)
      | none => .error (unexpected lexeme)
    | .identifier name =>
      if startsWith .leftParen rest then
        match items fuel .rightParen line rest.tail with
        | .error e => .error e
        | .ok (arguments, rest) => .ok (.call name arguments line, rest)
      else .ok (.variable name line, rest)
    | .symbol .leftParen =>
      match binary fuel precedence rest with
      | .error e => .error e
      | .ok (expr, rest) =>
        match expect .rightParen line rest with
        | .error e => .error e
        | .ok rest => .ok (expr, rest)
    | .symbol .leftBracket =>
      match items fuel .rightBracket line rest with
      | .error e => .error e
      | .ok (elements, rest) => .ok (.list elements line, rest)
    | .symbol .leftBrace =>
      match entries fuel line rest with
      | .error e => .error e
      | .ok (pairs, rest) => .ok (.dictionary pairs line, rest)
    | token =>
      match literal? token with
      | some value => .ok (.literal value line, rest)
      | none => .error (unexpected lexeme)

/-- Reads the indexes, fields and method calls that follow an expression. -/
def postfixes : Nat → Expr → List Lexeme → Parsed Expr
  | 0, _, _ => .error (.unexpectedEndOfLine 0)
  | _ + 1, expr, [] => .ok (expr, [])
  | fuel + 1, expr, lexeme :: rest =>
    let line := lexeme.line
    if lexeme.token = .symbol .leftBracket then
      match binary fuel precedence rest with
      | .error e => .error e
      | .ok (index, rest) =>
        match expect .rightBracket line rest with
        | .error e => .error e
        | .ok rest => postfixes fuel (.index expr index line) rest
    else if lexeme.token = .symbol .dot then
      match expectIdentifier line rest with
      | .error e => .error e
      | .ok (name, rest) =>
        if startsWith .leftParen rest then
          match items fuel .rightParen line rest.tail with
          | .error e => .error e
          | .ok (arguments, rest) => postfixes fuel (.methodCall expr name arguments line) rest
        else postfixes fuel (.field expr name line) rest
    else .ok (expr, lexeme :: rest)

/-- Reads expressions between commas up to a closing symbol. -/
def items : Nat → Symbol → Nat → List Lexeme → Parsed (List Expr)
  | 0, _, _, _ => .error (.unexpectedEndOfLine 0)
  | fuel + 1, closing, line, tokens =>
    if startsWith closing tokens then .ok ([], tokens.tail) else someItems fuel closing line tokens

/-- Reads at least one expression, up to a closing symbol. -/
def someItems : Nat → Symbol → Nat → List Lexeme → Parsed (List Expr)
  | 0, _, _, _ => .error (.unexpectedEndOfLine 0)
  | fuel + 1, closing, line, tokens =>
    match binary fuel precedence tokens with
    | .error e => .error e
    | .ok (_, []) => .error (.unexpectedEndOfLine line)
    | .ok (item, lexeme :: rest) =>
      if lexeme.token = .symbol .comma then
        match someItems fuel closing line rest with
        | .error e => .error e
        | .ok (more, rest) => .ok (item :: more, rest)
      else if lexeme.token = .symbol closing then .ok ([item], rest)
      else .error (unexpectedInList lexeme closing)

/-- Reads dictionary entries up to the closing brace. -/
def entries : Nat → Nat → List Lexeme → Parsed (List (Expr × Expr))
  | 0, _, _ => .error (.unexpectedEndOfLine 0)
  | fuel + 1, line, tokens =>
    if startsWith .rightBrace tokens then .ok ([], tokens.tail) else someEntries fuel line tokens

/-- Reads at least one dictionary entry, up to the closing brace. -/
def someEntries : Nat → Nat → List Lexeme → Parsed (List (Expr × Expr))
  | 0, _, _ => .error (.unexpectedEndOfLine 0)
  | fuel + 1, line, tokens =>
    match binary fuel precedence tokens with
    | .error e => .error e
    | .ok (key, rest) =>
      match expect .colon key.line rest with
      | .error e => .error e
      | .ok rest =>
        match binary fuel precedence rest with
        | .error e => .error e
        | .ok (_, []) => .error (.unexpectedEndOfLine line)
        | .ok (value, lexeme :: rest) =>
          if lexeme.token = .symbol .comma then
            match someEntries fuel line rest with
            | .error e => .error e
            | .ok (more, rest) => .ok ((key, value) :: more, rest)
          else if lexeme.token = .symbol .rightBrace then .ok ([(key, value)], rest)
          else .error (unexpectedInList lexeme .rightBrace)

end

/-- Fuel enough for a run of tokens. -/
def fuelFor (tokens : List Lexeme) : Nat := 16 * (tokens.length + 1)

/-- Reads an expression at the start of a run. -/
def expression (tokens : List Lexeme) : Parsed Expr := binary (fuelFor tokens) precedence tokens

/-- Reads a run that must be exactly one expression. -/
def complete (tokens : List Lexeme) (line : Nat) : Except ParseError Expr :=
  if tokens.isEmpty then .error (.unexpectedEndOfLine line)
  else
    match expression tokens with
    | .error e => .error e
    | .ok (expr, []) => .ok expr
    | .ok (_, extra :: _) => .error (unexpected extra)

/-- Reads the expressions between the commas of a run. -/
def pieces (tokens : List Lexeme) (line : Nat) : Except ParseError (List Expr) :=
  (commaPieces tokens).mapM fun piece => complete piece line

end Guion.Parse
