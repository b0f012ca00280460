/-
Tokens of the language.

A token is a literal, a word, a symbol, a piece of text that is none of
these, or a mark of the layout: the start and the end of a block, an
indentation that fits no level, the end of a line. A lexeme is a token with
its line and its place in it, in bytes.
-/
import Guion.Number.Text

namespace Guion

/-- Reserved words that are not literals. -/
inductive Keyword where
  | variable
  | constant
  | global
  | ifIs
  | elseIf
  | otherwise
  | while
  | for
  | from
  | to
  | step
  | in
  | function
  | return
  | break
  | invoke
  deriving DecidableEq, Inhabited

/-- Operators and punctuation. -/
inductive Symbol where
  | assign
  | equals
  | equal
  | notEqual
  | lessEqual
  | greaterEqual
  | less
  | greater
  | and
  | or
  | plus
  | minus
  | star
  | slash
  | percent
  | bang
  | ampersand
  | leftParen
  | rightParen
  | leftBracket
  | rightBracket
  | leftBrace
  | rightBrace
  | comma
  | colon
  | dot
  deriving DecidableEq, Inhabited

inductive Token where
  | real (x : Binary64)
  | integer (i : Int64)
  | date (text : String)
  | time (text : String)
  | duration (text : String)
  | text (content : String)
  | character (c : Char)
  | boolean (b : Bool)
  | null
  | keyword (k : Keyword)
  | identifier (name : String)
  | symbol (s : Symbol)
  /-- Text that starts no token, a number too large, or a quote never closed. -/
  | unknown (text : String)
  | indent
  | dedent
  /-- Leading blanks that are no whole number of levels. -/
  | irregularIndent (width : Nat)
  | newline
  deriving DecidableEq, Inhabited

/-- A token with its line and its byte span inside the line. -/
structure Lexeme where
  token : Token
  line : Nat
  start : Nat
  stop : Nat
  deriving DecidableEq, Inhabited

namespace Keyword

def all : List Keyword :=
  [.variable, .constant, .global, .ifIs, .elseIf, .otherwise, .while, .for, .from, .to, .step, .in,
    .function, .return, .break, .invoke]

def text : Keyword → String
  | .variable => "variable"
  | .constant => "constante"
  | .global => "global"
  | .ifIs => "si_es"
  | .elseIf => "pero_si"
  | .otherwise => "si_no"
  | .while => "mientras"
  | .for => "para"
  | .from => "desde"
  | .to => "hasta"
  | .step => "incremento"
  | .in => "en"
  | .function => "funcion"
  | .return => "regresa"
  | .break => "rompe"
  | .invoke => "ejecutar"

/-- The keyword that a word is; `regresa_valor` is a second spelling. -/
def ofText? (word : String) : Option Keyword :=
  if word = "regresa_valor" then some .return else all.find? fun k => k.text = word

end Keyword

def Symbol.text : Symbol → String
  | .assign => ":="
  | .equals => "="
  | .equal => "=="
  | .notEqual => "!="
  | .lessEqual => "<="
  | .greaterEqual => ">="
  | .less => "<"
  | .greater => ">"
  | .and => "&&"
  | .or => "||"
  | .plus => "+"
  | .minus => "-"
  | .star => "*"
  | .slash => "/"
  | .percent => "%"
  | .bang => "!"
  | .ampersand => "&"
  | .leftParen => "("
  | .rightParen => ")"
  | .leftBracket => "["
  | .rightBracket => "]"
  | .leftBrace => "\x7b"
  | .rightBrace => "\x7d"
  | .comma => ","
  | .colon => ":"
  | .dot => "."

namespace Token

/-- The token as messages show it. -/
def display : Token → String
  | .real x => String.ofList (Number.formatShortest x)
  | .integer i => String.ofList (Decimal.ofInt i.toInt)
  | .date s | .time s | .duration s | .unknown s => s
  | .text content => "\"" ++ content ++ "\""
  | .character c => String.ofList ['\'', c, '\'']
  | .boolean b => if b then "verdadero" else "falso"
  | .null => "nulo"
  | .keyword k => k.text
  | .identifier name => name
  | .symbol s => s.text
  | .indent => "<indentación>"
  | .dedent => "<fin de bloque>"
  | .irregularIndent width => s!"<sangría de {width}>"
  | .newline => "<fin de línea>"

/-- Whether the token can begin an operand. The prefix operators that are also
binary ones do not count. -/
def startsOperand : Token → Bool
  | .real _ | .integer _ | .date _ | .time _ | .duration _ | .text _ | .character _ | .boolean _
  | .null | .identifier _ => true
  | .symbol .leftParen | .symbol .leftBracket | .symbol .leftBrace | .symbol .bang => true
  | _ => false

/-- How a token changes the bracket depth. -/
def nesting : Token → Int
  | .symbol .leftParen | .symbol .leftBracket | .symbol .leftBrace => 1
  | .symbol .rightParen | .symbol .rightBracket | .symbol .rightBrace => -1
  | _ => 0

end Token
end Guion
