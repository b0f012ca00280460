/-
Runs of tokens: the errors that a token out of place raises, and the ways to
cut a run at its brackets and commas.
-/
import Guion.Error.Parse
import Guion.Text.Pieces
import Guion.Token.Basic

namespace Guion.Parse

/-- A result together with the tokens after it. -/
abbrev Parsed (α : Type) := Except ParseError (α × List Lexeme)

/-- The error of a token that cannot stand where it was found. Text that is no
token is reported as what it is. -/
def unexpected (lexeme : Lexeme) : ParseError :=
  match lexeme.token with
  | .unknown text =>
    if text.toList.head? = some '"' then .unterminatedLiteral lexeme.line
    else if text.toList.all fun c => Decimal.isDigit c || c == '.' then
      .literalTooLarge lexeme.line
    else .unknownCharacter text lexeme.line
  | token => .unexpectedToken ("'" ++ token.display ++ "'") lexeme.line

def isUnknown : Token → Bool
  | .unknown _ => true
  | _ => false

/-- The error of the first text that is no token. -/
def firstUnknown? (tokens : List Lexeme) : Option ParseError :=
  (tokens.find? fun lexeme => isUnknown lexeme.token).map unexpected

/-- Takes the given symbol; `line` is reported when the run ends. -/
def expect (symbol : Symbol) (line : Nat) : List Lexeme → Except ParseError (List Lexeme)
  | lexeme :: rest =>
    if lexeme.token = .symbol symbol then .ok rest else .error (unexpected lexeme)
  | [] => .error (.unexpectedEndOfLine line)

/-- Takes an identifier; `line` is reported when the run ends. -/
def expectIdentifier (line : Nat) : List Lexeme → Parsed String
  | lexeme :: rest =>
    match lexeme.token with
    | .identifier name => .ok (name, rest)
    | _ => .error (unexpected lexeme)
  | [] => .error (.unexpectedEndOfLine line)

/-! ## Brackets and commas

The depth counts all three kinds of brackets together and may go below zero. -/

/-- Splits a run before the first token at depth zero that satisfies `p`. -/
def splitAtTopLevel? (p : Token → Bool) :
    Int → List Lexeme → List Lexeme → Option (List Lexeme × Lexeme × List Lexeme)
  | _, _, [] => none
  | depth, before, lexeme :: rest =>
    if depth = 0 ∧ p lexeme.token then some (before.reverse, lexeme, rest)
    else splitAtTopLevel? p (depth + lexeme.token.nesting) (lexeme :: before) rest

/-- The pieces between commas at depth zero; the current one is in reverse. -/
def commaPiecesFrom : Int → List Lexeme → List Lexeme → List (List Lexeme)
  | _, piece, [] => [piece.reverse]
  | depth, piece, lexeme :: rest =>
    if depth = 0 ∧ lexeme.token = .symbol .comma then
      piece.reverse :: commaPiecesFrom depth [] rest
    else commaPiecesFrom (depth + lexeme.token.nesting) (lexeme :: piece) rest

/-- The pieces between commas at depth zero; an empty run has none. -/
def commaPieces (tokens : List Lexeme) : List (List Lexeme) :=
  if tokens.isEmpty then [] else commaPiecesFrom 0 [] tokens

/-- How many tokens there are up to the one at which the depth comes back to
zero. -/
def closingFrom? : Int → Nat → List Lexeme → Option Nat
  | _, _, [] => none
  | depth, count, lexeme :: rest =>
    let depth := depth + lexeme.token.nesting
    if depth = 0 then some (count + 1) else closingFrom? depth (count + 1) rest

/-- Whether the bracket that starts a run is closed by its last token. -/
def isEnclosed (tokens : List Lexeme) : Bool := closingFrom? 0 0 tokens == some tokens.length

/-! ## Places -/

/-- Whether nothing stands between two tokens. -/
def adjacent (first second : Lexeme) : Bool := first.stop == second.start

/-- The characters of a text between two byte offsets. -/
def byteSlice (start stop : Nat) : Nat → List Char → List Char
  | _, [] => []
  | offset, c :: rest =>
    let rest' := byteSlice start stop (offset + c.utf8Size) rest
    if start ≤ offset ∧ offset < stop then c :: rest' else rest'

/-- The text that a run of tokens covers in its line. -/
def sourceText (line : List Char) (tokens : List Lexeme) : String :=
  match tokens.head?, tokens.getLast? with
  | some first, some last => String.ofList (byteSlice first.start last.stop 0 line)
  | _, _ => ""

end Guion.Parse
