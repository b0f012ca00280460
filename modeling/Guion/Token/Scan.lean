/-
Scanning one line into tokens.

`scan` looks at the first character and what follows and says which token
stands there and how many more characters belong to it: the longest match, a
longer alternative that fails falling back to the shorter one. So a token
always takes at least one character, and its text is what it takes. Between
tokens blanks are skipped, and a `#` skips the rest of the line.

One pattern does not fall back: once a unit of a duration has been read,
digits that follow without a unit of their own make the whole run unknown.
-/
import Guion.Text.Quoted
import Guion.Token.Basic

namespace Guion.Token

open Decimal (isDigit)

/-- Whether a word can start with this character. -/
def isWordStart (c : Char) : Bool := Number.isAsciiLetter c || c == '_'

/-- Whether a word can go on with this character. -/
def isWordPart (c : Char) : Bool := isWordStart c || isDigit c

/-- Characters skipped between tokens. -/
def isSkipped (c : Char) : Bool := c == ' ' || c == '\t' || c == '\r' || c == '\x0c'

/-- The token of a whole word. -/
def ofWord (word : String) : Token :=
  match word with
  | "verdadero" => .boolean true
  | "falso" => .boolean false
  | "nulo" => .null
  | _ =>
    match Keyword.ofText? word with
    | some k => .keyword k
    | none => .identifier word

/-- Whether a text starts with characters of the given classes. -/
def matchesClasses : List (Char → Bool) → List Char → Bool
  | [], _ => true
  | p :: ps, c :: rest => p c && matchesClasses ps rest
  | _ :: _, [] => false

/-- What follows the year of a date: `-MM-DD`. -/
def dateTail : List (Char → Bool) := [(· == '-'), isDigit, isDigit, (· == '-'), isDigit, isDigit]

/-- What follows the hour of a time: `:MM:SS`. -/
def timeTail : List (Char → Bool) := [(· == ':'), isDigit, isDigit, (· == ':'), isDigit, isDigit]

def isUnit (c : Char) : Bool := c == 'h' || c == 'm' || c == 's'

/-- The length of a run of amounts with units, and whether it ends with a
unit. `pending` says that digits stand before the text. -/
def unitRun : Bool → List Char → Nat × Bool
  | pending, [] => (0, !pending)
  | pending, c :: rest =>
    if isDigit c then
      let (n, complete) := unitRun true rest
      (n + 1, complete)
    else if isUnit c && pending then
      let (n, complete) := unitRun false rest
      (n + 1, complete)
    else (0, !pending)

/-- Scans a token that starts with a digit. -/
def scanNumber (c : Char) (rest : List Char) : Token × Nat :=
  let n := (rest.takeWhile isDigit).length
  let digits := c :: rest.take n
  let after := rest.drop n
  let taken (m : Nat) : String := String.ofList (c :: rest.take m)
  if matchesClasses [isUnit] after then
    let (m, complete) := unitRun true after
    (if complete then .duration (taken (n + m)) else .unknown (taken (n + m)), n + m)
  else if digits.length = 4 ∧ matchesClasses dateTail after then (.date (taken (n + 6)), n + 6)
  else if digits.length = 2 ∧ matchesClasses timeTail after then (.time (taken (n + 6)), n + 6)
  else if matchesClasses [(· == '.'), isDigit] after then
    let m := n + 1 + ((after.drop 1).takeWhile isDigit).length
    match Decimal.readBinary64? (c :: rest.take m) with
    | some x => (.real x, m)
    | none => (.unknown (taken m), m)
  else
    match readInt64? digits with
    | some i => (.integer i, n)
    | none => (.unknown (taken n), n)

/-- Scans a token that starts with a quote. -/
def scanText (rest : List Char) : Token × Nat :=
  match Text.closeQuote [] rest with
  | some (content, after) => (.text (String.ofList content), rest.length - after.length)
  | none => (.unknown (String.ofList ('"' :: rest)), rest.length)

/-- Scans a token that starts with an apostrophe. -/
def scanCharacter : List Char → Token × Nat
  | c :: '\'' :: _ => if c = '\'' ∨ c = '\\' then (.unknown "'", 0) else (.character c, 2)
  | _ => (.unknown "'", 0)

/-- The symbol of two characters. -/
def twoCharSymbol? : Char → Char → Option Symbol
  | ':', '=' => some .assign
  | '=', '=' => some .equal
  | '!', '=' => some .notEqual
  | '<', '=' => some .lessEqual
  | '>', '=' => some .greaterEqual
  | '&', '&' => some .and
  | '|', '|' => some .or
  | _, _ => none

/-- The symbol of one character. -/
def oneCharSymbol? : Char → Option Symbol
  | '=' => some .equals
  | '<' => some .less
  | '>' => some .greater
  | '+' => some .plus
  | '-' => some .minus
  | '*' => some .star
  | '/' => some .slash
  | '%' => some .percent
  | '!' => some .bang
  | '&' => some .ampersand
  | '(' => some .leftParen
  | ')' => some .rightParen
  | '[' => some .leftBracket
  | ']' => some .rightBracket
  | '\x7b' => some .leftBrace
  | '\x7d' => some .rightBrace
  | ',' => some .comma
  | ':' => some .colon
  | '.' => some .dot
  | _ => none

/-- Scans an operator, a punctuation mark, or a character that starts no token. -/
def scanSymbol (c : Char) (rest : List Char) : Token × Nat :=
  match rest.head?.bind (twoCharSymbol? c) with
  | some s => (.symbol s, 1)
  | none =>
    match oneCharSymbol? c with
    | some s => (.symbol s, 0)
    | none => (.unknown (String.ofList [c]), 0)

/-- The token at the start of a text, and how many characters after the first
one belong to it. -/
def scan (c : Char) (rest : List Char) : Token × Nat :=
  if isDigit c then scanNumber c rest
  else if isWordStart c then
    let n := (rest.takeWhile isWordPart).length
    (ofWord (String.ofList (c :: rest.take n)), n)
  else if c = '"' then scanText rest
  else if c = '\'' then scanCharacter rest
  else scanSymbol c rest

/-- The number of bytes of a text. -/
def byteLength : List Char → Nat
  | [] => 0
  | c :: rest => c.utf8Size + byteLength rest

/-- The lexemes of the rest of a line, which starts at a byte offset; the first
`skip` characters belong to a token that has been read. -/
def scanFrom (line : Nat) : Nat → Nat → List Char → List Lexeme
  | _, _, [] => []
  | offset, skip + 1, c :: rest => scanFrom line (offset + c.utf8Size) skip rest
  | offset, 0, c :: rest =>
    if isSkipped c then scanFrom line (offset + c.utf8Size) 0 rest
    else if c = '#' then []
    else
      let (token, extra) := scan c rest
      ⟨token, line, offset, offset + byteLength (c :: rest.take extra)⟩ ::
        scanFrom line (offset + c.utf8Size) extra rest

/-- The lexemes of the content of a line, which starts at a byte offset. -/
def scanLine (line offset : Nat) (text : List Char) : List Lexeme := scanFrom line offset 0 text

end Guion.Token
