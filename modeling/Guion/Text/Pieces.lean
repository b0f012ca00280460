/-
Cutting a text into pieces.

`splitOn` cuts at every occurrence of a separator, from the left and without
overlap. `splitTopLevel` cuts only where no bracket and no quote is open.
What is open is a `Nesting`, updated character by character, so the same
scan says which separators count and how a piece leaves the state. `lines`
cuts at line feeds.
-/
import Guion.Text.Blank

namespace Guion.Text

/-! ## Occurrences -/

/-- Cuts at every occurrence of a non-empty separator. The piece read so far is
in reverse, and `skip` characters of a separator are still to be dropped. -/
def splitOnFrom (separator : List Char) : List Char → Nat → List Char → List (List Char)
  | piece, _, [] => [piece.reverse]
  | piece, skip + 1, _ :: rest => splitOnFrom separator piece skip rest
  | piece, 0, c :: rest =>
    if separator.isPrefixOf (c :: rest) then
      piece.reverse :: splitOnFrom separator [] (separator.length - 1) rest
    else splitOnFrom separator (c :: piece) 0 rest

/-- The pieces between the occurrences of a non-empty separator. -/
def splitOn (separator text : List Char) : List (List Char) := splitOnFrom separator [] 0 text

/-- Whether one text occurs in another. -/
def occursIn (needle : List Char) : List Char → Bool
  | [] => needle.isEmpty
  | c :: rest => needle.isPrefixOf (c :: rest) || occursIn needle rest

/-! ## Nesting -/

/-- What is open at a point of a text. -/
structure Nesting where
  depth : Nat := 0
  quoted : Bool := false
  escaped : Bool := false
  deriving DecidableEq

def isOpener (c : Char) : Bool := c == '(' || c == '[' || c == '\x7b'

def isCloser (c : Char) : Bool := c == ')' || c == ']' || c == '\x7d'

/-- What is open after one more character. A closing bracket at depth zero is
ignored; inside quotes only a quote that no backslash escapes counts. -/
def Nesting.step (n : Nesting) (c : Char) : Nesting :=
  if n.quoted then
    if n.escaped then { n with escaped := false }
    else if c = '\\' then { n with escaped := true }
    else if c = '"' then { n with quoted := false }
    else n
  else if c = '"' then { n with quoted := true }
  else if isOpener c then { n with depth := n.depth + 1 }
  else if isCloser c then { n with depth := n.depth - 1 }
  else n

/-- Whether nothing is open. -/
def Nesting.isTop (n : Nesting) : Bool := n.depth == 0 && !n.quoted

/-- Whether a separator may start with this character. -/
def isPlain (c : Char) : Bool := c != '"' && !isOpener c && !isCloser c

/-- Cuts at the separators where nothing is open. The piece read so far is in
reverse, and `skip` characters of a separator are still to be dropped. -/
def splitTopLevelFrom (separator : List Char) :
    Nesting → List Char → Nat → List Char → List (List Char)
  | _, piece, _, [] => [trim piece.reverse]
  | n, piece, skip + 1, _ :: rest => splitTopLevelFrom separator n piece skip rest
  | n, piece, 0, c :: rest =>
    if n.isTop && isPlain c && separator.isPrefixOf (c :: rest) then
      trim piece.reverse :: splitTopLevelFrom separator n [] (separator.length - 1) rest
    else splitTopLevelFrom separator (n.step c) (c :: piece) 0 rest

/-- The trimmed pieces between the separators that stand outside brackets and
quotes. A blank text has no piece, and an empty separator cuts nowhere. -/
def splitTopLevel (separator text : List Char) : List (List Char) :=
  if (trim text).isEmpty then []
  else if separator.isEmpty then [trim text]
  else splitTopLevelFrom separator {} [] 0 text

/-! ## Balance -/

/-- The bracket that closes an opening one. -/
def closerOf (c : Char) : Char := if c = '(' then ')' else if c = '[' then ']' else '\x7d'

/-- Scans a text with the closing brackets still awaited. -/
def isBalancedFrom : List Char → Bool → Bool → List Char → Bool
  | awaited, quoted, _, [] => awaited.isEmpty && !quoted
  | awaited, true, escaped, c :: rest =>
    if escaped then isBalancedFrom awaited true false rest
    else if c = '\\' then isBalancedFrom awaited true true rest
    else isBalancedFrom awaited (c != '"') false rest
  | awaited, false, _, c :: rest =>
    if c = '"' then isBalancedFrom awaited true false rest
    else if isOpener c then isBalancedFrom (closerOf c :: awaited) false false rest
    else if isCloser c then
      match awaited with
      | expected :: outer => expected == c && isBalancedFrom outer false false rest
      | [] => false
    else isBalancedFrom awaited false false rest

/-- Whether every bracket and every quote is closed by its partner. -/
def isBalanced (text : List Char) : Bool := isBalancedFrom [] false false text

/-! ## Lines -/

/-- Drops one carriage return at the end. -/
def dropReturn (reversed : List Char) : List Char :=
  match reversed with
  | '\r' :: rest => rest
  | all => all

/-- The lines of a text, the current one in reverse. -/
def linesFrom : List Char → List Char → List (List Char)
  | line, [] => if line.isEmpty then [] else [line.reverse]
  | line, c :: rest =>
    if c = '\n' then (dropReturn line).reverse :: linesFrom [] rest
    else linesFrom (c :: line) rest

/-- The lines of a text: each ends at a line feed, with one carriage return
before it dropped; what follows the last line feed is a line if not empty. -/
def lines (text : List Char) : List (List Char) := linesFrom [] text

end Guion.Text
