/-
Lines and blocks as tokens.

Four spaces are one level. A line that yields tokens is preceded by one
`indent` for each level it opens and one `dedent` for each level it closes,
and ends with `newline`; a line without tokens leaves no trace. An
indentation that is no whole number of levels, or holds a tab, is marked and
leaves the level as it is. The end of the source closes what is open.
-/
import Guion.Text.Pieces
import Guion.Token.Scan

namespace Guion.Layout

/-- The number of columns of one level. -/
def levelWidth : Nat := 4

/-- The tokens of one line, and the level after it. -/
structure Line where
  lexemes : List Lexeme
  depth : Nat

/-- The marks in front of a line, and the level after them. -/
def marks (depth : Nat) (blanks : List Char) : List Token × Nat :=
  let width := blanks.length
  if blanks.contains '\t' || width % levelWidth != 0 then ([.irregularIndent width], depth)
  else
    let level := width / levelWidth
    (List.replicate (level - depth) .indent ++ List.replicate (depth - level) .dedent, level)

def isIndentation (c : Char) : Bool := c == ' ' || c == '\t'

/-- The tokens of the line with the given number, unless it has none. -/
def line? (depth number : Nat) (text : List Char) : Option Line :=
  let blanks := text.takeWhile isIndentation
  let width := blanks.length
  let content := Token.scanLine number width (text.dropWhile isIndentation)
  if content.isEmpty then none
  else
    let (tokens, level) := marks depth blanks
    let stop := Token.byteLength text
    some
      { lexemes := tokens.map (fun token => ⟨token, number, 0, width⟩) ++ content ++
          [⟨.newline, number, stop, stop⟩]
        depth := level }

/-- The lines that yield tokens, from the given level and line number on. -/
def linesFrom : Nat → Nat → List (List Char) → List Line
  | _, _, [] => []
  | depth, number, text :: rest =>
    match line? depth number text with
    | some line => line :: linesFrom line.depth (number + 1) rest
    | none => linesFrom depth (number + 1) rest

/-- The lines of a source that yield tokens. -/
def lines (source : String) : List Line := linesFrom 0 1 (Text.lines source.toList)

/-- The marks that close what is open after the last line. -/
def closing (lines : List Line) : List Lexeme :=
  match lines.getLast? with
  | none => []
  | some last =>
    let number := (last.lexemes.head?.map Lexeme.line).getD 0
    List.replicate last.depth ⟨.dedent, number, 0, 0⟩

/-- All lexemes of a source. -/
def lexemes (source : String) : List Lexeme :=
  let lines := lines source
  lines.flatMap Line.lexemes ++ closing lines

end Guion.Layout
