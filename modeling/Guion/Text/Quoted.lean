/-
Quoted texts.

A quoted text stands between double quotes; a backslash makes the next
character literal, except that `\n` and `\t` are a line feed and a tab.
`unquoteBody` reads a body that must end with its text, `closeQuote` reads one
up to the first quote that no backslash escapes and gives what follows.
`quote` writes the form with the two control characters, the quote and the
backslash escaped.
-/

namespace Guion.Text

/-- The character that a backslash and `c` stand for. -/
def unescape (c : Char) : Char := if c = 'n' then '\n' else if c = 't' then '\t' else c

/-- Reads a body without quotes of its own. -/
def unquoteBody : List Char → Option (List Char)
  | [] => some []
  | '"' :: _ => none
  | '\\' :: [] => none
  | '\\' :: c :: rest => (unquoteBody rest).map (unescape c :: ·)
  | c :: rest => (unquoteBody rest).map (c :: ·)

/-- Reads one quoted literal that spans all of the text. -/
def unquote : List Char → Option (List Char)
  | '"' :: rest =>
    match rest.reverse with
    | '"' :: body => unquoteBody body.reverse
    | _ => none
  | _ => none

/-- Reads a body up to its closing quote; gives the content, in reverse after
what was read before, and the text after the quote. -/
def closeQuote : List Char → List Char → Option (List Char × List Char)
  | _, [] => none
  | content, '"' :: rest => some (content.reverse, rest)
  | _, '\\' :: [] => none
  | content, '\\' :: c :: rest => closeQuote (unescape c :: content) rest
  | content, c :: rest => closeQuote (c :: content) rest

/-- The escaped form of one character. -/
def escape (c : Char) : List Char :=
  if c = '\n' then ['\\', 'n'] else if c = '\t' then ['\\', 't']
  else if c = '"' ∨ c = '\\' then ['\\', c] else [c]

/-- The quoted form of a text. -/
def quote (text : List Char) : List Char := '"' :: text.flatMap escape ++ ['"']

end Guion.Text
