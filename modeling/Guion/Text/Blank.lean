/-
Blank characters: the 25 characters with the Unicode property `White_Space`.

`trim` drops them at both ends of a text, `words` splits a text at every run
of them.
-/

namespace Guion.Text

/-- The property `White_Space`. The zero-width space and the information
separators do not have it. -/
def isBlank (c : Char) : Bool :=
  let n := c.toNat
  (9 ≤ n && n ≤ 13) || n == 0x20 || n == 0x85 || n == 0xa0 || n == 0x1680 ||
    (0x2000 ≤ n && n ≤ 0x200a) || n == 0x2028 || n == 0x2029 || n == 0x202f ||
    n == 0x205f || n == 0x3000

/-- Drops the blanks at the end. -/
def trimRight (text : List Char) : List Char := (text.reverse.dropWhile isBlank).reverse

/-- Drops the blanks at both ends. -/
def trim (text : List Char) : List Char := trimRight (text.dropWhile isBlank)

/-- Drops the blanks at both ends of a string. -/
def trimString (s : String) : String := String.ofList (trim s.toList)

/-- The maximal runs of non-blank characters, the current one in reverse. -/
def wordsFrom : List Char → List Char → List (List Char)
  | word, [] => if word.isEmpty then [] else [word.reverse]
  | word, c :: rest =>
    if isBlank c then
      if word.isEmpty then wordsFrom [] rest else word.reverse :: wordsFrom [] rest
    else wordsFrom (c :: word) rest

/-- The maximal runs of non-blank characters. -/
def words (text : List Char) : List (List Char) := wordsFrom [] text

end Guion.Text
