/-
Full case mapping.

A character maps to one or more characters by the tables of `CaseTable`; a
text maps character by character. One rule looks at the context: a capital
sigma becomes the final form when a cased letter stands before it and none
after it, the characters that carry no case information being skipped.
-/
import Guion.Text.CaseTable

namespace Guion.Text

open CaseTable

/-- The image of one character under a table of runs and a table of longer
images; a character in neither is its own image. -/
def caseImage (runs : List Run) (long : List (Nat × List Nat)) (c : Char) : List Char :=
  match imageIn runs c.toNat with
  | some code => [Char.ofNat code]
  | none =>
    match long.lookup c.toNat with
    | some codes => codes.map Char.ofNat
    | none => [c]

/-- The upper-case form of one character. -/
def upperChar (c : Char) : List Char :=
  if c.toNat < 128 then [c.toUpper] else caseImage upperRuns upperLong c

/-- The lower-case form of one character, out of context. -/
def lowerChar (c : Char) : List Char :=
  if c.toNat < 128 then [c.toLower] else caseImage lowerRuns lowerLong c

def isCased (c : Char) : Bool := inRanges cased c.toNat

def isCaseIgnorable (c : Char) : Bool := inRanges caseIgnorable c.toNat

/-- Whether the first character that matters for case is a cased letter. -/
def meetsCased (text : List Char) : Bool :=
  match text.dropWhile isCaseIgnorable with
  | c :: _ => isCased c
  | [] => false

def upper (text : List Char) : List Char := text.flatMap upperChar

/-- Lower-cases the second list; the first one is what stands before it, in
reverse. -/
def lowerFrom : List Char → List Char → List Char
  | _, [] => []
  | before, c :: rest =>
    let image :=
      if c = 'Σ' then [if meetsCased before && !meetsCased rest then 'ς' else 'σ']
      else lowerChar c
    image ++ lowerFrom (c :: before) rest

def lower (text : List Char) : List Char := lowerFrom [] text

/-- The lower-case form of a string. -/
def lowerString (s : String) : String := String.ofList (lower s.toList)

end Guion.Text
