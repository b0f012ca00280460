/-
JSON documents and their compact text.

A number is an integer or a binary64 real; an object keeps its members in
ascending order of the keys, the last of several members with one key. The
text has no blanks. A real is written with the fewest digits that read back:
in positional notation, with at least one digit after the point, while the
leading digit stands at `10 ^ -5 … 10 ^ 15`, and with a signed exponent
elsewhere.
-/
import Guion.Decimal.Shortest
import Guion.Entries

namespace Guion

inductive Json where
  | null
  | bool (b : Bool)
  | integer (n : Int)
  | real (x : Binary64)
  | string (s : String)
  | array (items : List Json)
  | object (members : List (String × Json))

instance : Inhabited Json := ⟨.null⟩

namespace Json

/-- The text of a finite real. -/
def renderReal (x : Binary64) : List Char :=
  match x with
  | .finite s m p _ =>
    let magnitude :=
      if m = 0 then ['0', '.', '0']
      else
        let c := Decimal.shortest .toEven m p
        if c.leading < -5 ∨ 15 < c.leading then c.scientific
        else if 0 ≤ c.exponent then c.positional ++ ['.', '0']
        else c.positional
    if s then '-' :: magnitude else magnitude
  | _ => "null".toList

/-- A hexadecimal digit in lower case. -/
def hexDigit (n : Nat) : Char :=
  if n < 10 then Char.ofNat ('0'.toNat + n) else Char.ofNat ('a'.toNat + (n - 10))

/-- One character inside quotes. -/
def escape (c : Char) : List Char :=
  if c = '"' then ['\\', '"']
  else if c = '\\' then ['\\', '\\']
  else if c = '\n' then ['\\', 'n']
  else if c = '\r' then ['\\', 'r']
  else if c = '\t' then ['\\', 't']
  else if c.toNat = 8 then ['\\', 'b']
  else if c.toNat = 12 then ['\\', 'f']
  else if c.toNat < 32 then
    ['\\', 'u', '0', '0', hexDigit (c.toNat / 16), hexDigit (c.toNat % 16)]
  else [c]

/-- A string in quotes. -/
def quote (s : String) : List Char := '"' :: s.toList.flatMap escape ++ ['"']

mutual

/-- The compact text of a document, before another text. -/
def write : Json → List Char → List Char
  | .null, after => "null".toList ++ after
  | .bool b, after => (if b then "true".toList else "false".toList) ++ after
  | .integer n, after => Decimal.ofInt n ++ after
  | .real x, after => renderReal x ++ after
  | .string s, after => quote s ++ after
  | .array [], after => '[' :: ']' :: after
  | .array (item :: rest), after => '[' :: write item (writeItems rest (']' :: after))
  | .object [], after => '\x7b' :: '\x7d' :: after
  | .object ((key, value) :: rest), after =>
    '\x7b' :: quote key ++ ':' :: write value (writeMembers rest ('\x7d' :: after))

/-- The items behind the first one, each behind a comma. -/
def writeItems : List Json → List Char → List Char
  | [], after => after
  | item :: rest, after => ',' :: write item (writeItems rest after)

/-- The members behind the first one, each behind a comma. -/
def writeMembers : List (String × Json) → List Char → List Char
  | [], after => after
  | (key, value) :: rest, after =>
    ',' :: quote key ++ ':' :: write value (writeMembers rest after)

end

/-- The compact text of a document. -/
def render (json : Json) : List Char := json.write []

/-- The compact text as a string. -/
def compress (json : Json) : String := String.ofList json.render

end Json
end Guion
