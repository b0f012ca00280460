/-
Reading a decimal number into binary64.

The grammar is an optional sign, then one of the words `inf`, `infinity` and
`nan` in any case, or digits with an optional point and an optional exponent,
where the digits on at least one side of the point are there. The digits of
an exponent count up to the one that brings it to `2 ^ 16`. The result is the
exact decimal value rounded once, so a large exponent gives a zero or an
infinity rather than a failure.
-/
import Guion.Binary64.Basic
import Guion.Decimal.Digits

namespace Guion.Decimal

/-- The nearest number to `coefficient * 10 ^ exponent`. Beyond four hundred
places either way the answer is settled without computing the power. -/
def nearest (negative : Bool) (coefficient : Nat) (exponent : Int) : Binary64 :=
  let leading := exponent + digitCount coefficient
  if coefficient = 0 ∨ leading < -400 then .zero negative
  else if 400 < leading then .infinite negative
  else if 0 ≤ exponent then
    .roundShifted negative 1074 (coefficient * Nat.pow 10 exponent.toNat) 1
  else .roundShifted negative 1074 coefficient (Nat.pow 10 (-exponent).toNat)

/-- The number of significant digits that are read one by one. No number halfway
between two binary64 numbers has more. -/
def significantLimit : Nat := 800

/-- The nearest number to a run of digits times `10 ^ exponent`. The digits behind
the limit only matter by whether one of them is not zero. -/
def nearestOfDigits (negative : Bool) (digits : List Char) (exponent : Int) : Binary64 :=
  let significant := digits.dropWhile (· == '0')
  let kept := natOfDigits (significant.take significantLimit)
  let rest := significant.drop significantLimit
  if rest.isEmpty then nearest negative kept exponent
  else
    let mark := if rest.all (· == '0') then 0 else 1
    nearest negative (kept * 10 + mark) (exponent + rest.length - 1)

/-- The exponent from which on further digits are ignored. -/
def exponentLimit : Nat := 0x1_0000

/-- Reads an exponent mark with its sign and digits; an empty text is the exponent
0. -/
def readExponent? : List Char → Option Int
  | [] => some 0
  | c :: rest =>
    if c = 'e' ∨ c = 'E' then readSigned? (natOfDigitsUpTo exponentLimit) rest else none

/-- Reads an unsigned decimal number. -/
def readUnsigned? (negative : Bool) (text : List Char) : Option Binary64 :=
  let whole := text.takeWhile isDigit
  let (fraction, rest) : List Char × List Char :=
    match text.dropWhile isDigit with
    | '.' :: rest => (rest.takeWhile isDigit, rest.dropWhile isDigit)
    | rest => ([], rest)
  if whole.isEmpty && fraction.isEmpty then none
  else do
    let exponent ← readExponent? rest
    return nearestOfDigits negative (whole ++ fraction) (exponent - fraction.length)

/-- Reads a word for a number that is not finite, or an unsigned decimal. -/
def readMagnitude? (negative : Bool) (text : List Char) : Option Binary64 :=
  match String.ofList (text.map Char.toLower) with
  | "inf" | "infinity" => some (.infinite negative)
  | "nan" => some (.nan negative true)
  | _ => readUnsigned? negative text

/-- Reads a binary64 number. -/
def readBinary64? : List Char → Option Binary64
  | '-' :: rest => readMagnitude? true rest
  | '+' :: rest => readMagnitude? false rest
  | text => readMagnitude? false text

end Guion.Decimal
