/-
The texts of real numbers.

`formatReal` writes up to sixteen significant digits without trailing zeros
and turns to a power of ten outside `10 ^ -5 … 10 ^ 16`. Which digits are
significant is read off the logarithm of the value as binary64 computes it.
Away from a power of ten its floor is the exact exponent; a value just below
one may count as the power itself. `formatDecimal` writes two places.
`readFinite?` reads the numbers that a program may write in a text: finite,
and without words for the numbers that are not.
-/
import Guion.Binary64.Arithmetic
import Guion.Decimal.Fixed
import Guion.Decimal.Reader
import Guion.Decimal.Shortest

namespace Guion.Number

open Decimal

/-- The number of significant digits of a displayed real. -/
def significantDigits : Nat := 16

/-- Whether a positive number of units is below the next power of ten by less
than one part in `2 ^ 40`. -/
def nearNextPower (units : Nat) : Bool :=
  let (numerator, denominator) := scaledBy units (exponent10 units + 1)
  denominator * 0xff_ffff_ffff < numerator * 0x100_0000_0000

/-- The floor of the decimal logarithm of a positive number, as binary64
arithmetic gives it. -/
def logExponent (x : Binary64) : Int :=
  if nearNextPower x.magnitude then
    (x.abs.log10.floor.truncate?).getD (exponent10 x.magnitude)
  else exponent10 x.magnitude

/-- Drops the zeros at the end of a fraction, and the point if it ends there. -/
def trimFraction (text : List Char) : List Char :=
  if text.contains '.' then
    let reversed := text.reverse.dropWhile (· == '0')
    (reversed.dropWhile (· == '.')).reverse
  else text

/-- The text of the absolute value of a finite number that is not zero. -/
def formatMagnitude (x : Binary64) : List Char :=
  let exponent := logExponent x
  if exponent < -5 ∨ 16 ≤ exponent then
    let (significand, power) := scientificMagnitude (significantDigits - 1) x.magnitude
    trimFraction significand ++ 'e' :: ofInt power
  else trimFraction (fixedMagnitude (15 - exponent).toNat x.magnitude)

/-- The text of a real. -/
def formatReal (x : Binary64) : List Char :=
  match x with
  | .nan .. => "NaN".toList
  | .infinite s => if s then "-Inf".toList else "Inf".toList
  | .finite s m .. =>
    if m = 0 then ['0']
    else
      let text := formatMagnitude x
      if s && text != ['0'] then '-' :: text else text

/-- The text of a decimal: exactly two places. -/
def formatDecimal (x : Binary64) : List Char := fixed 2 x

/-- The text of a real in a message about the source: the shortest digits that
read back, never with an exponent. -/
def formatShortest (x : Binary64) : List Char :=
  match x with
  | .nan .. => "NaN".toList
  | .infinite s => if s then "-inf".toList else "inf".toList
  | .finite s m p _ =>
    let magnitude := if m = 0 then ['0'] else (shortest .awayFromZero m p).positional
    if s then '-' :: magnitude else magnitude

/-- Whether a character is an ASCII letter. -/
def isAsciiLetter (c : Char) : Bool := ('a' ≤ c && c ≤ 'z') || ('A' ≤ c && c ≤ 'Z')

/-- Reads a finite decimal number: some digit is there, and no letter but the
exponent mark. -/
def readFinite? (text : List Char) : Option Binary64 :=
  if !text.any isDigit || text.any (fun c => isAsciiLetter c && c != 'e' && c != 'E') then none
  else (readBinary64? text).filter Binary64.isFinite

/-! ## Reals and integers -/

/-- The largest magnitude below which every integer is a binary64 number,
`2 ^ 53 - 1`. -/
def maxSafeInteger : Nat := 0x1f_ffff_ffff_ffff

/-- The nearest real to a 64-bit integer. -/
def realOfInteger (i : Int64) : Binary64 := Binary64.ofInt i.toInt

/-- The integer part of a real, if it is a 64-bit integer. -/
def truncatedInteger? (x : Binary64) : Option Int64 := x.truncate?.bind int64?

/-- The integer equal to a real, if it is one of those that a real holds
without doubt. -/
def exactInteger? (x : Binary64) : Option Int64 :=
  if x.isWhole then
    x.truncate?.bind fun i => if i.natAbs ≤ maxSafeInteger then int64? i else none
  else none

/-- An index into a sequence of the given length. -/
def position? (index : Int64) (length : Nat) : Option Nat :=
  let i := index.toInt
  if 0 ≤ i ∧ i < length then some i.toNat else none

end Guion.Number
