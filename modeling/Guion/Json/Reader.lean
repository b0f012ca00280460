/-
A strict JSON reader.

The grammar is that of the standard: no comments, no trailing commas, no
leading zeros, no bare control characters in strings, surrogates in pairs
only, and nothing after the document. Nesting is limited.

A number without fraction and exponent that fits 64 bits is an integer. Any
other number is read through a significand of at most 64 bits, the digits
that no longer fit being dropped, and one multiplication or division by a
power of ten in binary64; a result past the largest real is refused. So the
last digits of a long decimal may be rounded twice.
-/
import Guion.Binary64.Arithmetic
import Guion.Decimal.Reader
import Guion.Json.Basic

namespace Guion.Json

/-- Drops blanks: space, tab, line feed and carriage return. -/
def skipBlanks (text : List Char) : List Char :=
  text.dropWhile fun c => c == ' ' || c == '\t' || c == '\n' || c == '\r'

/-! ## Numbers -/

/-- The largest significand, `2 ^ 64 - 1`. -/
def maxSignificand : Nat := 0xffff_ffff_ffff_ffff

/-- Appends digits to a significand while it fits; gives it and the number of
digits left over. -/
def absorb : Nat → List Char → Nat × Nat
  | significand, [] => (significand, 0)
  | significand, c :: rest =>
    let longer := significand * 10 + Decimal.digitValue c
    if maxSignificand < longer then (significand, rest.length + 1) else absorb longer rest

/-- `10 ^ n` as a binary64 number. -/
def powerOfTen (n : Nat) : Binary64 := Decimal.nearest false 1 n

/-- Scales by a power of ten; a power below `10 ^ -308` is applied in steps. -/
def scale? : Nat → Binary64 → Int → Option Binary64
  | 0, x, _ => some x
  | fuel + 1, x, exponent =>
    if exponent.natAbs ≤ 308 then
      if 0 ≤ exponent then
        let product := x.mul (powerOfTen exponent.natAbs)
        if product.isFinite then some product else none
      else some (x.div (powerOfTen exponent.natAbs))
    else if x.isZero then some x
    else if 0 ≤ exponent then none
    else scale? fuel (x.div (powerOfTen 308)) (exponent + 308)

/-- The real of a significand and a power of ten. -/
def realOfParts? (negative : Bool) (significand : Nat) (exponent : Int) : Option Binary64 :=
  (scale? 8 (.ofInt significand) exponent).map fun x => if negative then x.neg else x

/-- Splits off a non-empty run of digits. -/
def digitRun? (text : List Char) : Option (List Char × List Char) :=
  let run := text.takeWhile Decimal.isDigit
  if run.isEmpty then none else some (run, text.dropWhile Decimal.isDigit)

/-- Splits off the fraction, if a point follows. -/
def fraction? : List Char → Option (List Char × List Char)
  | '.' :: rest => digitRun? rest
  | text => some ([], text)

/-- The exponent from which on further digits are ignored; whatever they are, the
number is too large or zero. -/
def exponentLimit : Nat := 0x8000_0000

/-- Splits off the exponent, if a mark follows. -/
def exponent? : List Char → Option (Option Int × List Char)
  | c :: rest =>
    if c = 'e' ∨ c = 'E' then
      let (negative, unsigned) : Bool × List Char :=
        match rest with
        | '-' :: rest => (true, rest)
        | '+' :: rest => (false, rest)
        | rest => (false, rest)
      (digitRun? unsigned).map fun (run, rest) =>
        let n : Int := Decimal.natOfDigitsUpTo exponentLimit run
        (some (if negative then -n else n), rest)
    else some (none, c :: rest)
  | [] => some (none, [])

/-- Reads a number without its sign. -/
def number? (negative : Bool) (text : List Char) : Option (Json × List Char) := do
  let (whole, rest) ← digitRun? text
  if whole.length ≠ 1 ∧ whole.head? = some '0' then none
  else do
    let (fraction, rest) ← fraction? rest
    let (exponent, rest) ← exponent? rest
    let (significand, dropped) := absorb 0 whole
    if fraction.isEmpty ∧ exponent.isNone ∧ dropped = 0 then
      if !negative then some (.integer significand, rest)
      else if significand = 0 ∨ 0x8000_0000_0000_0000 < significand then
        some (.real (Binary64.ofInt significand).neg, rest)
      else some (.integer (-significand), rest)
    else do
      let (significand, ignored) := absorb significand fraction
      let power : Int := dropped - (fraction.length - ignored : Nat) + exponent.getD 0
      let x ← realOfParts? negative significand power
      some (.real x, rest)

/-! ## Strings -/

/-- The value of a hexadecimal digit. -/
def hexValue? (c : Char) : Option Nat :=
  if Decimal.isDigit c then some (Decimal.digitValue c)
  else if 'a' ≤ c ∧ c ≤ 'f' then some (c.toNat - 'a'.toNat + 10)
  else if 'A' ≤ c ∧ c ≤ 'F' then some (c.toNat - 'A'.toNat + 10)
  else none

/-- Reads four hexadecimal digits. -/
def hex4? : List Char → Option (Nat × List Char)
  | a :: b :: c :: d :: rest => do
    let a ← hexValue? a
    let b ← hexValue? b
    let c ← hexValue? c
    let d ← hexValue? d
    some (((a * 16 + b) * 16 + c) * 16 + d, rest)
  | _ => none

/-- Reads the part of a `\u` escape after the `u`. -/
def unicodeEscape? (text : List Char) : Option (Char × List Char) := do
  let (unit, rest) ← hex4? text
  if 0xd800 ≤ unit ∧ unit < 0xdc00 then
    match rest with
    | '\\' :: 'u' :: rest => do
      let (low, rest) ← hex4? rest
      if 0xdc00 ≤ low ∧ low < 0xe000 then
        some (Char.ofNat (0x10000 + (unit - 0xd800) * 0x400 + (low - 0xdc00)), rest)
      else none
    | _ => none
  else if 0xdc00 ≤ unit ∧ unit < 0xe000 then none
  else some (Char.ofNat unit, rest)

/-- Reads the part of an escape after the backslash. -/
def escaped? : List Char → Option (Char × List Char)
  | '"' :: rest => some ('"', rest)
  | '\\' :: rest => some ('\\', rest)
  | '/' :: rest => some ('/', rest)
  | 'b' :: rest => some (Char.ofNat 8, rest)
  | 'f' :: rest => some (Char.ofNat 12, rest)
  | 'n' :: rest => some ('\n', rest)
  | 'r' :: rest => some ('\r', rest)
  | 't' :: rest => some ('\t', rest)
  | 'u' :: rest => unicodeEscape? rest
  | _ => none

/-- Reads a string after its opening quote; the fuel is at least the number of
characters up to the closing one. The characters read so far are in reverse. -/
def string? : Nat → List Char → List Char → Option (String × List Char)
  | 0, _, _ => none
  | _ + 1, _, [] => none
  | fuel + 1, content, c :: rest =>
    if c = '"' then some (String.ofList content.reverse, rest)
    else if c = '\\' then
      match escaped? rest with
      | some (d, rest) => string? fuel (d :: content) rest
      | none => none
    else if c.toNat < 32 then none
    else string? fuel (c :: content) rest

/-! ## Documents -/

mutual

/-- Reads one value. `depth` is how many levels may still be opened. -/
def value? : Nat → Nat → List Char → Option (Json × List Char)
  | 0, _, _ => none
  | fuel + 1, depth, text =>
    match skipBlanks text with
    | 'n' :: 'u' :: 'l' :: 'l' :: rest => some (.null, rest)
    | 't' :: 'r' :: 'u' :: 'e' :: rest => some (.bool true, rest)
    | 'f' :: 'a' :: 'l' :: 's' :: 'e' :: rest => some (.bool false, rest)
    | '"' :: rest => (string? fuel [] rest).map fun (s, rest) => (.string s, rest)
    | '-' :: rest => number? true rest
    | '[' :: rest =>
      if depth = 0 then none
      else
        match skipBlanks rest with
        | ']' :: rest => some (.array [], rest)
        | _ => (items? fuel (depth - 1) [] rest).map fun (items, rest) => (.array items, rest)
    | '\x7b' :: rest =>
      if depth = 0 then none
      else
        match skipBlanks rest with
        | '\x7d' :: rest => some (.object [], rest)
        | _ =>
          (members? fuel (depth - 1) [] rest).map fun (members, rest) =>
            (.object (Entries.ofList members), rest)
    | text => number? false text

/-- Reads the items of an array up to its bracket; those read so far are in
reverse. -/
def items? : Nat → Nat → List Json → List Char → Option (List Json × List Char)
  | 0, _, _, _ => none
  | fuel + 1, depth, items, text =>
    match value? fuel depth text with
    | none => none
    | some (item, rest) =>
      match skipBlanks rest with
      | ',' :: rest => items? fuel depth (item :: items) rest
      | ']' :: rest => some ((item :: items).reverse, rest)
      | _ => none

/-- Reads the members of an object up to its brace, as they are written; those
read so far are in reverse. -/
def members? : Nat → Nat → List (String × Json) → List Char →
    Option (List (String × Json) × List Char)
  | 0, _, _, _ => none
  | fuel + 1, depth, members, text =>
    match skipBlanks text with
    | '"' :: rest =>
      match string? fuel [] rest with
      | none => none
      | some (key, rest) =>
        match skipBlanks rest with
        | ':' :: rest =>
          match value? fuel depth rest with
          | none => none
          | some (value, rest) =>
            match skipBlanks rest with
            | ',' :: rest => members? fuel depth ((key, value) :: members) rest
            | '\x7d' :: rest => some (((key, value) :: members).reverse, rest)
            | _ => none
        | _ => none
    | _ => none

end

/-- The number of levels that a document may open. -/
def maxDepth : Nat := 127

/-- Reads a document that opens at most `depth` levels. -/
def readWithin? (depth : Nat) (text : String) : Option Json :=
  match value? (text.length + 1) depth text.toList with
  | some (json, rest) => if (skipBlanks rest).isEmpty then some json else none
  | none => none

/-- Reads a document that is an object, and gives its members as they are
written: in order, and with repeated names. -/
def readMembers? (text : String) : Option (List (String × Json)) :=
  match skipBlanks text.toList with
  | '\x7b' :: rest =>
    let found : Option (List (String × Json) × List Char) :=
      match skipBlanks rest with
      | '\x7d' :: rest => some ([], rest)
      | _ => members? (text.length + 1) (maxDepth - 1) [] rest
    match found with
    | some (members, rest) => if (skipBlanks rest).isEmpty then some members else none
    | none => none
  | _ => none

/-- Reads a document. -/
def read? (text : String) : Option Json := readWithin? maxDepth text

end Guion.Json
