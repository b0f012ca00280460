/-
Spans of whole seconds.

The text of a span lists its hours, minutes and seconds, each with its unit
and each only when it is not zero. The reader takes the same units in the
same order, each at most once, or a bare number of seconds.
-/
import Guion.Decimal.Digits
import Guion.Text.Blank

namespace Guion

/-- A signed span of seconds. -/
structure Duration where
  seconds : Int64
  deriving DecidableEq, Inhabited

namespace Duration

/-- A positive amount with its unit; nothing for zero. -/
def part (amount : Nat) (unit : Char) : List Char :=
  if amount = 0 then [] else Decimal.digits amount ++ [unit]

/-- The text of a span, such as `2h30m` or `-45s`. -/
def render (d : Duration) : List Char :=
  let s := d.seconds.toInt
  let total := s.natAbs
  if total = 0 then ['0', 's']
  else
    (if s < 0 then ['-'] else []) ++
      (part (total / 3600) 'h' ++ (part (total % 3600 / 60) 'm' ++ part (total % 60) 's'))

/-- The rank and the length in seconds of a unit; ranks go up from left to
right. -/
def unit? : Char → Option (Nat × Nat)
  | 'h' => some (1, 3600)
  | 'm' => some (2, 60)
  | 's' => some (3, 1)
  | _ => none

/-- Adds up amounts with units. `rank` is that of the last unit, `digits` the
digits read since, in reverse. -/
def readUnits? : Int → Nat → List Char → List Char → Option Int
  | total, _, digits, [] => if digits.isEmpty then some total else none
  | total, rank, digits, c :: rest =>
    if Decimal.isDigit c then readUnits? total rank (c :: digits) rest
    else do
      let (newRank, factor) ← unit? c
      if digits.isEmpty ∨ newRank ≤ rank then none
      else do
        let amount ← readInt64? digits.reverse
        let portion ← int64? (amount.toInt * factor)
        let sum ← int64? (total + portion.toInt)
        readUnits? sum.toInt newRank [] rest

/-- Reads a span without its sign. -/
def readBody? (body : List Char) : Option Int :=
  if body.isEmpty then none
  else
    match readInt64? body with
    | some seconds => some seconds.toInt
    | none => readUnits? 0 0 [] body

/-- Reads a span; blanks around it are ignored. -/
def read? (text : List Char) : Option Duration :=
  match Text.trim text with
  | '-' :: body => (readBody? body).map fun s => ⟨Int64.ofInt (-s)⟩
  | body => (readBody? body).map fun s => ⟨Int64.ofInt s⟩

end Duration
end Guion
