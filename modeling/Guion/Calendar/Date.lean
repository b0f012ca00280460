/-
Calendar dates, with or without a time of day.

The text is `YYYY-MM-DD`, with ` HH:MM:SS` behind it when there is a time.
`Date.read?` accepts exactly the texts of the days of the Gregorian calendar
in four-digit years.
-/
import Guion.Calendar.Time

namespace Guion

/-- A calendar date with an optional time of day. -/
structure Date where
  year : Int
  month : Nat
  day : Nat
  time : Option TimeOfDay := none
  deriving DecidableEq, Inhabited

namespace Date

/-- Gregorian leap years. -/
def isLeapYear (year : Int) : Bool :=
  (year % 4 == 0 && year % 100 != 0) || year % 400 == 0

/-- The number of days of a month; 0 for a month that does not exist. -/
def daysInMonth (year : Int) (month : Nat) : Nat :=
  match month with
  | 1 | 3 | 5 | 7 | 8 | 10 | 12 => 31
  | 4 | 6 | 9 | 11 => 30
  | 2 => if isLeapYear year then 29 else 28
  | _ => 0

/-- The days that exist. -/
def DayExists (d : Date) : Prop :=
  1 ≤ d.month ∧ d.month ≤ 12 ∧ 1 ≤ d.day ∧ d.day ≤ daysInMonth d.year d.month

instance (d : Date) : Decidable d.DayExists := inferInstanceAs (Decidable (_ ∧ _ ∧ _ ∧ _))

/-- A year with at least four characters, the sign counted. -/
def renderYear (year : Int) : List Char :=
  if year < 0 then '-' :: Decimal.padZeros 3 (Decimal.digits year.natAbs)
  else Decimal.padZeros 4 (Decimal.digits year.natAbs)

/-- `YYYY-MM-DD`, and the time behind a space. -/
def render (d : Date) : List Char :=
  renderYear d.year ++ '-' :: TimeOfDay.twoDigits d.month ++ '-' :: TimeOfDay.twoDigits d.day ++
    match d.time with
    | none => []
    | some time => ' ' :: time.render

/-- Reads the time part behind a date. -/
def readTime? : List Char → Option (Option TimeOfDay)
  | [] => some none
  | ' ' :: rest => (TimeOfDay.read? rest).map some
  | _ => none

/-- Reads `YYYY-MM-DD` or `YYYY-MM-DD HH:MM:SS`. -/
def read? : List Char → Option Date
  | y1 :: y2 :: y3 :: y4 :: '-' :: m1 :: m2 :: '-' :: d1 :: d2 :: rest => do
    let year ← Decimal.readNat? [y1, y2, y3, y4]
    let month ← Decimal.readNat? [m1, m2]
    let day ← Decimal.readNat? [d1, d2]
    let date : Date := { year := year, month := month, day := day }
    if date.DayExists then do
      let time ← readTime? rest
      some { date with time := time }
    else none
  | _ => none

/-- Chronological order; a date without a time comes before the same date with
one. -/
def compare (a b : Date) : Ordering :=
  (Ord.compare a.year b.year).then ((Ord.compare a.month b.month).then
    ((Ord.compare a.day b.day).then
      (match a.time, b.time with
      | none, none => .eq
      | none, some _ => .lt
      | some _, none => .gt
      | some s, some t => s.compare t)))

end Date
end Guion
