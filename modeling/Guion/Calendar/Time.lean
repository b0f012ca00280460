/-
Times of day.

The text of a time is `HH:MM:SS`, two digits each. `TimeOfDay.read?` accepts
exactly the texts of the times that exist.
-/
import Guion.Decimal.Digits

namespace Guion

/-- A clock time within one day. -/
structure TimeOfDay where
  hour : Nat
  minute : Nat
  second : Nat
  deriving DecidableEq, Inhabited

namespace TimeOfDay

/-- The times that exist. -/
def Valid (t : TimeOfDay) : Prop := t.hour < 24 ∧ t.minute < 60 ∧ t.second < 60

instance (t : TimeOfDay) : Decidable t.Valid := inferInstanceAs (Decidable (_ ∧ _ ∧ _))

/-- Seconds since midnight. -/
def seconds (t : TimeOfDay) : Nat := t.hour * 3600 + t.minute * 60 + t.second

/-- A number with at least two digits. -/
def twoDigits (n : Nat) : List Char := Decimal.padZeros 2 (Decimal.digits n)

/-- `HH:MM:SS`. -/
def render (t : TimeOfDay) : List Char :=
  twoDigits t.hour ++ ':' :: twoDigits t.minute ++ ':' :: twoDigits t.second

/-- Reads `HH:MM:SS`. -/
def read? : List Char → Option TimeOfDay
  | [h1, h2, ':', m1, m2, ':', s1, s2] => do
    let hour ← Decimal.readNat? [h1, h2]
    let minute ← Decimal.readNat? [m1, m2]
    let second ← Decimal.readNat? [s1, s2]
    let time : TimeOfDay := ⟨hour, minute, second⟩
    if time.Valid then some time else none
  | _ => none

/-- Chronological order. -/
def compare (a b : TimeOfDay) : Ordering :=
  (Ord.compare a.hour b.hour).then ((Ord.compare a.minute b.minute).then
    (Ord.compare a.second b.second))

end TimeOfDay
end Guion
