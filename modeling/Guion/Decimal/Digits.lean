/-
Decimal digits of natural numbers, and reading them back.

`digits n` is the usual positional text. `padZeros` fills it with zeros on
the left, `digitValue` and `natOfDigits` read it. Signed integers have one text,
the digits after an optional minus sign, and several readings: the reader
takes a plus or a minus sign and at least one digit. Where only a limited
range counts, a long run is read up to a limit (`natOfDigitsUpTo`);
`readInt64?_eq` says that this changes nothing for 64-bit integers.
-/

namespace Guion.Decimal

/-- The decimal digits of `n`, most significant first. -/
def digits (n : Nat) : List Char := Nat.toDigits 10 n

/-- The number of decimal digits of `n`; zero has one. -/
def digitCount (n : Nat) : Nat := (digits n).length

/-- `text` with zeros in front of it up to the given width. -/
def padZeros (width : Nat) (text : List Char) : List Char :=
  List.replicate (width - text.length) '0' ++ text

/-- The text of an integer. -/
def ofInt (i : Int) : List Char :=
  if i < 0 then '-' :: digits i.natAbs else digits i.natAbs

/-- Whether a character is one of the ten ASCII digits. -/
def isDigit (c : Char) : Bool := '0' ≤ c && c ≤ '9'

/-- The value of an ASCII digit. -/
def digitValue (c : Char) : Nat := c.toNat - '0'.toNat

/-- The number that a run of ASCII digits writes. -/
def natOfDigits (text : List Char) : Nat :=
  text.foldl (fun n c => n * 10 + digitValue c) 0

/-- The number that a run of ASCII digits writes, up to the digit that brings it to
the limit; the digits behind that one are ignored. -/
def natOfDigitsUpTo (limit : Nat) (text : List Char) : Nat :=
  text.foldl (fun n c => if n < limit then n * 10 + digitValue c else n) 0

/-- Reads a non-empty run of ASCII digits. The value is left to the reader. -/
def readRun? (value : List Char → Nat) (text : List Char) : Option Nat :=
  if text.isEmpty || !text.all isDigit then none else some (value text)

/-- Reads an optional sign and a non-empty run of digits. -/
def readSigned? (value : List Char → Nat) : List Char → Option Int
  | '-' :: rest => (readRun? value rest).map fun (n : Nat) => -(n : Int)
  | '+' :: rest => (readRun? value rest).map fun (n : Nat) => (n : Int)
  | text => (readRun? value text).map fun (n : Nat) => (n : Int)

/-- Reads a natural number. -/
def readNat? (text : List Char) : Option Nat := readRun? natOfDigits text

/-- Reads an integer. -/
def readInt? (text : List Char) : Option Int := readSigned? natOfDigits text

/-! ## The limit -/

/-- Two runs of the readers, from equal numbers or from numbers that have both
reached the limit, stay so. -/
theorem foldl_upTo (limit : Nat) (text : List Char) (n m : Nat)
    (h : n = m ∨ (limit ≤ n ∧ limit ≤ m)) :
    let bounded := text.foldl (fun n c => if n < limit then n * 10 + digitValue c else n) n
    let exact := text.foldl (fun n c => n * 10 + digitValue c) m
    bounded = exact ∨ (limit ≤ bounded ∧ limit ≤ exact) := by
  induction text generalizing n m with
  | nil => exact h
  | cons c rest ih =>
    apply ih
    rcases h with rfl | ⟨hn, hm⟩
    · by_cases hlt : n < limit
      · simp [hlt]
      · simp only [hlt, if_false]; omega
    · simp only [Nat.not_lt.mpr hn, if_false]; omega

/-- The bounded reading is exact or has reached the limit, and then so has the
exact one. -/
theorem natOfDigitsUpTo_eq_or (limit : Nat) (text : List Char) :
    natOfDigitsUpTo limit text = natOfDigits text ∨
      (limit ≤ natOfDigitsUpTo limit text ∧ limit ≤ natOfDigits text) :=
  foldl_upTo limit text 0 0 (.inl rfl)

end Guion.Decimal

namespace Guion

/-- The signed 64-bit integer equal to `i`, if there is one. -/
def int64? (i : Int) : Option Int64 :=
  if -0x8000_0000_0000_0000 ≤ i ∧ i < 0x8000_0000_0000_0000 then some (Int64.ofInt i) else none

/-- Past this number nothing is a 64-bit integer, `2 ^ 64`. -/
def int64Limit : Nat := 0x1_0000_0000_0000_0000

/-- Reads a signed 64-bit integer. -/
def readInt64? (text : List Char) : Option Int64 :=
  (Decimal.readSigned? (Decimal.natOfDigitsUpTo int64Limit) text).bind int64?

/-- Numbers past the limit are no 64-bit integers, whatever their signs. -/
theorem int64?_eq_none_of_le {n : Nat} (h : int64Limit ≤ n) :
    int64? n = none ∧ int64? (-(n : Int)) = none := by
  unfold int64Limit at h
  constructor <;> (unfold int64?; rw [if_neg]; omega)

/-- The bounded reading finds the 64-bit integer of a run of digits. -/
theorem readRun?_bind_int64? (text : List Char) (sign : Nat → Int)
    (h : ∀ n, int64Limit ≤ n → int64? (sign n) = none) :
    ((Decimal.readRun? (Decimal.natOfDigitsUpTo int64Limit) text).map sign).bind int64? =
      ((Decimal.readNat? text).map sign).bind int64? := by
  unfold Decimal.readNat? Decimal.readRun?
  split
  · rfl
  · rcases Decimal.natOfDigitsUpTo_eq_or int64Limit text with heq | ⟨hb, he⟩
    · rw [heq]
    · simp [h _ hb, h _ he]

/-- A 64-bit integer is read as any integer is. -/
theorem readInt64?_eq (text : List Char) :
    readInt64? text = (Decimal.readInt? text).bind int64? := by
  unfold readInt64? Decimal.readInt? Decimal.readSigned?
  split
  · exact readRun?_bind_int64? _ (fun (n : Nat) => -(n : Int)) fun n h => (int64?_eq_none_of_le h).2
  · exact readRun?_bind_int64? _ (fun (n : Nat) => (n : Int)) fun n h => (int64?_eq_none_of_le h).1
  · exact readRun?_bind_int64? _ (fun (n : Nat) => (n : Int)) fun n h => (int64?_eq_none_of_le h).1

end Guion
