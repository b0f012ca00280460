/-
Integer arithmetic never wraps.

The integer kinds are `entero`, `bit` and `booleano`; `Denotes` gives a value of one
of them its integer. For two such values each of `+ - *` gives the exact result if it
is one of 64 bits, and otherwise a real, which is finite, since the result of two
integers of 64 bits is far from the largest number. A remainder is no larger than the
dividend, so it always fits; the one quotient that does not fit is refused before.
-/
import Guion.Proofs.Operator.Order

namespace Guion

/-- The integers of 64 bits. -/
def Fits (i : Int) : Prop := -2 ^ 63 ≤ i ∧ i < 2 ^ 63

instance (i : Int) : Decidable (Fits i) := inferInstanceAs (Decidable (_ ∧ _))

theorem Fits.toInt_ofInt {i : Int} (h : Fits i) : (Int64.ofInt i).toInt = i :=
  Int64.toInt_ofInt_of_le h.1 h.2

theorem int64?_of_fits {i : Int} (h : Fits i) : int64? i = some (.ofInt i) := if_pos h

theorem int64?_of_not_fits {i : Int} (h : ¬ Fits i) : int64? i = none := if_neg h

theorem fits_toInt (i : Int64) : Fits i.toInt := ⟨Int64.le_toInt i, Int64.toInt_lt i⟩

/-- A value of an integer kind and the integer that it stands for. -/
inductive Value.Denotes : Value → Int → Prop
  | integer (i : Int64) : Denotes (.integer i) i.toInt
  | bit (b : Bool) : Denotes (.bit b) (if b then 1 else 0)
  | boolean (b : Bool) : Denotes (.boolean b) (if b then 1 else 0)

namespace Operator

variable {a b : Value} {x y : Int} {line : Nat}

theorem exists_asInteger? (h : a.Denotes x) : ∃ i : Int64, a.asInteger? = some i ∧ i.toInt = x := by
  cases h with
  | integer i => exact ⟨i, rfl, rfl⟩
  | bit b | boolean b =>
    refine ⟨if b then 1 else 0, rfl, ?_⟩
    cases b <;> rfl

theorem natAbs_le_of_denotes (h : a.Denotes x) : x.natAbs ≤ 2 ^ 63 := by
  obtain ⟨i, -, rfl⟩ := exists_asInteger? h
  exact Value.natAbs_toInt_le i

theorem realOf_of_denotes (h : a.Denotes x) : realOf line a = .ok (.ofInt x) := by
  obtain ⟨i, hi, rfl⟩ := exists_asInteger? h
  rw [realOf, Value.toReal_of_asInteger? hi]
  rfl

/-! ## Sums, differences and products -/

/-- The exact result of `+`, `-` or `*`. -/
def exactResult : BinaryOperator → Int → Int → Int
  | .add, x, y => x + y
  | .sub, x, y => x - y
  | _, x, y => x * y

/-- The result of an operation on integers: the exact one if it fits, and a finite
real otherwise. -/
def Exact (result : Except RuntimeError Value) (exact : Int) : Prop :=
  (Fits exact → ∃ i : Int64, i.toInt = exact ∧ result = .ok (.integer i)) ∧
  (¬ Fits exact → ∃ z : Binary64, z.isFinite = true ∧ result = .ok (.real z))

theorem magnitude_ofInt_le (h : x.natAbs ≤ 2 ^ 63) : (Binary64.ofInt x).magnitude ≤ 2 ^ 64 * 2 ^ 1074 := by
  have finite := Binary64.isFinite_ofInt h
  rw [Binary64.ofInt_eq] at finite ⊢
  have bound := (Binary64.magnitude_round Nat.one_pos finite).1
  rw [Nat.mul_one, ← Nat.mul_assoc] at bound
  exact Nat.le_trans bound (Nat.mul_le_mul_right _ (by omega))

/-- The real result of two integers of 64 bits is not too large. -/
theorem realArithmetic_of_denotes {op : BinaryOperator} (hop : op = .add ∨ op = .sub ∨ op = .mul) (ha : a.Denotes x)
    (hb : b.Denotes y) : ∃ z : Binary64, z.isFinite = true ∧ realArithmetic op a b line = .ok (.real z) := by
  have fx := Binary64.isFinite_ofInt (natAbs_le_of_denotes ha)
  have fy := Binary64.isFinite_ofInt (natAbs_le_of_denotes hb)
  have boundX := magnitude_ofInt_le (natAbs_le_of_denotes ha)
  have boundY := magnitude_ofInt_le (natAbs_le_of_denotes hb)
  have exact : ¬ (a.kind = .decimal ∨ b.kind = .decimal) := by
    cases ha <;> cases hb <;> simp [Value.kind]
  have result : ∀ z : Binary64, z.isFinite = true →
      (if !z.isFinite then .error (.overflow line)
        else if a.kind = .decimal ∨ b.kind = .decimal then .ok (.decimal z) else .ok (.real z) :
          Except RuntimeError Value) = .ok (.real z) := by
    intro z hz
    rw [hz, if_neg exact]
    rfl
  have sums : 2 ^ 64 * 2 ^ 1074 + 2 ^ 64 * 2 ^ 1074 ≤ Binary64.largest := by decide +kernel
  have products : 2 ^ 64 * 2 ^ 1074 * (2 ^ 64 * 2 ^ 1074) ≤ Binary64.largest * Binary64.unitsPerOne := by
    decide +kernel
  unfold realArithmetic
  rw [realOf_of_denotes ha, realOf_of_denotes hb]
  obtain rfl | rfl | rfl := hop
  · have finite := Binary64.isFinite_add fx fy (Nat.le_trans (Nat.add_le_add boundX boundY) sums)
    exact ⟨_, finite, result _ finite⟩
  · have finite : ((Binary64.ofInt x).sub (.ofInt y)).isFinite = true := by
      rw [Binary64.sub, Binary64.isNaN_of_isFinite fy, if_neg Bool.false_ne_true]
      refine Binary64.isFinite_add fx ((Binary64.isFinite_neg _).trans fy) ?_
      rw [Binary64.magnitude_neg]
      exact Nat.le_trans (Nat.add_le_add boundX boundY) sums
    exact ⟨_, finite, result _ finite⟩
  · have finite := Binary64.isFinite_mul fx fy (Nat.le_trans (Nat.mul_le_mul boundX boundY) products)
    exact ⟨_, finite, result _ finite⟩

theorem numericArithmetic_of_denotes {op : BinaryOperator} (hop : op = .add ∨ op = .sub ∨ op = .mul) (ha : a.Denotes x)
    (hb : b.Denotes y) :
    binary op a b line =
      match int64? (exactResult op x y) with
      | some i => .ok (.integer i)
      | none => realArithmetic op a b line := by
  have numeric : binary op a b line = numericArithmetic op a b line := by
    obtain rfl | rfl | rfl := hop <;> cases ha <;> cases hb <;> rfl
  have real : ¬ (a.kind = .complex ∨ b.kind = .complex) := by
    cases ha <;> cases hb <;> simp [Value.kind]
  obtain ⟨i, hi, rfl⟩ := exists_asInteger? ha
  obtain ⟨j, hj, rfl⟩ := exists_asInteger? hb
  rw [numeric, numericArithmetic, if_neg real, hi, hj]
  obtain rfl | rfl | rfl := hop <;> rfl

/-- **A sum, a difference or a product is exact if it fits, and a real otherwise.** -/
theorem arithmetic_exact {op : BinaryOperator} (hop : op = .add ∨ op = .sub ∨ op = .mul) (ha : a.Denotes x)
    (hb : b.Denotes y) (line : Nat) : Exact (binary op a b line) (exactResult op x y) := by
  rw [numericArithmetic_of_denotes hop ha hb]
  constructor
  · intro fits
    rw [int64?_of_fits fits]
    exact ⟨_, fits.toInt_ofInt, rfl⟩
  · intro large
    rw [int64?_of_not_fits large]
    exact realArithmetic_of_denotes hop ha hb

/-! ## Remainders -/

/-- A remainder of a division: smaller than the divisor, and zero or with the sign of
the dividend. -/
def IsRemainder (x y r : Int) : Prop :=
  (∃ q, x = q * y + r) ∧ r.natAbs < y.natAbs ∧ (r = 0 ∨ r.sign = x.sign)

theorem isRemainder_tmod (nonzero : y ≠ 0) : IsRemainder x y (x.tmod y) := by
  refine ⟨⟨x.tdiv y, (Int.tdiv_mul_add_tmod x y).symm⟩, ?_, ?_⟩
  · rw [Int.natAbs_tmod]
    exact Nat.mod_lt _ (Int.natAbs_pos.mpr nonzero)
  · by_cases zero : x.tmod y = 0
    · exact .inl zero
    · right
      rw [Int.sign_tmod, if_neg fun divides => zero (Int.tmod_eq_zero_of_dvd divides)]

/-- A remainder is smaller than a divisor of 64 bits. -/
theorem IsRemainder.fits {r : Int} (h : IsRemainder x y r) (hy : y.natAbs ≤ 2 ^ 63) : Fits r := by
  obtain ⟨-, small, -⟩ := h
  unfold Fits
  omega

theorem modulo_of_denotes (ha : a.Denotes x) (hb : b.Denotes y) (line : Nat) :
    binary .mod a b line =
      if y = 0 then .error (.divisionByZero line)
      else if x = -2 ^ 63 ∧ y = -1 then .error (.overflow line)
      else integerResult (x.tmod y) line := by
  have real : ¬ (a.kind = .complex ∨ b.kind = .complex) := by
    cases ha <;> cases hb <;> simp [Value.kind]
  have remainder : binary .mod a b line = modulo a b line := by
    show numericArithmetic .mod a b line = _
    rw [numericArithmetic, if_neg real]
    rfl
  obtain ⟨i, hi, rfl⟩ := exists_asInteger? ha
  obtain ⟨j, hj, rfl⟩ := exists_asInteger? hb
  have zero : j = 0 ↔ j.toInt = 0 := by rw [← Int64.toInt_inj]; rfl
  rw [remainder, modulo, moduloOperand, moduloOperand, hi, hj]
  simp only [← zero]
  rfl

/-- **A remainder is exact**, unless the divisor is zero or the quotient does not
fit. -/
theorem modulo_exact (ha : a.Denotes x) (hb : b.Denotes y) (nonzero : y ≠ 0) (fits : ¬ (x = -2 ^ 63 ∧ y = -1))
    (line : Nat) : ∃ r : Int64, IsRemainder x y r.toInt ∧ binary .mod a b line = .ok (.integer r) := by
  have remainder : IsRemainder x y (x.tmod y) := isRemainder_tmod nonzero
  have small : Fits (x.tmod y) := remainder.fits (natAbs_le_of_denotes hb)
  refine ⟨.ofInt (x.tmod y), small.toInt_ofInt.symm ▸ remainder, ?_⟩
  rw [modulo_of_denotes ha hb, if_neg nonzero, if_neg fits, integerResult, int64?_of_fits small]

/-! ## Opposites and orders -/

theorem negate_of_denotes (ha : a.Denotes x) (line : Nat) : unary .negate a line = integerResult (-x) line := by
  cases ha with
  | integer i => rfl
  | bit b | boolean b => cases b <;> rfl

theorem ordering_of_denotes {op : BinaryOperator} {accepts : Ordering → Bool} (h : ordering? op = some accepts)
    (ha : a.Denotes x) (hb : b.Denotes y) (line : Nat) :
    binary op a b line = .ok (.boolean (accepts (compare x y))) := by
  obtain ⟨i, hi, rfl⟩ := exists_asInteger? ha
  obtain ⟨j, hj, rfl⟩ := exists_asInteger? hb
  exact (ordering_eq_ok h).mpr ⟨_, .integers hi hj, rfl⟩

/-- What the ordering operators accept of the order of two integers. -/
theorem accepts_compare (x y : Int) :
    (compare x y == .lt) = decide (x < y) ∧ (compare x y != .gt) = decide (x ≤ y) ∧
    (compare x y == .gt) = decide (x > y) ∧ (compare x y != .lt) = decide (x ≥ y) := by
  rw [Int.compare_eq_ite_lt]
  refine ⟨?_, ?_, ?_, ?_⟩ <;> grind

/-- **Arithmetic on integers never wraps**, and integers are compared exactly. -/
theorem integers_exact {a b : Value} {x y : Int} (ha : a.Denotes x) (hb : b.Denotes y) (line : Nat) :
    (Exact (binary .add a b line) (x + y) ∧ Exact (binary .sub a b line) (x - y) ∧
      Exact (binary .mul a b line) (x * y)) ∧
    ((y = 0 → binary .mod a b line = .error (.divisionByZero line)) ∧
      (x = -2 ^ 63 → y = -1 → binary .mod a b line = .error (.overflow line)) ∧
      (y ≠ 0 → ¬ (x = -2 ^ 63 ∧ y = -1) →
        ∃ r : Int64, IsRemainder x y r.toInt ∧ binary .mod a b line = .ok (.integer r))) ∧
    ((x = -2 ^ 63 → unary .negate a line = .error (.overflow line)) ∧
      (x ≠ -2 ^ 63 → ∃ i : Int64, i.toInt = -x ∧ unary .negate a line = .ok (.integer i))) ∧
    (binary .less a b line = .ok (.boolean (decide (x < y))) ∧
      binary .lessEqual a b line = .ok (.boolean (decide (x ≤ y))) ∧
      binary .greater a b line = .ok (.boolean (decide (x > y))) ∧
      binary .greaterEqual a b line = .ok (.boolean (decide (x ≥ y)))) := by
  refine ⟨⟨arithmetic_exact (.inl rfl) ha hb line, arithmetic_exact (.inr (.inl rfl)) ha hb line,
    arithmetic_exact (.inr (.inr rfl)) ha hb line⟩, ⟨?_, ?_, fun nonzero fits => modulo_exact ha hb nonzero fits line⟩,
    ⟨?_, ?_⟩, ?_⟩
  · intro zero
    rw [modulo_of_denotes ha hb, if_pos zero]
  · intro least minus
    rw [modulo_of_denotes ha hb, if_neg (by omega), if_pos ⟨least, minus⟩]
  · intro least
    have large : ¬ Fits (-x) := by unfold Fits; omega
    rw [negate_of_denotes ha, integerResult, int64?_of_not_fits large]
  · intro other
    have small := natAbs_le_of_denotes ha
    have fits : Fits (-x) := by unfold Fits; omega
    refine ⟨.ofInt (-x), fits.toInt_ofInt, ?_⟩
    rw [negate_of_denotes ha, integerResult, int64?_of_fits fits]
  · rw [ordering_of_denotes rfl ha hb, ordering_of_denotes rfl ha hb, ordering_of_denotes rfl ha hb,
      ordering_of_denotes rfl ha hb]
    obtain ⟨less, lessEqual, greater, greaterEqual⟩ := accepts_compare x y
    rw [less, lessEqual, greater, greaterEqual]
    exact ⟨rfl, rfl, rfl, rfl⟩

/-- The least integer and minus one: the sum and the product do not fit, nor do the
quotient and the opposite. -/
theorem integers_exact_least :
    let a : Value := .integer (-9223372036854775808)
    let b : Value := .integer (-1)
    a.Denotes (-2 ^ 63) ∧ b.Denotes (-1) ∧
    (∃ z : Binary64, z.isFinite = true ∧ binary .add a b 1 = .ok (.real z)) ∧
    (∃ z : Binary64, z.isFinite = true ∧ binary .mul a b 1 = .ok (.real z)) ∧
    (∃ i : Int64, i.toInt = -2 ^ 63 + 1 ∧ binary .sub a b 1 = .ok (.integer i)) ∧
    binary .mod a b 1 = .error (.overflow 1) ∧ unary .negate a 1 = .error (.overflow 1) ∧
    binary .less a b 1 = .ok (.boolean true) := by
  intro a b
  have ha : a.Denotes (-2 ^ 63) := .integer (-9223372036854775808)
  have hb : b.Denotes (-1) := .integer (-1)
  obtain ⟨⟨sum, difference, product⟩, ⟨-, remainder, -⟩, ⟨opposite, -⟩, less, -⟩ := integers_exact ha hb 1
  exact ⟨ha, hb, sum.2 (by decide), product.2 (by decide), difference.1 (by decide), remainder rfl rfl,
    opposite rfl, less⟩

end Operator
end Guion
