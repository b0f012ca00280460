/-
Integers of at most 53 bits are numbers, exactly.

A magnitude that is a multiple of its rounding unit is its own rounding
(`magnitude_round_of_dvd`), and integers up to `2 ^ 53` are (`magnitude_ofInt`). So
between them sums are exact (`add_ofInt`), the order is that of the integers
(`less_ofInt`), and a real that came from one is read back as it
(`exactInteger?_realOfInteger`), up to the largest integer that is read back at all.

At `2 ^ 53` this ends: one more rounds back to `2 ^ 53` (`add_one_limit`), and the
numbers of larger integers are no smaller (`not_less_limit`).
-/
import Guion.Proofs.Binary64.Finite

namespace Guion.Binary64

variable {x y : Binary64}

/-! ## Order and whole numbers -/

theorem compareSigned_eq_lt {s t : Bool} {a b : Nat} : compareSigned s a t b = .lt ↔ signed s a < signed t b := by
  unfold compareSigned signed
  cases s <;> cases t <;> grind [Nat.compare_eq_lt]

theorem signed_mul_lt {s t : Bool} {a b c : Nat} (hc : 0 < c) :
    signed s (a * c) < signed t (b * c) ↔ signed s a < signed t b := by
  have positive : (0 : Int) < c := Int.natCast_pos.mpr hc
  have apart : ∀ (s : Bool) (a : Nat), signed s (a * c) = signed s a * c := by
    intro s a
    cases s
    · exact Int.natCast_mul a c
    · exact (congrArg Neg.neg (Int.natCast_mul a c)).trans (Int.neg_mul ..).symm
  rw [apart, apart, Int.mul_lt_mul_right positive]

/-- Finite numbers are in the order of their units. -/
theorem less_eq (hx : x.isFinite = true) (hy : y.isFinite = true) : x.less y = decide (x.scaled < y.scaled) := by
  cases x with
  | infinite s => cases hx
  | nan s quiet => cases hx
  | finite s m p hm =>
  cases y with
  | infinite t => cases hy
  | nan t quiet => cases hy
  | finite t n q hn =>
  rw [Bool.eq_iff_iff, decide_eq_true_iff, scaled, scaled, magnitude_finite, magnitude_finite,
    mul_two_pow_eq m p q, mul_two_pow_eq n q p, Nat.min_comm q p, signed_mul_lt (Nat.two_pow_pos _), ← shiftUp_eq,
    ← shiftUp_eq]
  simp only [less, compare?, beq_iff_eq, Option.some.injEq]
  exact compareSigned_eq_lt

theorem shift_eq_div (m p places : Nat) : (m <<< (p - places)) >>> (places - p) = m * 2 ^ p / 2 ^ places := by
  rw [Nat.shiftLeft_eq, Nat.shiftRight_eq_div_pow]
  obtain ⟨more, rfl⟩ | ⟨less, rfl⟩ : (∃ more, p = more + places) ∨ ∃ less, places = less + p := by
    obtain h | h := Nat.le_total places p
    · exact .inl ⟨_, (Nat.sub_add_cancel h).symm⟩
    · exact .inr ⟨_, (Nat.sub_add_cancel h).symm⟩
  · rw [Nat.add_sub_cancel, Nat.sub_eq_zero_of_le (Nat.le_add_left ..), Nat.pow_zero, Nat.div_one, Nat.pow_add,
      ← Nat.mul_assoc, Nat.mul_div_cancel _ (Nat.two_pow_pos _)]
  · rw [Nat.add_sub_cancel, Nat.sub_eq_zero_of_le (Nat.le_add_left ..), Nat.pow_zero, Nat.mul_one, Nat.pow_add,
      Nat.mul_div_mul_right _ _ (Nat.two_pow_pos _)]

theorem truncate?_eq (h : x.isFinite = true) : x.truncate? = some (signed x.isNegative (x.magnitude / 2 ^ 1074)) := by
  cases x with
  | infinite s => cases h
  | nan s quiet => cases h
  | finite s m p hm =>
    rw [magnitude_finite, truncate?, shift_eq_div]
    rfl

theorem isWhole_of_dvd (h : x.isFinite = true) (whole : 2 ^ 1074 ∣ x.magnitude) : x.isWhole = true := by
  cases x with
  | infinite s => cases h
  | nan s quiet => cases h
  | finite s m p hm =>
    rw [magnitude_finite] at whole
    rw [isWhole, beq_iff_eq, Nat.shiftLeft_eq, Nat.one_mul]
    refine Nat.mod_eq_zero_of_dvd ?_
    obtain more | less := Nat.le_total 1074 p
    · rw [Nat.sub_eq_zero_of_le more, Nat.pow_zero]
      exact Nat.one_dvd m
    · rw [← Nat.sub_add_cancel less, Nat.pow_add] at whole
      exact Nat.dvd_of_mul_dvd_mul_right (Nat.two_pow_pos p) whole

/-! ## Exact magnitudes -/

/-- A magnitude that is a multiple of its rounding unit is its own rounding. -/
theorem magnitude_round_of_dvd {negative : Bool} {n : Nat} (finite : (round negative n 1).isFinite = true)
    (exact : 2 ^ (n.log2 + 1 - 53) ∣ n) : (round negative n 1).magnitude = n := by
  rw [round_eq, Nat.div_one, Nat.one_mul] at finite ⊢
  generalize n.log2 + 1 - 53 = power at *
  obtain ⟨significand, rfl⟩ := exact
  have unit := Nat.two_pow_pos power
  have whole : ¬ (2 ^ power < 2 * 0 ∨ 2 * 0 = 2 ^ power ∧ significand % 2 = 1) := by omega
  unfold nearest at finite ⊢
  simp only [Nat.mul_mod_right, Nat.mul_div_cancel_left _ unit, if_neg whole] at finite ⊢
  split at finite
  · next full => rw [if_pos full, magnitude_make finite, full, Nat.mul_comm, Nat.pow_succ, Nat.mul_assoc]
  · next short => rw [if_neg short, magnitude_make finite, Nat.mul_comm]

/-- A number of 53 bits is a multiple of its rounding unit, wherever the bits stand. -/
theorem rounding_unit_dvd {n : Nat} (h : n ≤ 2 ^ 53) (places : Nat) :
    2 ^ ((n * 2 ^ places).log2 + 1 - 53) ∣ n * 2 ^ places := by
  obtain rfl | positive := Nat.eq_zero_or_pos n
  · rw [Nat.zero_mul]
    exact Nat.dvd_zero _
  have bits := log2_mul_two_pow_div places Nat.one_pos positive
  rw [Nat.div_one, Nat.div_one] at bits
  rw [bits]
  obtain short | rfl := Nat.lt_or_eq_of_le h
  · have short : n.log2 < 53 := (Nat.log2_lt (Nat.ne_of_gt positive)).mpr short
    exact Nat.dvd_mul_left_of_dvd (Nat.pow_dvd_pow 2 (by omega)) _
  · rw [Nat.log2_two_pow, ← Nat.pow_add]
    exact Nat.pow_dvd_pow 2 (by omega)

/-! ## Integers -/

theorem isFinite_ofInt_of_le {i : Int} (h : i.natAbs ≤ 2 ^ 53) : (ofInt i).isFinite = true :=
  isFinite_ofInt (Nat.le_trans h (by decide))

theorem magnitude_ofInt {i : Int} (h : i.natAbs ≤ 2 ^ 53) : (ofInt i).magnitude = i.natAbs * 2 ^ 1074 := by
  have finite := isFinite_ofInt_of_le h
  rw [ofInt_eq] at finite ⊢
  exact magnitude_round_of_dvd finite (rounding_unit_dvd h 1074)

@[simp] theorem isNegative_ofInt (i : Int) : (ofInt i).isNegative = decide (i < 0) := by
  rw [ofInt_eq, isNegative_round]

theorem signed_natAbs (i : Int) : signed (decide (i < 0)) i.natAbs = i := by
  unfold signed
  grind

theorem addSigned_natAbs (i j : Int) :
    addSigned (decide (i < 0)) i.natAbs (decide (j < 0)) j.natAbs = (decide (i + j < 0), (i + j).natAbs) := by
  unfold addSigned
  grind

section

variable {i j : Int} (hi : i.natAbs ≤ 2 ^ 53) (hj : j.natAbs ≤ 2 ^ 53)

include hi hj

/-- **The order of integers of 53 bits** is that of their numbers. -/
theorem less_ofInt : (ofInt i).less (ofInt j) = decide (i < j) := by
  rw [less_eq (isFinite_ofInt_of_le hi) (isFinite_ofInt_of_le hj), decide_eq_decide, scaled, scaled, isNegative_ofInt,
    isNegative_ofInt, magnitude_ofInt hi, magnitude_ofInt hj, signed_mul_lt (Nat.two_pow_pos 1074), signed_natAbs,
    signed_natAbs]

/-- **The sum of integers of 53 bits** is the number of their sum. -/
theorem add_ofInt : (ofInt i).add (ofInt j) = ofInt (i + j) := by
  rw [add_eq (isFinite_ofInt_of_le hi) (isFinite_ofInt_of_le hj), magnitude_ofInt hi, magnitude_ofInt hj,
    isNegative_ofInt, isNegative_ofInt, addSigned_mul _ _ _ _ (Nat.two_pow_pos 1074), addSigned_natAbs, ofInt_eq]

end

/-! ## Beyond -/

/-- Rounding does not go below a power of two. -/
theorem two_pow_le_magnitude_round {negative : Bool} {n k : Nat} (h : 2 ^ k ≤ n)
    (finite : (round negative n 1).isFinite = true) : 2 ^ k ≤ (round negative n 1).magnitude := by
  have nonzero : n ≠ 0 := Nat.ne_of_gt (Nat.lt_of_lt_of_le (Nat.two_pow_pos k) h)
  have low := Nat.log2_self_le nonzero
  rw [round_eq, Nat.div_one, Nat.one_mul] at finite ⊢
  obtain ⟨significand, magnitude, floor, -⟩ := magnitude_nearest finite
  rw [magnitude]
  -- What is cut off is no more than what stands above the leading bit.
  obtain short | long := Nat.le_total (n.log2 + 1 - 53) k
  · have kept : 2 ^ (k - (n.log2 + 1 - 53)) ≤ n / 2 ^ (n.log2 + 1 - 53) := by
      rwa [Nat.le_div_iff_mul_le (Nat.two_pow_pos _), ← Nat.pow_add, Nat.sub_add_cancel short]
    calc 2 ^ k = 2 ^ (k - (n.log2 + 1 - 53)) * 2 ^ (n.log2 + 1 - 53) := by rw [← Nat.pow_add, Nat.sub_add_cancel short]
      _ ≤ significand * 2 ^ (n.log2 + 1 - 53) := Nat.mul_le_mul_right _ (Nat.le_trans kept floor)
  · have kept : 0 < n / 2 ^ (n.log2 + 1 - 53) :=
      Nat.div_pos (Nat.le_trans (Nat.pow_le_pow_right Nat.zero_lt_two (by omega)) low) (Nat.two_pow_pos _)
    calc 2 ^ k ≤ 2 ^ (n.log2 + 1 - 53) := Nat.pow_le_pow_right Nat.zero_lt_two long
      _ ≤ significand * 2 ^ (n.log2 + 1 - 53) := Nat.le_mul_of_pos_left _ (Nat.lt_of_lt_of_le kept floor)

/-- One more than `2 ^ 53` rounds back to it. -/
theorem add_one_limit : (ofInt (2 ^ 53)).add one = ofInt (2 ^ 53) := by
  decide +kernel

/-- No larger integer has a number below one up to there. -/
theorem not_less_limit {i j : Int} (far : 2 ^ 53 ≤ i) (hi : i.natAbs ≤ 2 ^ 63) (hj : j.natAbs ≤ 2 ^ 53) :
    (ofInt i).less (ofInt j) = false := by
  have finite := isFinite_ofInt hi
  have positive : ¬ i < 0 := by omega
  have above : 2 ^ 53 * 2 ^ 1074 ≤ (ofInt i).magnitude := by
    rw [ofInt_eq] at finite ⊢
    rw [← Nat.pow_add]
    refine two_pow_le_magnitude_round ?_ finite
    rw [Nat.pow_add]
    exact Nat.mul_le_mul_right _ (by omega)
  have below : signed (decide (j < 0)) (j.natAbs * 2 ^ 1074) ≤ (2 ^ 53 * 2 ^ 1074 : Nat) := by
    have := Nat.mul_le_mul_right (2 ^ 1074) hj
    unfold signed
    split <;> omega
  rw [less_eq finite (isFinite_ofInt_of_le hj), scaled, scaled, isNegative_ofInt, isNegative_ofInt,
    decide_eq_false positive, magnitude_ofInt hj, decide_eq_false_iff_not]
  exact Int.not_lt.mpr (Int.le_trans below (Int.ofNat_le.mpr above))

end Guion.Binary64

namespace Guion.Number

open Binary64

/-- **A real that came from an integer is read back as it**, if that is one of those
that are read back. -/
theorem exactInteger?_realOfInteger {i : Int64} (safe : i.toInt.natAbs ≤ maxSafeInteger) :
    exactInteger? (realOfInteger i) = some i := by
  have bits : i.toInt.natAbs ≤ 2 ^ 53 := Nat.le_trans safe (by decide)
  have finite := isFinite_ofInt_of_le bits
  have magnitude := magnitude_ofInt bits
  have whole : (ofInt i.toInt).isWhole = true := by
    refine isWhole_of_dvd finite ?_
    rw [magnitude]
    exact Nat.dvd_mul_left ..
  have truncated : (ofInt i.toInt).truncate? = some i.toInt := by
    rw [truncate?_eq finite, magnitude, Nat.mul_div_cancel _ (Nat.two_pow_pos 1074), isNegative_ofInt, signed_natAbs]
  unfold exactInteger? realOfInteger
  rw [if_pos whole, truncated, Option.bind_some, if_pos safe, int64?, if_pos ⟨Int64.le_toInt i, Int64.toInt_lt i⟩,
    Int64.ofInt_toInt]

/-- No other integer is read off a real. -/
theorem exactInteger?_safe {x : Binary64} {i : Int64} (h : exactInteger? x = some i) :
    i.toInt.natAbs ≤ maxSafeInteger := by
  unfold exactInteger? at h
  split at h
  · obtain ⟨j, -, h⟩ := Option.bind_eq_some_iff.mp h
    split at h
    · next safe =>
      unfold int64? at h
      split at h
      · next range =>
        cases h
        rwa [Int64.toInt_ofInt_of_le range.1 range.2]
      · cases h
    · cases h
  · cases h

end Guion.Number
