/-
Each operation is its exact result, rounded once.

`round` depends on the ratio of its arguments alone (`round_mul`), and a power
of two that was set apart can be multiplied in again (`roundShifted_eq`,
`roundProduct_eq`). So the operations on finite numbers are equations on their
magnitudes, whatever powers these are written with: `add_eq`, `mul_eq`,
`div_eq`, `fusedMulAdd_eq`.

A rounded magnitude is within a factor of two of the exact one, up to a unit
below (`magnitude_round`). That is far from the best bound, and enough to see
that a result is neither too small nor too large.
-/
import Mathlib
import Guion.Binary64.Arithmetic

namespace Guion.Binary64

theorem unitsPerOne_eq : unitsPerOne = 2 ^ 1074 := by
  unfold unitsPerOne
  generalize 1074 = places
  rfl

theorem unitsPerOne_pos : 0 < unitsPerOne := by
  rw [unitsPerOne_eq]
  exact Nat.two_pow_pos _

theorem shiftUp_eq (n count : Nat) : shiftUp n count = n * 2 ^ count := by
  unfold shiftUp
  split
  · next h => rw [h, Nat.pow_zero, Nat.mul_one]
  · rw [Nat.shiftLeft_eq]

@[simp] theorem magnitude_finite {s : Bool} {m p : Nat} {h : Canonical m p} :
    (finite s m p h).magnitude = m * 2 ^ p := by
  rw [magnitude, Nat.shiftLeft_eq]

@[simp] theorem magnitude_zero (s : Bool) : (zero s).magnitude = 0 := rfl

@[simp] theorem magnitude_withSign (s : Bool) (x : Binary64) : (x.withSign s).magnitude = x.magnitude := by
  cases x <;> rfl

@[simp] theorem magnitude_neg (x : Binary64) : x.neg.magnitude = x.magnitude := magnitude_withSign _ x

theorem isZero_iff {x : Binary64} (h : x.isFinite = true) : x.isZero = true ↔ x.magnitude = 0 := by
  cases x with
  | infinite s => cases h
  | nan s quiet => cases h
  | finite s m p hm => simp [isZero]

/-! ## Rounding a ratio -/

theorem nearest_mul (negative : Bool) (power : Nat) {scaled unit c : Nat} (hc : 0 < c) :
    nearest negative power (scaled * c) (unit * c) = nearest negative power scaled unit := by
  have above : unit * c < 2 * (scaled % unit * c) ↔ unit < 2 * (scaled % unit) := by
    rw [← Nat.mul_assoc]
    exact Nat.mul_lt_mul_right hc
  have tie : 2 * (scaled % unit * c) = unit * c ↔ 2 * (scaled % unit) = unit := by
    rw [← Nat.mul_assoc]
    exact Nat.mul_left_inj (Nat.ne_of_gt hc)
  unfold nearest
  simp only [Nat.mul_div_mul_right _ _ hc, Nat.mul_mod_mul_right, above, tie]

theorem round_eq (negative : Bool) (n d : Nat) :
    round negative n d = nearest negative ((n / d).log2 + 1 - 53) n (d * 2 ^ ((n / d).log2 + 1 - 53)) := by
  rw [round, shiftUp_eq]

/-- **Rounding depends on the ratio alone.** -/
theorem round_mul (negative : Bool) (n d : Nat) {c : Nat} (hc : 0 < c) :
    round negative (n * c) (d * c) = round negative n d := by
  rw [round_eq, round_eq, Nat.mul_div_mul_right _ _ hc, Nat.mul_right_comm, nearest_mul negative _ hc]

theorem log2_mul_two_pow_div {n d : Nat} (shift : Nat) (hd : 0 < d) (h : d ≤ n) :
    (n * 2 ^ shift / d).log2 = (n / d).log2 + shift := by
  have one : n / d ≠ 0 := Nat.ne_of_gt (Nat.div_pos h hd)
  have low := (Nat.le_div_iff_mul_le hd).mp (Nat.log2_self_le one)
  have high := (Nat.div_lt_iff_lt_mul hd).mp (Nat.lt_log2_self (n := n / d))
  generalize (n / d).log2 = bits at *
  have low' : 2 ^ (bits + shift) ≤ n * 2 ^ shift / d := by
    rw [Nat.le_div_iff_mul_le hd, Nat.pow_add, Nat.mul_right_comm]
    exact Nat.mul_le_mul_right _ low
  refine (Nat.log2_eq_iff (Nat.ne_of_gt (Nat.lt_of_lt_of_le (Nat.two_pow_pos _) low'))).mpr ⟨low', ?_⟩
  rw [Nat.div_lt_iff_lt_mul hd, Nat.add_right_comm, Nat.pow_add, Nat.mul_right_comm]
  exact Nat.mul_lt_mul_of_pos_right high (Nat.two_pow_pos _)

theorem roundShifted_eq (negative : Bool) (shift n : Nat) {d : Nat} (hd : 0 < d) :
    roundShifted negative shift n d = round negative (n * 2 ^ shift) d := by
  unfold roundShifted
  split
  · rw [shiftUp_eq]
  · next whole =>
    rw [round_eq, log2_mul_two_pow_div shift hd (Nat.le_of_not_lt whole)]
    dsimp only
    generalize (n / d).log2 + shift + 1 - 53 = power
    -- The smaller one of the two powers is multiplied in on both sides.
    rw [shiftUp_eq, shiftUp_eq, ← nearest_mul negative power (Nat.two_pow_pos (min shift power)), Nat.mul_assoc,
      Nat.mul_assoc, ← Nat.pow_add, ← Nat.pow_add, show shift - power + min shift power = shift by omega,
      show power - shift + min shift power = power by omega]

theorem roundProduct_eq (negative : Bool) (n exponent : Nat) :
    roundProduct negative n exponent = round negative (n * 2 ^ exponent) unitsPerOne := by
  rw [roundProduct, unitsPerOne_eq]
  generalize 1074 = places
  split
  · next long =>
    rw [roundShifted_eq _ _ _ Nat.one_pos, ← round_mul negative _ _ (Nat.two_pow_pos places), Nat.mul_assoc,
      ← Nat.pow_add, Nat.sub_add_cancel long, Nat.one_mul]
  · next short =>
    rw [Nat.shiftLeft_eq, Nat.one_mul, ← round_mul negative n _ (Nat.two_pow_pos exponent), ← Nat.pow_add,
      Nat.sub_add_cancel (by omega)]

/-! ## Operations -/

/-- The power that two numbers have in common, apart. -/
theorem mul_two_pow_eq (m p q : Nat) : m * 2 ^ p = m * 2 ^ (p - q) * 2 ^ min p q := by
  rw [Nat.mul_assoc, ← Nat.pow_add, show p - q + min p q = p by omega]

theorem addSigned_mul (s t : Bool) (a b : Nat) {c : Nat} (hc : 0 < c) :
    addSigned s (a * c) t (b * c) = ((addSigned s a t b).1, (addSigned s a t b).2 * c) := by
  unfold addSigned
  simp only [Nat.mul_left_inj (Nat.ne_of_gt hc), Nat.mul_lt_mul_right hc]
  split
  · rw [Nat.add_mul]
  split
  · rw [Nat.zero_mul]
  split
  · rw [Nat.sub_mul]
  · rw [Nat.sub_mul]

theorem addSigned_le (s t : Bool) (a b : Nat) : (addSigned s a t b).2 ≤ a + b := by
  unfold addSigned
  split
  · exact Nat.le_refl _
  split
  · exact Nat.zero_le _
  split
  · exact Nat.le_trans (Nat.sub_le _ _) (Nat.le_add_right _ _)
  · exact Nat.le_trans (Nat.sub_le _ _) (Nat.le_add_left _ _)

section Operations

variable {x y z : Binary64} (hx : x.isFinite = true) (hy : y.isFinite = true) (hz : z.isFinite = true)

include hx hy

theorem add_eq :
    x.add y = round (addSigned x.isNegative x.magnitude y.isNegative y.magnitude).1
      (addSigned x.isNegative x.magnitude y.isNegative y.magnitude).2 1 := by
  cases x with
  | infinite s => cases hx
  | nan s quiet => cases hx
  | finite s m p hm =>
  cases y with
  | infinite t => cases hy
  | nan t quiet => cases hy
  | finite t n q hn =>
  simp only [add, isNegative, magnitude_finite, shiftUp_eq, roundShifted_eq _ _ _ Nat.one_pos]
  rw [mul_two_pow_eq m p q, mul_two_pow_eq n q p, Nat.min_comm q p, addSigned_mul _ _ _ _ (Nat.two_pow_pos _)]

theorem mul_eq :
    x.mul y = round (x.isNegative != y.isNegative) (x.magnitude * y.magnitude) unitsPerOne := by
  cases x with
  | infinite s => cases hx
  | nan s quiet => cases hx
  | finite s m p hm =>
  cases y with
  | infinite t => cases hy
  | nan t quiet => cases hy
  | finite t n q hn =>
  simp only [mul, isNegative, magnitude_finite, roundProduct_eq]
  rw [Nat.pow_add, Nat.mul_mul_mul_comm]

theorem div_eq (nonzero : y.isZero = false) :
    x.div y = round (x.isNegative != y.isNegative) (x.magnitude * unitsPerOne) y.magnitude := by
  cases x with
  | infinite s => cases hx
  | nan s quiet => cases hx
  | finite s m p hm =>
  cases y with
  | infinite t => cases hy
  | nan t quiet => cases hy
  | finite t n q hn =>
  have positive : 0 < n := Nat.pos_of_ne_zero (by simpa [isZero] using nonzero)
  have units : m * 2 ^ p * unitsPerOne = m * 2 ^ (p + 1074) := by
    rw [unitsPerOne_eq, Nat.mul_assoc, Nat.pow_add]
  simp only [div, nonzero, Bool.false_eq_true, if_false, isNegative, magnitude_finite, units, Nat.shiftLeft_eq]
  split
  · rw [roundShifted_eq _ _ _ positive, ← round_mul _ _ n (Nat.two_pow_pos q), Nat.mul_assoc, Nat.mul_assoc,
      ← Nat.pow_add, ← Nat.pow_add, show 53 + (p + 1021 - q + q) = p + 1074 by omega]
  · rfl

include hz

theorem fusedMulAdd_eq :
    x.fusedMulAdd y z =
      round (addSigned (x.isNegative != y.isNegative) (x.magnitude * y.magnitude) z.isNegative
          (z.magnitude * unitsPerOne)).1
        (addSigned (x.isNegative != y.isNegative) (x.magnitude * y.magnitude) z.isNegative
          (z.magnitude * unitsPerOne)).2 unitsPerOne := by
  cases x with
  | infinite s => cases hx
  | nan s quiet => cases hx
  | finite s m p hm =>
  cases y with
  | infinite t => cases hy
  | nan t quiet => cases hy
  | finite t n q hn =>
  cases z with
  | infinite u => cases hz
  | nan u quiet => cases hz
  | finite u k r hk =>
  have product : m * 2 ^ p * (n * 2 ^ q) =
      m * n * 2 ^ (p + q - min (p + q) (r + 1074)) * 2 ^ min (p + q) (r + 1074) := by
    rw [Nat.mul_mul_mul_comm, ← Nat.pow_add, Nat.mul_assoc (m * n), ← Nat.pow_add, Nat.sub_add_cancel (by omega)]
  have addend : k * 2 ^ r * unitsPerOne =
      k * 2 ^ (r + 1074 - min (p + q) (r + 1074)) * 2 ^ min (p + q) (r + 1074) := by
    rw [unitsPerOne_eq]
    generalize 1074 = places
    rw [Nat.mul_assoc k, Nat.mul_assoc k, ← Nat.pow_add, ← Nat.pow_add, Nat.sub_add_cancel (by omega)]
  simp only [fusedMulAdd, isNegative, magnitude_finite, shiftUp_eq, roundProduct_eq]
  rw [product, addend, addSigned_mul _ _ _ _ (Nat.two_pow_pos _)]

end Operations

/-! ## How far rounding goes -/

theorem isNegative_make (negative : Bool) (significand power : Nat) :
    (make negative significand power).isNegative = negative := by
  unfold make
  split <;> rfl

theorem isNegative_nearest (negative : Bool) (power scaled unit : Nat) :
    (nearest negative power scaled unit).isNegative = negative := by
  unfold nearest
  dsimp only
  generalize (if unit < 2 * (scaled % unit) ∨ 2 * (scaled % unit) = unit ∧ scaled / unit % 2 = 1 then
    scaled / unit + 1 else scaled / unit) = significand
  split
  · exact isNegative_make ..
  · exact isNegative_make ..

@[simp] theorem isNegative_round (negative : Bool) (n d : Nat) : (round negative n d).isNegative = negative := by
  rw [round_eq, isNegative_nearest]

theorem magnitude_make {negative : Bool} {significand power : Nat}
    (h : (make negative significand power).isFinite = true) :
    (make negative significand power).magnitude = significand * 2 ^ power := by
  unfold make at h ⊢
  split
  · exact magnitude_finite
  · next hc => rw [dif_neg hc] at h; cases h

/-- The significand is the floor or, from a half on, the number above it. -/
theorem magnitude_nearest {negative : Bool} {power scaled unit : Nat}
    (h : (nearest negative power scaled unit).isFinite = true) :
    ∃ significand, (nearest negative power scaled unit).magnitude = significand * 2 ^ power ∧
      scaled / unit ≤ significand ∧ significand * unit ≤ 2 * scaled ∧
      (significand = scaled / unit ∨ significand = scaled / unit + 1) := by
  have split := Nat.div_add_mod scaled unit
  rw [Nat.mul_comm] at split
  have twice : 2 * scaled = scaled / unit * unit + (scaled / unit * unit + 2 * (scaled % unit)) := by omega
  have next : (scaled / unit + 1) * unit = scaled / unit * unit + unit := Nat.succ_mul ..
  unfold nearest at h ⊢
  dsimp only at h ⊢
  generalize hs : (if unit < 2 * (scaled % unit) ∨ 2 * (scaled % unit) = unit ∧ scaled / unit % 2 = 1 then
    scaled / unit + 1 else scaled / unit) = significand at h ⊢
  refine ⟨significand, ?_, ?_, ?_, ?_⟩
  · split at h
    · next full => rw [if_pos full, magnitude_make h, full, Nat.pow_succ', Nat.mul_left_comm, Nat.mul_assoc]
    · next hf => rw [if_neg hf, magnitude_make h]
  · split at hs <;> omega
  · split at hs
    · next up => rw [← hs, next]; omega
    · rw [← hs]; omega
  · split at hs
    · exact .inr hs.symm
    · exact .inl hs.symm

/-- **A rounded magnitude is within a factor of two of the exact one**, up to a unit
below. -/
theorem magnitude_round {negative : Bool} {n d : Nat} (hd : 0 < d) (h : (round negative n d).isFinite = true) :
    (round negative n d).magnitude * d ≤ 2 * n ∧ n ≤ (2 * (round negative n d).magnitude + 1) * d := by
  rw [round_eq] at h ⊢
  have low : (n / d).log2 + 1 - 53 = 0 ∨ d * 2 ^ ((n / d).log2 + 1 - 53) ≤ n := by
    by_cases few : (n / d).log2 ≤ 52
    · exact .inl (by omega)
    · have nonzero : n / d ≠ 0 := by rintro zero; rw [zero] at few; exact few (by decide)
      refine .inr (Nat.le_trans ?_ (Nat.mul_div_le n d))
      exact Nat.mul_le_mul_left d (Nat.le_trans (Nat.pow_le_pow_right (by decide) (by omega))
        (Nat.log2_self_le nonzero))
  generalize (n / d).log2 + 1 - 53 = power at *
  obtain ⟨significand, magnitude, above, below, -⟩ := magnitude_nearest h
  have hu : 0 < d * 2 ^ power := Nat.mul_pos hd (Nat.two_pow_pos power)
  rw [magnitude]
  refine ⟨?_, ?_⟩
  · rwa [Nat.mul_assoc, Nat.mul_comm _ d]
  · -- Less than one more significand, and that is a unit or no more than there is.
    have upper : n ≤ (significand + 1) * (d * 2 ^ power) :=
      Nat.le_of_lt ((Nat.div_lt_iff_lt_mul hu).mp (Nat.lt_succ_of_le above))
    refine Nat.le_trans upper ?_
    rw [Nat.mul_comm d, ← Nat.mul_assoc]
    refine Nat.mul_le_mul_right d ?_
    rw [Nat.succ_mul]
    obtain rfl | whole := low
    · simp only [Nat.pow_zero, Nat.mul_one]; omega
    · have one : 1 ≤ significand := Nat.le_trans (Nat.div_pos whole hu) above
      have := Nat.mul_le_mul_right (2 ^ power) one
      omega

end Guion.Binary64
