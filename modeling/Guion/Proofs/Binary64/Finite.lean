/-
When a rounded result is finite.

A magnitude up to that of the largest finite number rounds to a finite number
(`isFinite_round`): the significand keeps its 53 bits, and at the largest power
it cannot be rounded up any more. Three consequences are used elsewhere. Every
64-bit integer has a finite real (`isFinite_realOfInteger`). A sum of finite
numbers that is not finite is the infinity on the side of both of them
(`add_eq_infinite`), since a difference of two magnitudes is no larger than
either of them. And the inverse of a finite complex number is finite
(`isFinite_inverse`): its norm is no less than a unit, and about as large as the
squares of its parts.
-/
import Guion.Complex
import Guion.Proofs.Binary64.Rounding

namespace Guion.Binary64

/-- The magnitude of the largest finite number. -/
def largest : Nat := (2 * leastNormal - 1) * 2 ^ 2045

@[simp] theorem isFinite_zero (negative : Bool) : (zero negative).isFinite = true := rfl

@[simp] theorem isFinite_withSign (negative : Bool) (x : Binary64) :
    (x.withSign negative).isFinite = x.isFinite := by
  cases x <;> rfl

@[simp] theorem isFinite_neg (x : Binary64) : x.neg.isFinite = x.isFinite := isFinite_withSign _ x

@[simp] theorem isFinite_abs (x : Binary64) : x.abs.isFinite = x.isFinite := isFinite_withSign _ x

theorem isFinite_make {significand power : Nat} (h : Canonical significand power) (negative : Bool) :
    (make negative significand power).isFinite = true := by
  rw [make, dif_pos h]
  rfl

theorem make_eq_infinite {negative : Bool} {significand power : Nat}
    (h : (make negative significand power).isFinite = false) :
    make negative significand power = .infinite negative := by
  unfold make at h ⊢
  split
  · next hc => rw [dif_pos hc] at h; cases h
  · rfl

theorem nearest_eq_infinite {negative : Bool} {power scaled unit : Nat}
    (h : (nearest negative power scaled unit).isFinite = false) :
    nearest negative power scaled unit = .infinite negative := by
  unfold nearest at h ⊢
  dsimp only at h ⊢
  generalize (if unit < 2 * (scaled % unit) ∨ 2 * (scaled % unit) = unit ∧ scaled / unit % 2 = 1 then
    scaled / unit + 1 else scaled / unit) = significand at h ⊢
  split at h
  · next full => rw [if_pos full]; exact make_eq_infinite h
  · next hf => rw [if_neg hf]; exact make_eq_infinite h

/-- A result that is not finite is the infinity of its sign. -/
theorem round_eq_infinite {negative : Bool} {n d : Nat} (h : (round negative n d).isFinite = false) :
    round negative n d = .infinite negative := by
  rw [round_eq] at h ⊢
  exact nearest_eq_infinite h

theorem magnitude_le_largest (x : Binary64) : x.magnitude ≤ largest := by
  cases x with
  | infinite s => exact Nat.zero_le _
  | nan s quiet => exact Nat.zero_le _
  | finite s m p hm =>
    rw [magnitude_finite]
    exact Nat.mul_le_mul (Nat.le_sub_one_of_lt hm.1)
      (Nat.pow_le_pow_right (n := 2) (i := p) (j := 2045) (by decide) hm.2.2)

/-! ## Rounding -/

/-- A significand of 53 bits, with room for a power one higher if it may be
rounded up to the next one. -/
theorem isFinite_nearest {power scaled unit : Nat} (negative : Bool) (hlt : scaled / unit < 2 * leastNormal)
    (hn : leastNormal ≤ scaled / unit ∨ power = 0) (hp : power ≤ 2045)
    (hr : power = 2045 → scaled / unit = 2 * leastNormal - 1 → scaled % unit = 0) (hu : 0 < unit) :
    (nearest negative power scaled unit).isFinite = true := by
  unfold nearest
  dsimp only
  generalize hq : scaled / unit = q at *
  generalize hm : scaled % unit = rest at *
  generalize hs : (if unit < 2 * rest ∨ 2 * rest = unit ∧ q % 2 = 1 then q + 1 else q) = significand
  split
  · next full =>
    refine isFinite_make ⟨by decide, .inl (Nat.le_refl _), ?_⟩ negative
    -- The next power is within range: at the last one nothing is left to round up.
    split at hs
    · next up =>
      have : rest ≠ 0 := by rintro rfl; omega
      have : power ≠ 2045 := fun he => this (hr he (by omega))
      omega
    · omega
  · next full =>
    refine isFinite_make ⟨?_, ?_, hp⟩ negative
    · split at hs <;> omega
    · obtain hn | hn := hn
      · left; split at hs <;> omega
      · exact .inr hn

/-- **A magnitude up to that of the largest finite number rounds to a finite
number.** -/
theorem isFinite_round (negative : Bool) {n d : Nat} (hd : 0 < d) (h : n ≤ largest * d) :
    (round negative n d).isFinite = true := by
  have quotient : ∀ power, n / (d * 2 ^ power) = n / d / 2 ^ power := fun _ => (Nat.div_div_eq_div_mul ..).symm
  have high := Nat.lt_log2_self (n := n / d)
  rw [round_eq]
  by_cases few : (n / d).log2 ≤ 52
  · -- A short significand is not cut down.
    have flat : (n / d).log2 + 1 - 53 = 0 := by omega
    rw [flat]
    refine isFinite_nearest negative ?_ (.inr rfl) (by decide) nofun (Nat.mul_pos hd (Nat.two_pow_pos 0))
    rw [quotient, Nat.pow_zero, Nat.div_one]
    exact Nat.lt_of_lt_of_le high (Nat.pow_le_pow_right (n := 2) (j := 53) (by decide) (by omega))
  · -- A long one is cut down to 53 bits.
    have low := Nat.log2_self_le (n := n / d) (by rintro zero; rw [zero] at few; exact few (by decide))
    have inRange : (n / d).log2 + 1 - 53 ≤ 2045 := by
      refine Nat.le_of_not_gt fun hlarge => ?_
      have above : 2 ^ 2098 ≤ n / d :=
        Nat.le_trans (Nat.pow_le_pow_right (n := 2) (i := 2098) (by decide) (by omega)) low
      have below : n / d ≤ largest := Nat.div_le_of_le_mul (Nat.mul_comm largest d ▸ h)
      exact absurd (Nat.le_trans above below) (by decide +kernel)
    have cut : (n / d).log2 = 52 + ((n / d).log2 + 1 - 53) := by omega
    generalize (n / d).log2 + 1 - 53 = power at *
    rw [cut] at low high
    refine isFinite_nearest negative ?_ (.inl ?_) inRange (fun last full => ?_) (Nat.mul_pos hd (Nat.two_pow_pos _))
    · rw [quotient, Nat.div_lt_iff_lt_mul (Nat.two_pow_pos _)]
      rwa [show 52 + power + 1 = 53 + power by omega, Nat.pow_add] at high
    · rw [quotient, Nat.le_div_iff_mul_le (Nat.two_pow_pos _)]
      rwa [Nat.pow_add] at low
    · -- At the last power the number is at most the full significand times its unit.
      subst last
      have bound : n ≤ (2 * leastNormal - 1) * (d * 2 ^ 2045) := by
        rw [Nat.mul_left_comm, Nat.mul_comm]
        exact h
      have split := Nat.div_add_mod n (d * 2 ^ 2045)
      rw [full, Nat.mul_comm] at split
      omega

/-! ## Integers and sums -/

theorem ofInt_eq (i : Int) : ofInt i = round (decide (i < 0)) (i.natAbs * 2 ^ 1074) 1 :=
  roundShifted_eq _ _ _ Nat.one_pos

theorem isFinite_ofInt {i : Int} (h : i.natAbs ≤ 2 ^ 63) : (ofInt i).isFinite = true := by
  rw [ofInt_eq]
  refine isFinite_round _ Nat.one_pos (Nat.le_trans (Nat.mul_le_mul_right _ h) ?_)
  decide +kernel

@[simp] theorem isFinite_one : one.isFinite = true := isFinite_ofInt (by decide)

theorem isFinite_add {x y : Binary64} (hx : x.isFinite = true) (hy : y.isFinite = true)
    (h : x.magnitude + y.magnitude ≤ largest) : (x.add y).isFinite = true := by
  rw [add_eq hx hy]
  exact isFinite_round _ Nat.one_pos (by rw [Nat.mul_one]; exact Nat.le_trans (addSigned_le ..) h)

theorem isFinite_mul {x y : Binary64} (hx : x.isFinite = true) (hy : y.isFinite = true)
    (h : x.magnitude * y.magnitude ≤ largest * unitsPerOne) : (x.mul y).isFinite = true := by
  rw [mul_eq hx hy]
  exact isFinite_round _ unitsPerOne_pos h

/-- **A sum of finite numbers overflows on the side of both of them.** -/
theorem add_eq_infinite {x y : Binary64} (hx : x.isFinite = true) (hy : y.isFinite = true)
    (h : (x.add y).isFinite = false) : x.add y = .infinite y.isNegative := by
  rw [add_eq hx hy] at h ⊢
  unfold addSigned at h ⊢
  split at h
  · next agree =>
    rw [if_pos agree]
    rw [show x.isNegative = y.isNegative by simpa using agree] at h ⊢
    exact round_eq_infinite h
  · -- Numbers of opposite signs do not overflow.
    exfalso
    have below : ∀ (x : Binary64) (d : Nat), x.magnitude - d ≤ largest * 1 := fun x d =>
      Nat.le_trans (Nat.sub_le _ _) (by rw [Nat.mul_one]; exact magnitude_le_largest x)
    split at h
    · rw [isFinite_round _ Nat.one_pos (Nat.zero_le _)] at h; cases h
    split at h
    · rw [isFinite_round _ Nat.one_pos (below x _)] at h; cases h
    · rw [isFinite_round _ Nat.one_pos (below y _)] at h; cases h

/-! ## Inverses -/

theorem isFinite_fusedMulAdd {x y z : Binary64} (hx : x.isFinite = true) (hy : y.isFinite = true)
    (hz : z.isFinite = true) (h : x.magnitude * y.magnitude + z.magnitude * unitsPerOne ≤ largest * unitsPerOne) :
    (x.fusedMulAdd y z).isFinite = true := by
  rw [fusedMulAdd_eq hx hy hz]
  exact isFinite_round _ unitsPerOne_pos (Nat.le_trans (addSigned_le ..) h)

theorem magnitude_fusedMulAdd_le {x y z : Binary64} (hx : x.isFinite = true) (hy : y.isFinite = true)
    (hz : z.isFinite = true) (h : (x.fusedMulAdd y z).isFinite = true) :
    (x.fusedMulAdd y z).magnitude * unitsPerOne ≤ 2 * (x.magnitude * y.magnitude + z.magnitude * unitsPerOne) := by
  rw [fusedMulAdd_eq hx hy hz] at h ⊢
  exact Nat.le_trans (magnitude_round unitsPerOne_pos h).1 (Nat.mul_le_mul_left 2 (addSigned_le ..))

theorem isFinite_div {x y : Binary64} (hx : x.isFinite = true) (hy : y.isFinite = true) (nonzero : y.isZero = false)
    (h : x.magnitude * unitsPerOne ≤ largest * y.magnitude) : (x.div y).isFinite = true := by
  have positive : 0 < y.magnitude := Nat.pos_of_ne_zero fun zero => by
    rw [(isZero_iff hy).mpr zero] at nonzero
    cases nonzero
  rw [div_eq hx hy nonzero]
  exact isFinite_round _ positive h

theorem isFinite_div_infinite {x : Binary64} (hx : x.isFinite = true) (s : Bool) :
    (x.div (.infinite s)).isFinite = true := by
  cases x with
  | finite _ _ _ _ => rfl
  | infinite _ => cases hx
  | nan _ _ => cases hx

theorem zero_mul {x : Binary64} (hx : x.isFinite = true) (s : Bool) :
    ((zero s).mul x).isFinite = true ∧ ((zero s).mul x).magnitude = 0 := by
  rw [mul_eq (isFinite_zero s) hx, magnitude_zero, Nat.zero_mul]
  have finite := isFinite_round ((zero s).isNegative != x.isNegative) unitsPerOne_pos (Nat.zero_le _)
  have small := (magnitude_round unitsPerOne_pos finite).1
  exact ⟨finite, (Nat.mul_eq_zero.mp (Nat.le_zero.mp small)).resolve_right (Nat.ne_of_gt unitsPerOne_pos)⟩

/-- A number times one, with a zero added: about the number. -/
theorem one_fusedMulAdd {x z : Binary64} (hx : x.isFinite = true) (hz : z.isFinite = true) (zero : z.magnitude = 0) :
    (one.fusedMulAdd x z).isFinite = true ∧ (one.fusedMulAdd x z).magnitude ≤ 2 * x.magnitude := by
  have unit : one.magnitude = unitsPerOne := by decide +kernel
  have sum : one.magnitude * x.magnitude + z.magnitude * unitsPerOne = x.magnitude * unitsPerOne := by
    rw [unit, zero, Nat.zero_mul, Nat.add_zero, Nat.mul_comm]
  have finite : (one.fusedMulAdd x z).isFinite = true :=
    isFinite_fusedMulAdd isFinite_one hx hz (by rw [sum]; exact Nat.mul_le_mul_right _ (magnitude_le_largest x))
  have bound := magnitude_fusedMulAdd_le isFinite_one hx hz finite
  rw [sum, ← Nat.mul_assoc] at bound
  exact ⟨finite, Nat.le_of_mul_le_mul_right bound unitsPerOne_pos⟩

/-- **A sum of two squares** is infinite, or about as large as both. -/
theorem squares_cases {a b : Binary64} (ha : a.isFinite = true) (hb : b.isFinite = true) :
    a.fusedMulAdd a (b.mul b) = .infinite false ∨
      (a.fusedMulAdd a (b.mul b)).isFinite = true ∧
      a.magnitude * a.magnitude ≤ (4 * (a.fusedMulAdd a (b.mul b)).magnitude + 3) * unitsPerOne ∧
      b.magnitude * b.magnitude ≤ (4 * (a.fusedMulAdd a (b.mul b)).magnitude + 3) * unitsPerOne := by
  have square := mul_eq hb hb
  rw [bne_self_eq_false] at square
  cases hs : (b.mul b).isFinite with
  | false =>
    left
    rw [square] at hs ⊢
    rw [round_eq_infinite hs]
    cases a with
    | finite _ _ _ _ => rfl
    | infinite _ => cases ha
    | nan _ _ => cases ha
  | true =>
    have positive : (b.mul b).isNegative = false := by rw [square, isNegative_round]
    have sum := fusedMulAdd_eq ha ha hs
    rw [bne_self_eq_false, positive, addSigned, if_pos (by rfl)] at sum
    cases hf : (a.fusedMulAdd a (b.mul b)).isFinite with
    | false => left; rw [sum] at hf ⊢; exact round_eq_infinite hf
    | true =>
      have inner : b.magnitude * b.magnitude ≤ (2 * (b.mul b).magnitude + 1) * unitsPerOne := by
        rw [square] at hs ⊢
        exact (magnitude_round unitsPerOne_pos hs).2
      have outer : a.magnitude * a.magnitude + (b.mul b).magnitude * unitsPerOne ≤
          (2 * (a.fusedMulAdd a (b.mul b)).magnitude + 1) * unitsPerOne := by
        rw [sum] at hf ⊢
        exact (magnitude_round unitsPerOne_pos hf).2
      have addend : (b.mul b).magnitude ≤ 2 * (a.fusedMulAdd a (b.mul b)).magnitude + 1 :=
        Nat.le_of_mul_le_mul_right (Nat.le_trans (Nat.le_add_left ..) outer) unitsPerOne_pos
      refine .inr ⟨rfl, ?_, ?_⟩
      · exact Nat.le_trans (Nat.le_trans (Nat.le_add_right ..) outer) (Nat.mul_le_mul_right _ (by omega))
      · exact Nat.le_trans inner (Nat.mul_le_mul_right _ (by omega))

/-- A part over a norm that is no less than a unit and about as large as the square
of the part. -/
theorem quotient_le {part p norm : Nat} (positive : 0 < norm)
    (square : part * part ≤ (4 * norm + 3) * unitsPerOne) (hp : p ≤ 2 * part) :
    p * unitsPerOne ≤ largest * norm := by
  refine Nat.le_trans (Nat.mul_le_mul_right _ hp) ?_
  by_cases small : part ≤ 2 ^ 1022
  · have bound : 2 * 2 ^ 1022 * unitsPerOne ≤ largest := by decide +kernel
    calc 2 * part * unitsPerOne
        ≤ 2 * 2 ^ 1022 * unitsPerOne := Nat.mul_le_mul_right _ (Nat.mul_le_mul_left 2 small)
      _ ≤ largest := bound
      _ ≤ largest * norm := Nat.le_mul_of_pos_right _ positive
  · have unit : unitsPerOne = 2 ^ 52 * 2 ^ 1022 := by decide +kernel
    have cancelled : part ≤ (4 * norm + 3) * 2 ^ 52 := by
      refine Nat.le_of_mul_le_mul_right ?_ (Nat.two_pow_pos 1022)
      rw [Nat.mul_assoc, ← unit]
      exact Nat.le_trans (Nat.mul_le_mul_left part (Nat.le_of_not_le small)) square
    have bound : 14 * 2 ^ 52 * unitsPerOne ≤ largest := by decide +kernel
    have part_le : 2 * part ≤ 14 * 2 ^ 52 * norm := by
      have : (4 * norm + 3) * 2 ^ 52 ≤ 7 * norm * 2 ^ 52 := Nat.mul_le_mul_right _ (by omega)
      omega
    calc 2 * part * unitsPerOne
        ≤ 14 * 2 ^ 52 * norm * unitsPerOne := Nat.mul_le_mul_right _ part_le
      _ = 14 * 2 ^ 52 * unitsPerOne * norm := Nat.mul_right_comm ..
      _ ≤ largest * norm := Nat.mul_le_mul_right _ bound

theorem isFinite_div_squares {a b p : Binary64} (ha : a.isFinite = true) (hb : b.isFinite = true)
    (hp : p.isFinite = true) (small : p.magnitude ≤ 2 * a.magnitude ∨ p.magnitude ≤ 2 * b.magnitude)
    (nonzero : (a.fusedMulAdd a (b.mul b)).isZero = false) :
    (p.div (a.fusedMulAdd a (b.mul b))).isFinite = true := by
  obtain infinite | ⟨finite, first, second⟩ := squares_cases ha hb
  · rw [infinite]
    exact isFinite_div_infinite hp false
  · have positive : 0 < (a.fusedMulAdd a (b.mul b)).magnitude := Nat.pos_of_ne_zero fun zero => by
      rw [(isZero_iff finite).mpr zero] at nonzero
      cases nonzero
    refine isFinite_div hp finite nonzero ?_
    obtain small | small := small
    · exact quotient_le positive first small
    · exact quotient_le positive second small

end Guion.Binary64

/-- **The inverse of a finite complex number is finite.** -/
theorem Guion.Complex.isFinite_inverse {z w : Complex} (hz : z.isFinite = true)
    (h : (ofReal .one).div? z = some w) : w.isFinite = true := by
  obtain ⟨ha, hb⟩ := Bool.and_eq_true_iff.mp hz
  unfold div? at h
  dsimp only at h
  split at h
  · cases h
  next nonzero =>
  cases h
  have nonzero : (z.real.fusedMulAdd z.real (z.imaginary.mul z.imaginary)).isZero = false := by simpa using nonzero
  have opposite : z.imaginary.neg.isFinite = true := by simpa using hb
  have crossed := Binary64.zero_mul opposite false
  have real := Binary64.one_fusedMulAdd ha (z := ((Binary64.zero false).mul z.imaginary.neg).neg)
    (by simpa using crossed.1) (by simpa using crossed.2)
  have imaginary := Binary64.one_fusedMulAdd opposite (Binary64.zero_mul ha false).1 (Binary64.zero_mul ha false).2
  rw [Binary64.magnitude_neg] at imaginary
  exact Bool.and_eq_true_iff.mpr ⟨Binary64.isFinite_div_squares ha hb real.1 (.inl real.2) nonzero,
    Binary64.isFinite_div_squares ha hb imaginary.1 (.inr imaginary.2) nonzero⟩

namespace Guion.Number

theorem isFinite_realOfInteger (i : Int64) : (realOfInteger i).isFinite = true := by
  refine Binary64.isFinite_ofInt ?_
  have := Int64.le_toInt i
  have := Int64.toInt_lt i
  omega

theorem isFinite_of_readFinite? {text : List Char} {x : Binary64} (h : readFinite? text = some x) :
    x.isFinite = true := by
  unfold readFinite? at h
  split at h
  · cases h
  · exact (Option.filter_eq_some_iff.mp h).2

end Guion.Number
