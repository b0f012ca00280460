/-
The order of the numbers, and rounding that keeps it.

`place` puts the numbers on a line of integers: a finite one at its units, an
infinity one unit beyond the largest of them. The order of two numbers is that of
their places (`compare?_eq`), so what holds of integers need not be proved again of
numbers; only a NaN has no place in the order.

Rounding keeps the order of magnitudes (`magnitude_round_mono`), so the numbers of two
integers are in the order of the integers, or in one place (`place_ofInt_mono`). That
different integers are in one place happens beyond `2 ^ 53` only
(`eq_of_place_ofInt_eq`).
-/
import Guion.Proofs.Binary64.Integers

namespace Guion.Binary64

variable {x y : Binary64}

/-! ## Places -/

/-- Where a number stands among the others, in units; the place of a NaN means
nothing. -/
def place : Binary64 → Int
  | .infinite negative => signed negative (largest + 1)
  | x => x.scaled

theorem place_of_isFinite (h : x.isFinite = true) : x.place = x.scaled := by
  cases x with
  | infinite s => cases h
  | _ => rfl

theorem natAbs_signed (s : Bool) (n : Nat) : (signed s n).natAbs = n := by
  unfold signed
  split <;> omega

theorem natAbs_place_le (h : x.isFinite = true) : x.place.natAbs ≤ largest := by
  rw [place_of_isFinite h, scaled, natAbs_signed]
  exact magnitude_le_largest x

theorem compareSigned_eq (s t : Bool) (a b : Nat) : compareSigned s a t b = compare (signed s a) (signed t b) := by
  unfold compareSigned signed
  rw [Int.compare_eq_ite_lt]
  cases s <;> cases t <;> grind [Nat.compare_eq_ite_lt]

theorem compare_signed_mul (s t : Bool) (a b : Nat) {c : Nat} (hc : 0 < c) :
    compare (signed s (a * c)) (signed t (b * c)) = compare (signed s a) (signed t b) := by
  simp only [Int.compare_eq_ite_lt, signed_mul_lt hc]

theorem compare_infinite_place (hx : x.isFinite = true) (s : Bool) :
    compare (infinite s).place x.place = if s then .lt else .gt := by
  have inside := natAbs_place_le hx
  cases s with
  | false =>
    have above : (infinite false).place = largest + 1 := rfl
    rw [above, if_neg Bool.false_ne_true, compare_gt_iff_gt]
    omega
  | true =>
    have below : (infinite true).place = -(largest + 1) := rfl
    rw [below, if_pos rfl, compare_lt_iff_lt]
    omega

theorem compare_infinite_infinite (s t : Bool) :
    compare (infinite s).place (infinite t).place = if s == t then .eq else if s then .lt else .gt := by
  have above : (infinite false).place = largest + 1 := rfl
  have below : (infinite true).place = -(largest + 1) := rfl
  cases s <;> cases t <;> rw [Int.compare_eq_ite_lt] <;> grind

/-- **Numbers are in the order of their places.** -/
theorem compare?_eq (hx : x.isNaN = false) (hy : y.isNaN = false) : x.compare? y = some (compare x.place y.place) := by
  cases x with
  | nan s quiet => cases hx
  | infinite s =>
    cases y with
    | nan t quiet => cases hy
    | infinite t => rw [compare_infinite_infinite]; rfl
    | finite t n q hn => rw [compare_infinite_place rfl]; rfl
  | finite s m p hm =>
    cases y with
    | nan t quiet => cases hy
    | infinite t =>
      rw [Std.OrientedOrd.eq_swap, compare_infinite_place rfl]
      cases t <;> rfl
    | finite t n q hn =>
      rw [place_of_isFinite rfl, place_of_isFinite rfl, scaled, scaled, magnitude_finite, magnitude_finite,
        mul_two_pow_eq m p q, mul_two_pow_eq n q p, Nat.min_comm q p, compare_signed_mul _ _ _ _ (Nat.two_pow_pos _),
        ← compareSigned_eq, ← shiftUp_eq, ← shiftUp_eq]
      rfl

theorem compare?_eq_some {o : Ordering} (h : x.compare? y = some o) :
    x.isNaN = false ∧ y.isNaN = false ∧ compare x.place y.place = o := by
  have hx : x.isNaN = false := by
    cases x with
    | nan s quiet => cases h
    | _ => rfl
  have hy : y.isNaN = false := by
    cases y with
    | nan s quiet => cases x <;> cases h
    | _ => rfl
  rw [compare?_eq hx hy] at h
  exact ⟨hx, hy, Option.some.inj h⟩

theorem keyCompare_eq (hx : x.isNaN = false) (hy : y.isNaN = false) : x.keyCompare y = compare x.place y.place := by
  rw [keyCompare, compare?_eq hx hy]

theorem isNaN_of_isFinite (h : x.isFinite = true) : x.isNaN = false := by
  cases x with
  | nan s quiet => cases h
  | _ => rfl

/-! ## Rounding keeps the order -/

/-- The integer nearest to `scaled / unit`, a tie going to the even one. -/
def nearestQuotient (scaled unit : Nat) : Nat :=
  if unit < 2 * (scaled % unit) ∨ (2 * (scaled % unit) = unit ∧ scaled / unit % 2 = 1) then scaled / unit + 1
  else scaled / unit

theorem magnitude_nearest_eq {negative : Bool} {power scaled unit : Nat}
    (h : (nearest negative power scaled unit).isFinite = true) :
    (nearest negative power scaled unit).magnitude = nearestQuotient scaled unit * 2 ^ power := by
  change Binary64.isFinite (if nearestQuotient scaled unit = 2 * leastNormal then make negative leastNormal (power + 1)
    else make negative (nearestQuotient scaled unit) power) = true at h
  change Binary64.magnitude (if nearestQuotient scaled unit = 2 * leastNormal then make negative leastNormal (power + 1)
    else make negative (nearestQuotient scaled unit) power) = _
  split at h
  · next full => rw [if_pos full, magnitude_make h, full, Nat.pow_succ', Nat.mul_left_comm, Nat.mul_assoc]
  · next short => rw [if_neg short, magnitude_make h]

theorem nearestQuotient_le (scaled unit : Nat) : nearestQuotient scaled unit ≤ scaled / unit + 1 := by
  unfold nearestQuotient
  split <;> omega

theorem nearestQuotient_mono {a b : Nat} (unit : Nat) (h : a ≤ b) :
    nearestQuotient a unit ≤ nearestQuotient b unit := by
  have quotients : a / unit ≤ b / unit := Nat.div_le_div_right h
  by_cases same : a / unit = b / unit
  · -- The larger rest is rounded up if the smaller one is.
    have rests : a % unit ≤ b % unit := by
      have ha := Nat.div_add_mod a unit
      have hb := Nat.div_add_mod b unit
      rw [same] at ha
      omega
    unfold nearestQuotient
    rw [same]
    split <;> split <;> omega
  · have above : b / unit ≤ nearestQuotient b unit := by
      unfold nearestQuotient
      split <;> omega
    have := nearestQuotient_le a unit
    omega

theorem magnitude_round_eq {negative : Bool} {n : Nat} (h : (round negative n 1).isFinite = true) :
    (round negative n 1).magnitude = nearestQuotient n (2 ^ (n.log2 + 1 - 53)) * 2 ^ (n.log2 + 1 - 53) := by
  rw [round_eq, Nat.div_one, Nat.one_mul] at h ⊢
  exact magnitude_nearest_eq h

/-- Rounding does not go beyond the next power of two. -/
theorem magnitude_round_le_two_pow {negative : Bool} {n : Nat} (h : (round negative n 1).isFinite = true) :
    (round negative n 1).magnitude ≤ 2 ^ (n.log2 + 1) := by
  have power : n.log2 + 1 - 53 + (n.log2 + 1 - (n.log2 + 1 - 53)) = n.log2 + 1 := by omega
  have below : n / 2 ^ (n.log2 + 1 - 53) < 2 ^ (n.log2 + 1 - (n.log2 + 1 - 53)) := by
    rw [Nat.div_lt_iff_lt_mul (Nat.two_pow_pos _), ← Nat.pow_add, Nat.add_comm, power]
    exact Nat.lt_log2_self
  have quotient : nearestQuotient n (2 ^ (n.log2 + 1 - 53)) ≤ 2 ^ (n.log2 + 1 - (n.log2 + 1 - 53)) :=
    Nat.le_trans (nearestQuotient_le ..) below
  calc (round negative n 1).magnitude
      = nearestQuotient n (2 ^ (n.log2 + 1 - 53)) * 2 ^ (n.log2 + 1 - 53) := magnitude_round_eq h
    _ ≤ 2 ^ (n.log2 + 1 - (n.log2 + 1 - 53)) * 2 ^ (n.log2 + 1 - 53) := Nat.mul_le_mul_right _ quotient
    _ = 2 ^ (n.log2 + 1) := by rw [← Nat.pow_add, Nat.add_comm, power]

/-- **Rounding keeps the order of magnitudes.** -/
theorem magnitude_round_mono {s t : Bool} {n m : Nat} (h : n ≤ m) (hn : (round s n 1).isFinite = true)
    (hm : (round t m 1).isFinite = true) : (round s n 1).magnitude ≤ (round t m 1).magnitude := by
  by_cases same : n.log2 = m.log2
  · -- Both are rounded to multiples of the same unit.
    rw [magnitude_round_eq hn, magnitude_round_eq hm, same]
    exact Nat.mul_le_mul_right _ (nearestQuotient_mono _ h)
  · -- A power of two stands between them.
    have longer : n.log2 + 1 ≤ m.log2 := by
      have : n.log2 ≤ m.log2 := by rw [Nat.log2_eq_log_two, Nat.log2_eq_log_two]; exact Nat.log_mono_right h
      omega
    have nonzero : m ≠ 0 := by
      rintro rfl
      exact same (congrArg Nat.log2 (Nat.le_zero.mp h))
    calc (round s n 1).magnitude
        ≤ 2 ^ (n.log2 + 1) := magnitude_round_le_two_pow hn
      _ ≤ 2 ^ m.log2 := Nat.pow_le_pow_right Nat.zero_lt_two longer
      _ ≤ (round t m 1).magnitude := two_pow_le_magnitude_round (Nat.log2_self_le nonzero) hm

/-! ## The numbers of integers -/

section

variable {i j : Int}

theorem place_ofInt_eq (h : i.natAbs ≤ 2 ^ 63) :
    (ofInt i).place = signed (decide (i < 0)) (ofInt i).magnitude := by
  rw [place_of_isFinite (isFinite_ofInt h), scaled, isNegative_ofInt]

/-- **The number of a larger integer does not come before.** -/
theorem place_ofInt_mono (hi : i.natAbs ≤ 2 ^ 63) (hj : j.natAbs ≤ 2 ^ 63) (h : i ≤ j) :
    (ofInt i).place ≤ (ofInt j).place := by
  have mono : ∀ {i j : Int}, i.natAbs ≤ 2 ^ 63 → j.natAbs ≤ 2 ^ 63 → i.natAbs ≤ j.natAbs →
      (ofInt i).magnitude ≤ (ofInt j).magnitude := by
    intro i j hi hj h
    have fi := isFinite_ofInt hi
    have fj := isFinite_ofInt hj
    rw [ofInt_eq] at fi fj ⊢
    rw [ofInt_eq]
    exact magnitude_round_mono (Nat.mul_le_mul_right _ h) fi fj
  rw [place_ofInt_eq hi, place_ofInt_eq hj]
  unfold signed
  by_cases negative : j < 0
  · have reversed := mono hj hi (by omega)
    rw [decide_eq_true negative, decide_eq_true (show i < 0 by omega), if_pos rfl, if_pos rfl]
    omega
  · rw [decide_eq_false negative, if_neg Bool.false_ne_true]
    by_cases below : i < 0
    · rw [decide_eq_true below, if_pos rfl]
      omega
    · have := mono hi hj (by omega)
      rw [decide_eq_false below, if_neg Bool.false_ne_true]
      omega

theorem lt_of_place_ofInt_lt (hi : i.natAbs ≤ 2 ^ 63) (hj : j.natAbs ≤ 2 ^ 63)
    (h : (ofInt i).place < (ofInt j).place) : i < j := by
  refine Int.not_le.mp fun above => ?_
  exact absurd (place_ofInt_mono hj hi above) (Int.not_le.mpr h)

/-- **Different integers of 53 bits are in different places.** -/
theorem eq_of_place_ofInt_eq (hi : i.natAbs ≤ 2 ^ 53) (hj : j.natAbs ≤ 2 ^ 53)
    (h : (ofInt i).place = (ofInt j).place) : i = j := by
  have ordered : ∀ {i j : Int}, i.natAbs ≤ 2 ^ 53 → j.natAbs ≤ 2 ^ 53 → (ofInt i).place = (ofInt j).place →
      ¬ i < j := by
    intro i j hi hj h lt
    have less := less_ofInt hi hj
    have fi := isFinite_ofInt_of_le hi
    have fj := isFinite_ofInt_of_le hj
    rw [less_eq fi fj, ← place_of_isFinite fi, ← place_of_isFinite fj, h, decide_eq_true lt,
      decide_eq_true_iff] at less
    exact Int.lt_irrefl _ less
  have := ordered hi hj h
  have := ordered hj hi h.symm
  omega

end

end Guion.Binary64
