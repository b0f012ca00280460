/-
The numbers of `rango`.

`Before` is the end of a range on the unbounded integers, and `Counts` says how many
terms of a progression come before it: there is such a number (`exists_counts`), since
every step leads towards the end.

The loop stops for three reasons: a term is not before the end, there is no room for
it, or the next one does not fit 64 bits. The last two are told apart by a step lemma:
one step leaves one term less (`Counts.tail`), and if a term does not fit, the one
before it was the last (`Counts.last`), because the end fits. So the loop finds
exactly the terms that come before the end, if there is room for all of them
(`rangeFrom_eq`).
-/
import Guion.Library.Table
import Guion.Proofs.Operator.Integers

namespace Guion.Library

variable {step stop current : Int64} {start : Int} {n : Nat}

/-- Whether an integer comes strictly before the end of a range, in the direction of
its step. -/
def Before (step stop : Int64) (i : Int) : Prop :=
  0 < step.toInt ∧ i < stop.toInt ∨ step.toInt < 0 ∧ stop.toInt < i

instance (step stop : Int64) (i : Int) : Decidable (Before step stop i) := inferInstanceAs (Decidable (_ ∨ _))

theorem precedes_eq : precedes current stop step = decide (Before step stop current.toInt) := by
  rw [Bool.eq_iff_iff, decide_eq_true_iff]
  simp only [precedes, Before, Bool.or_eq_true, Bool.and_eq_true, decide_eq_true_iff]

/-- A progression has so many terms before the end, and these are its first ones. -/
def Counts (step stop : Int64) (start : Int) (n : Nat) : Prop :=
  ∀ k : Nat, Before step stop (start + k * step.toInt) ↔ k < n

/-- What comes before a term that is before the end is before the end. -/
theorem Before.of_succ {k : Nat} (h : Before step stop (start + (k + 1 : Nat) * step.toInt)) :
    Before step stop (start + k * step.toInt) := by
  rw [Int.natCast_succ, Int.add_mul, Int.one_mul] at h
  unfold Before at h ⊢
  generalize (k : Int) * step.toInt = distance at *
  omega

theorem Before.of_le {k l : Nat} (le : k ≤ l) (h : Before step stop (start + l * step.toInt)) :
    Before step stop (start + k * step.toInt) := by
  induction l, le using Nat.le_induction with
  | base => exact h
  | succ l le ih => exact ih h.of_succ

/-- A step that is not zero leads past the end sometime. -/
theorem exists_not_before (nonzero : step ≠ 0) (stop : Int64) (start : Int) :
    ∃ k : Nat, ¬ Before step stop (start + k * step.toInt) := by
  refine ⟨(stop.toInt - start).natAbs, ?_⟩
  have moves : step.toInt ≠ 0 := fun zero => nonzero (Int64.toInt_inj.mp zero)
  unfold Before
  rintro (⟨up, below⟩ | ⟨down, above⟩)
  · have far : ((stop.toInt - start).natAbs : Int) * 1 ≤ (stop.toInt - start).natAbs * step.toInt :=
      Int.mul_le_mul_of_nonneg_left up (Int.natCast_nonneg _)
    omega
  · have far : (stop.toInt - start).natAbs * step.toInt ≤ ((stop.toInt - start).natAbs : Int) * (-1) :=
      Int.mul_le_mul_of_nonneg_left (by omega) (Int.natCast_nonneg _)
    omega

theorem exists_counts (nonzero : step ≠ 0) (stop : Int64) (start : Int) : ∃ n, Counts step stop start n := by
  classical
  have ends := exists_not_before nonzero stop start
  refine ⟨Nat.find ends, fun k => ⟨fun before => ?_, fun below => ?_⟩⟩
  · refine Nat.lt_of_not_le fun le => ?_
    exact Nat.find_spec ends (before.of_le le)
  · exact Decidable.not_not.mp (Nat.find_min ends below)

namespace Counts

theorem before_iff (h : Counts step stop start n) : Before step stop start ↔ 0 < n := by
  have first := h 0
  rwa [Int.natCast_zero, Int.zero_mul, Int.add_zero] at first

/-- One step leaves one term less. -/
theorem tail (h : Counts step stop start (n + 1)) : Counts step stop (start + step.toInt) n := by
  intro k
  have next := h (k + 1)
  rwa [Int.natCast_succ, Int.add_mul, Int.one_mul, Int.add_comm (_ * _), ← Int.add_assoc,
    Nat.succ_lt_succ_iff] at next

/-- A term behind which the next one does not fit is the last one. -/
theorem last (h : Counts step stop start (n + 1)) (fits : Fits start) (beyond : ¬ Fits (start + step.toInt)) :
    n = 0 := by
  have out : ¬ Before step stop (start + step.toInt) := by
    have inside := fits_toInt stop
    unfold Before
    unfold Fits at *
    omega
  rw [h.tail.before_iff] at out
  omega

end Counts

/-- The terms of a progression. -/
def terms (start : Int) (step : Int64) (n : Nat) : List Int :=
  (List.range n).map fun k : Nat => start + k * step.toInt

theorem terms_succ (start : Int) (step : Int64) (n : Nat) :
    terms start step (n + 1) = start :: terms (start + step.toInt) step n := by
  unfold terms
  rw [List.range_succ_eq_map, List.map_cons, List.map_map, Int.natCast_zero, Int.zero_mul, Int.add_zero]
  congr 1
  refine List.map_congr_left fun k _ => ?_
  rw [Function.comp_apply, Nat.succ_eq_add_one, Int.natCast_succ, Int.add_mul, Int.one_mul, Int.add_comm (_ * _),
    ← Int.add_assoc]

/-- **What the loop finds**: the terms before the end, behind what was found, if there
is room for all of them. -/
theorem rangeFrom_eq (counts : Counts step stop current.toInt n) (line room : Nat) (found : List Value) :
    (n ≤ room → ∃ items : List Int64, items.map Int64.toInt = terms current.toInt step n ∧
      rangeFrom stop step line room current found = .ok (.list (found.reverse ++ items.map .integer))) ∧
    (room < n → rangeFrom stop step line room current found =
      .error (.invalidArgument "rango" "el rango es demasiado grande" line)) := by
  induction n generalizing current room found with
  | zero =>
    have ended : precedes current stop step = false := by
      rw [precedes_eq, decide_eq_false_iff_not, counts.before_iff]
      exact Nat.lt_irrefl 0
    refine ⟨fun _ => ⟨[], rfl, ?_⟩, fun full => absurd full (Nat.not_lt_zero room)⟩
    unfold rangeFrom
    rw [ended, if_neg Bool.false_ne_true, List.map_nil, List.append_nil]
  | succ n ih =>
    have goesOn : precedes current stop step = true := by
      rw [precedes_eq, decide_eq_true_iff, counts.before_iff]
      exact Nat.succ_pos n
    cases room with
    | zero =>
      refine ⟨fun fits => absurd fits (Nat.not_succ_le_zero n), fun _ => ?_⟩
      unfold rangeFrom
      rw [if_pos goesOn]
    | succ room =>
      by_cases fits : Fits (current.toInt + step.toInt)
      · have next : rangeFrom stop step line (room + 1) current found =
            rangeFrom stop step line room (.ofInt (current.toInt + step.toInt)) (.integer current :: found) := by
          rw [rangeFrom, if_pos goesOn, int64?_of_fits fits]
        have counts : Counts step stop (Int64.ofInt (current.toInt + step.toInt)).toInt n := by
          rw [fits.toInt_ofInt]
          exact counts.tail
        have rest := ih counts room (.integer current :: found)
        rw [fits.toInt_ofInt] at rest
        rw [next]
        refine ⟨fun le => ?_, fun full => rest.2 (Nat.lt_of_succ_lt_succ full)⟩
        obtain ⟨items, numbers, result⟩ := rest.1 (Nat.le_of_succ_le_succ le)
        refine ⟨current :: items, ?_, ?_⟩
        · rw [List.map_cons, numbers, terms_succ]
        · rw [result, List.reverse_cons, List.append_assoc]
          rfl
      · -- The next term does not fit, so this one is the last.
        obtain rfl := counts.last (fits_toInt current) fits
        refine ⟨fun _ => ⟨[current], ?_, ?_⟩, fun full => by omega⟩
        · rw [terms_succ]
          rfl
        · rw [rangeFrom, if_pos goesOn, int64?_of_not_fits fits]
          show Except.ok (Value.list (Value.integer current :: found).reverse) = _
          rw [List.reverse_cons]
          rfl

/-- **`rango` is an arithmetic progression**: every integer `start + k * step` that
comes before the end, in order, or an error if there are more than `2 ^ 24` of them.
The start is 0 and the step is 1 if they are not given. -/
theorem range_progression (start stop step : Int64) (nonzero : step ≠ 0) (name : String) (line : Nat) :
    (∃ n : Nat, (∀ k : Nat, Before step stop (start.toInt + k * step.toInt) ↔ k < n) ∧
      (n ≤ 2 ^ 24 → ∃ items : List Int64,
        items.map Int64.toInt = (List.range n).map (fun k : Nat => start.toInt + k * step.toInt) ∧
        PureFunction.range.apply name [.integer start, .integer stop, .integer step] line =
          .ok (.list (items.map .integer))) ∧
      (2 ^ 24 < n → PureFunction.range.apply name [.integer start, .integer stop, .integer step] line =
        .error (.invalidArgument "rango" "el rango es demasiado grande" line))) ∧
    PureFunction.range.apply name [.integer start, .integer stop] line =
      PureFunction.range.apply name [.integer start, .integer stop, .integer 1] line ∧
    PureFunction.range.apply name [.integer stop] line =
      PureFunction.range.apply name [.integer 0, .integer stop, .integer 1] line := by
  refine ⟨?_, rfl, rfl⟩
  obtain ⟨n, counts⟩ := exists_counts nonzero stop start.toInt
  have calls : PureFunction.range.apply name [.integer start, .integer stop, .integer step] line =
      rangeFrom stop step line maxRangeLength start [] := by
    show range start stop step line = _
    rw [range, if_neg nonzero]
  obtain ⟨within, beyond⟩ := rangeFrom_eq counts line maxRangeLength []
  rw [calls]
  exact ⟨n, counts, within, beyond⟩

/-- A range behind whose only term the next one does not fit. -/
theorem range_progression_last : (5 : Int64) ≠ 0 ∧
    PureFunction.range.apply "rango"
      [.integer 9223372036854775805, .integer 9223372036854775807, .integer 5] 1 =
      .ok (.list [.integer 9223372036854775805]) := by
  refine ⟨by decide, ?_⟩
  obtain ⟨⟨n, counts, within, -⟩, -, -⟩ :=
    range_progression 9223372036854775805 9223372036854775807 5 (by decide) "rango" 1
  have one : n = 1 := by
    have first : 0 < n := (counts 0).mp (by decide)
    have second : ¬ 1 < n := fun more => absurd ((counts 1).mpr more) (by decide)
    omega
  subst one
  obtain ⟨items, numbers, result⟩ := within (by decide)
  obtain ⟨i, rfl, number⟩ := List.map_eq_singleton_iff.mp numbers
  obtain rfl : i = 9223372036854775805 := Int64.toInt_inj.mp (number.trans (by decide))
  exact result

end Guion.Library
