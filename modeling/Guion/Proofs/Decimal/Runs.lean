/-
Runs of decimal digits and the numbers they write.

`Writes t n` says that `t` is a run of digits for `n`, leading zeros allowed;
this is what the readers look for (`readNat?_eq_some`), and with a sign in front
what the readers of integers look for (`readInt?_eq_some`,
`readInt64?_eq_some`). A run is the text of its number filled with zeros to the
length of the run (`Writes.padZeros_eq`), so a number has one run of each length
that is enough for it. Runs of one length are in the order of their numbers,
character by character (`Writes.compare_eq`).
-/
import Guion.Proofs.Literal.Written
import Guion.Proofs.Operator.Integers

namespace Guion

namespace Decimal

/-- The text is a run of digits that writes the number. -/
structure Writes (t : List Char) (n : Nat) : Prop where
  ne_nil : t ≠ []
  digits : ∀ c ∈ t, isDigit c = true
  value : natOfDigits t = n

/-- A text with or without a sign in front of it. -/
inductive Signed (writes : List Char → Nat → Prop) : List Char → Int → Prop
  | bare {t n} (h : writes t n) : Signed writes t n
  | plus {t n} (h : writes t n) : Signed writes ('+' :: t) n
  | minus {t n} (h : writes t n) : Signed writes ('-' :: t) (-n)

variable {t u : List Char} {m n : Nat} {c d : Char}

theorem signed_iff {writes : List Char → Nat → Prop} {i : Int} : Signed writes t i ↔ (∃ n, writes t n ∧ i = n) ∨
    (∃ u n, t = '+' :: u ∧ writes u n ∧ i = n) ∨ ∃ u n, t = '-' :: u ∧ writes u n ∧ i = -(n : Int) := by
  constructor
  · intro h
    cases h with
    | bare h => exact .inl ⟨_, h, rfl⟩
    | plus h => exact .inr (.inl ⟨_, _, rfl, h, rfl⟩)
    | minus h => exact .inr (.inr ⟨_, _, rfl, h, rfl⟩)
  · rintro (⟨n, h, rfl⟩ | ⟨u, n, rfl, h, rfl⟩ | ⟨u, n, rfl, h, rfl⟩)
    · exact .bare h
    · exact .plus h
    · exact .minus h

theorem readNat?_eq_some : readNat? t = some n ↔ Writes t n := by
  unfold readNat? readRun?
  constructor
  · intro h
    split at h
    · cases h
    · next run =>
      simp only [Bool.or_eq_true, Bool.not_eq_true', not_or, List.isEmpty_iff, Bool.not_eq_false,
        List.all_eq_true] at run
      exact ⟨run.1, run.2, Option.some.inj h⟩
  · rintro ⟨some, digits, rfl⟩
    have all : t.all isDigit = true := List.all_eq_true.mpr digits
    simp [all, some]

theorem writes_digits (n : Nat) : Writes (digits n) n :=
  ⟨Nat.toDigits_ne_nil, fun _ => isDigit_of_mem_digits, natOfDigits_digits n⟩

/-- A run of digits starts with no sign. -/
theorem Writes.not_sign (h : Writes (c :: t) n) : c ≠ '+' ∧ c ≠ '-' :=
  have digit := h.digits c List.mem_cons_self
  ⟨ne_of_isDigit digit rfl, ne_of_isDigit digit rfl⟩

theorem readInt?_eq_some {i : Int} : readInt? t = some i ↔ Signed Writes t i := by
  have bare : ∀ {t}, (∀ u, t ≠ '-' :: u) → (∀ u, t ≠ '+' :: u) →
      readInt? t = (readNat? t).map fun (n : Nat) => (n : Int) := by
    intro t minus plus
    unfold readInt? readSigned?
    split
    · exact absurd rfl (minus _)
    · exact absurd rfl (plus _)
    · rfl
  constructor
  · intro h
    by_cases minus : ∃ u, t = '-' :: u
    · obtain ⟨u, rfl⟩ := minus
      obtain ⟨n, read, rfl⟩ := Option.map_eq_some_iff.mp h
      exact .minus (readNat?_eq_some.mp read)
    by_cases plus : ∃ u, t = '+' :: u
    · obtain ⟨u, rfl⟩ := plus
      obtain ⟨n, read, rfl⟩ := Option.map_eq_some_iff.mp h
      exact .plus (readNat?_eq_some.mp read)
    · rw [bare (not_exists.mp minus) (not_exists.mp plus)] at h
      obtain ⟨n, read, rfl⟩ := Option.map_eq_some_iff.mp h
      exact .bare (readNat?_eq_some.mp read)
  · intro h
    cases h with
    | bare h =>
      rw [bare, readNat?_eq_some.mpr h, Option.map_some]
      · rintro u rfl; exact h.not_sign.2 rfl
      · rintro u rfl; exact h.not_sign.1 rfl
    | plus h => exact Option.map_eq_some_iff.mpr ⟨_, readNat?_eq_some.mpr h, rfl⟩
    | minus h => exact Option.map_eq_some_iff.mpr ⟨_, readNat?_eq_some.mpr h, rfl⟩

/-! ## Appending a digit -/

theorem natOfDigits_concat (t : List Char) (c : Char) : natOfDigits (t ++ [c]) = natOfDigits t * 10 + digitValue c := by
  simp [natOfDigits, List.foldl_append]

theorem digitValue_lt (h : isDigit c = true) : digitValue c < 10 := by
  have := toNat_of_isDigit h
  show c.toNat - 48 < 10
  omega

theorem digitChar_digitValue (h : isDigit c = true) : (digitValue c).digitChar = c := by
  have bounds := toNat_of_isDigit h
  have value : digitValue c = c.toNat - 48 := rfl
  refine Char.toNat_inj.mp ?_
  rw [Nat.toNat_digitChar_of_lt_ten (digitValue_lt h)]
  omega

/-- The text of a number with one more digit. -/
theorem digits_concat (hn : 0 < n) (hc : isDigit c = true) : digits (n * 10 + digitValue c) = digits n ++ [c] := by
  have append := Nat.toDigits_append_toDigits (b := 10) (by decide) hn (digitValue_lt hc)
  rw [Nat.toDigits_of_lt_base (digitValue_lt hc), digitChar_digitValue hc, Nat.mul_comm 10] at append
  exact append.symm

theorem digits_digitValue (hc : isDigit c = true) : digits (digitValue c) = [c] := by
  rw [digits, Nat.toDigits_of_lt_base (digitValue_lt hc), digitChar_digitValue hc]

/-! ## Runs of a given length -/

/-- **A run is the text of its number, filled with zeros.** -/
theorem Writes.padZeros_eq (h : Writes t n) : padZeros t.length (Decimal.digits n) = t := by
  obtain ⟨some, run, rfl⟩ := h
  -- The last digit of the run is that of the number; what is in front of it is a run, or nothing.
  induction t using List.reverseRecOn with
  | nil => exact absurd rfl some
  | append_singleton t c ih =>
    have hc : isDigit c = true := run c (by simp)
    have front : ∀ d ∈ t, isDigit d = true := fun d hd => run d (by simp [hd])
    rw [natOfDigits_concat]
    by_cases start : t = []
    · subst start
      show padZeros 1 (Decimal.digits (0 * 10 + digitValue c)) = [c]
      rw [Nat.zero_mul, Nat.zero_add, digits_digitValue hc]
      rfl
    · have before := ih start front
      have len := congrArg List.length before
      by_cases zero : natOfDigits t = 0
      · rw [zero] at before len ⊢
        have zeros : Decimal.digits 0 = ['0'] := rfl
        rw [Nat.zero_mul, Nat.zero_add, digits_digitValue hc]
        rw [zeros] at before
        have wide : (t ++ [c]).length - [c].length = t.length - ['0'].length + 1 := by
          have := List.length_pos_iff.mpr start
          simp
          omega
        rw [padZeros, wide, List.replicate_succ']
        exact congrArg (· ++ [c]) before
      · rw [digits_concat (Nat.pos_of_ne_zero zero) hc]
        have wide : (t ++ [c]).length - (Decimal.digits (natOfDigits t) ++ [c]).length =
            t.length - (Decimal.digits (natOfDigits t)).length := by simp
        rw [padZeros, wide, ← List.append_assoc]
        exact congrArg (· ++ [c]) before

theorem length_padZeros {width : Nat} (hw : 0 < width) (h : n < 10 ^ width) :
    (padZeros width (digits n)).length = width := by
  have fits : (digits n).length ≤ width := (Nat.length_toDigits_le_iff (by decide) hw).mpr h
  simp [padZeros, fits]

theorem writes_padZeros (width n : Nat) : Writes (padZeros width (digits n)) n := by
  refine ⟨by simp [padZeros, digits], ?_, ?_⟩
  · intro c hc
    rcases List.mem_append.mp hc with hc | hc
    · rw [List.eq_of_mem_replicate hc]; rfl
    · exact isDigit_of_mem_digits hc
  · have zeros : ∀ k, (List.replicate k '0').foldl (fun n c => n * 10 + digitValue c) 0 = 0 := by
      intro k
      induction k with
      | zero => rfl
      | succ k ih => exact ih
    have value := natOfDigits_digits n
    unfold natOfDigits at value ⊢
    rw [padZeros, List.foldl_append, zeros, value]

/-- A run of a length is below the power of ten of this length. -/
theorem Writes.lt (h : Writes t n) : n < 10 ^ t.length := by
  have len := congrArg List.length h.padZeros_eq
  simp only [padZeros, List.length_append, List.length_replicate] at len
  exact (Nat.length_toDigits_le_iff (by decide) (List.length_pos_iff.mpr h.ne_nil)).mp (by
    show (Decimal.digits n).length ≤ t.length
    omega)

/-! ## Order -/

theorem compare_append (h : t.length = u.length) (v w : List Char) :
    compare (t ++ v) (u ++ w) = (compare t u).then (compare v w) := by
  induction t generalizing u with
  | nil =>
    obtain rfl := List.length_eq_zero_iff.mp h.symm
    rfl
  | cons c t ih =>
    cases u with
    | nil => cases h
    | cons d u =>
      simp only [List.cons_append, List.compare_cons_cons, ih (Nat.succ.inj h), Ordering.then_assoc]

theorem compare_digits (hc : isDigit c = true) (hd : isDigit d = true) :
    compare c d = compare (digitValue c) (digitValue d) := by
  have boundC := toNat_of_isDigit hc
  have boundD := toNat_of_isDigit hd
  have valueC : digitValue c = c.toNat - 48 := rfl
  have valueD : digitValue d = d.toNat - 48 := rfl
  have lt : c < d ↔ digitValue c < digitValue d := by
    rw [Char.lt_def, UInt32.lt_iff_toNat_lt]
    show c.toNat < d.toNat ↔ _
    omega
  have eq : c = d ↔ digitValue c = digitValue d := by
    rw [← Char.toNat_inj]
    omega
  show compareOfLessAndEq c d = compareOfLessAndEq (digitValue c) (digitValue d)
  simp only [compareOfLessAndEq, lt, eq]

/-- A last digit decides between numbers that are equal without it. -/
theorem compare_shifted {x y : Nat} (hx : x < 10) (hy : y < 10) :
    compare (m * 10 + x) (n * 10 + y) = (compare m n).then (compare x y) := by
  rcases Nat.lt_trichotomy m n with lt | rfl | gt
  · rw [Nat.compare_eq_lt.mpr lt, Nat.compare_eq_lt.mpr (by omega)]
    rfl
  · rw [Nat.compare_eq_eq.mpr rfl, Nat.compare_eq_ite_lt, Nat.compare_eq_ite_lt]
    simp
  · rw [Nat.compare_eq_gt.mpr gt, Nat.compare_eq_gt.mpr (by omega)]
    rfl

/-- **Runs of one length are in the order of their numbers.** -/
theorem Writes.compare_eq (ht : Writes t m) (hu : Writes u n) (h : t.length = u.length) :
    compare t u = compare m n := by
  obtain ⟨-, digitsT, rfl⟩ := ht
  obtain ⟨-, digitsU, rfl⟩ := hu
  induction t using List.reverseRecOn generalizing u with
  | nil =>
    obtain rfl := List.length_eq_zero_iff.mp h.symm
    rfl
  | append_singleton t c ih =>
    rcases List.eq_nil_or_concat' u with rfl | ⟨v, d, rfl⟩
    · simp at h
    · rw [List.forall_mem_append] at digitsT digitsU
      have same : t.length = v.length := by simpa using h
      have hc : isDigit c = true := digitsT.2 c (by simp)
      have hd : isDigit d = true := digitsU.2 d (by simp)
      have last : compare [c] [d] = compare (digitValue c) (digitValue d) := by
        rw [List.compare_cons_cons, compare_digits hc hd, List.compare_nil_nil, Ordering.then_eq]
      rw [compare_append same, ih same digitsT.1 digitsU.1, last, natOfDigits_concat, natOfDigits_concat,
        compare_shifted (digitValue_lt hc) (digitValue_lt hd)]

end Decimal

/-! ## Integers of 64 bits -/

theorem int64?_eq_some {i : Int} {x : Int64} : int64? i = some x ↔ x.toInt = i := by
  constructor
  · intro h
    by_cases fits : Fits i
    · rw [int64?_of_fits fits, Option.some.injEq] at h
      rw [← h, fits.toInt_ofInt]
    · rw [int64?_of_not_fits fits] at h
      cases h
  · rintro rfl
    exact int64?_toInt x

/-- **A 64-bit integer is read from the digits of its magnitude, with or without a
sign.** -/
theorem readInt64?_eq_some {t : List Char} {x : Int64} :
    readInt64? t = some x ↔ Decimal.Signed Decimal.Writes t x.toInt := by
  rw [readInt64?_eq, Option.bind_eq_some_iff]
  constructor
  · rintro ⟨i, read, fits⟩
    rw [int64?_eq_some.mp fits]
    exact Decimal.readInt?_eq_some.mp read
  · intro h
    exact ⟨_, Decimal.readInt?_eq_some.mpr h, int64?_toInt x⟩

end Guion
