/-
The texts of spans.

`Grammar` says how a span is written: a sign or none, and then a number of
seconds or a `Compound` of hours, minutes and seconds, each with its unit, in
this order, each at most once, where the total fits 64 bits. The reader follows
it but for the sign (`read?_eq_some`). It takes a minus sign itself and leaves
what is behind it to the reader of integers, which takes a sign of its own. So a
number of seconds may have a second sign, and a plus sign is not taken before
units.

The scanner of units adds up from left to right and narrows each amount, each
product and each sum. All that it adds is positive, so a partial sum is never
larger than the total, and only the total decides (`readUnits?_eq_some`).

The display of a span is a compound with its total (`compound_parts`), so it reads
back, the least span apart: its magnitude is no integer of 64 bits.
-/
import Guion.Proofs.Decimal.Runs
import Guion.Value.Coerce

namespace Guion.Duration

open Decimal (Writes Signed isDigit natOfDigits)

/-! ## How a span is written -/

/-- An amount with its unit, or nothing. -/
inductive Amount (unit : Char) : List Char → Nat → Prop
  | absent : Amount unit [] 0
  | present {t n} (h : Writes t n) : Amount unit (t ++ [unit]) n

/-- Hours, minutes and seconds, at least one of them, and the seconds that they are. -/
def Compound (t : List Char) (total : Nat) : Prop :=
  t ≠ [] ∧ ∃ hours minutes seconds x y z, Amount 'h' hours x ∧ Amount 'm' minutes y ∧ Amount 's' seconds z ∧
    t = hours ++ (minutes ++ seconds) ∧ total = 3600 * x + (60 * y + z)

/-- A span without its sign. No amount is larger than the total, so the amounts fit
64 bits too. -/
def Body (t : List Char) (total : Nat) : Prop := (Writes t total ∨ Compound t total) ∧ total < 2 ^ 63

/-- A span with a sign or none. -/
def Grammar : List Char → Int → Prop := Signed Body

/-- A plus sign before units. -/
def PlusUnits (t : List Char) : Prop := ∃ u n, t = '+' :: u ∧ Compound u n

/-- A minus sign before a number of seconds that has a sign of its own. -/
def SignedTwice (t : List Char) (x : Int64) : Prop :=
  ∃ u, t = '-' :: u ∧ (u.head? = some '+' ∨ u.head? = some '-') ∧ Signed Writes u x.toInt

/-! ## The scanner of units -/

/-- Amounts with units of ranks above the given one, in the order of the ranks. -/
inductive Groups : Nat → List Char → Nat → Prop
  | nil {rank} : Groups rank [] 0
  | cons {rank higher factor c t n rest total} (unit : unit? c = some (higher, factor)) (later : rank < higher)
      (amount : Writes t n) (more : Groups higher rest total) : Groups rank (t ++ c :: rest) (n * factor + total)

variable {t u digits : List Char} {c d : Char} {rank higher factor n total : Nat} {i : Int}

theorem unit?_eq_some (h : unit? c = some (higher, factor)) :
    (c = 'h' ∧ higher = 1 ∧ factor = 3600) ∨ (c = 'm' ∧ higher = 2 ∧ factor = 60) ∨
      c = 's' ∧ higher = 3 ∧ factor = 1 := by
  unfold unit? at h
  split at h <;> simp_all

theorem not_isDigit_of_unit? (h : unit? c = some (higher, factor)) : isDigit c = false := by
  rcases unit?_eq_some h with ⟨rfl, -⟩ | ⟨rfl, -⟩ | ⟨rfl, -⟩ <;> rfl

theorem groups_nil : Groups rank [] n ↔ n = 0 := by
  constructor
  · intro h
    generalize he : ([] : List Char) = t at h
    cases h with
    | nil => rfl
    | cons => simp at he
  · rintro rfl
    exact .nil

/-- A text is cut at the first character that is no digit in one way only. -/
theorem cut_unique {v w : List Char} (ht : ∀ e ∈ t, isDigit e = true) (hu : ∀ e ∈ u, isDigit e = true)
    (hc : isDigit c = false) (hd : isDigit d = false) (h : t ++ c :: v = u ++ d :: w) : t = u ∧ c = d ∧ v = w := by
  have front := congrArg (List.takeWhile isDigit) h
  rw [List.takeWhile_append_of_pos ht, List.takeWhile_append_of_pos hu] at front
  have same : t = u := by simpa [hc, hd] using front
  subst same
  simpa using h

theorem groups_unit {rest : List Char} (run : ∀ e ∈ t, isDigit e = true) (hc : isDigit c = false) :
    Groups rank (t ++ c :: rest) total ↔ ∃ higher factor more, unit? c = some (higher, factor) ∧ rank < higher ∧
      t ≠ [] ∧ Groups higher rest more ∧ total = natOfDigits t * factor + more := by
  constructor
  · intro h
    generalize he : t ++ c :: rest = whole at h
    cases h with
    | nil => simp at he
    | cons unit later amount more =>
      obtain ⟨rfl, rfl, rfl⟩ := cut_unique run amount.digits hc (not_isDigit_of_unit? unit) he
      exact ⟨_, _, _, unit, later, amount.ne_nil, more, by rw [amount.value]⟩
  · rintro ⟨higher, factor, more, unit, later, some, groups, rfl⟩
    exact .cons unit later ⟨some, run, rfl⟩ groups

/-- Digits alone are no amount. -/
theorem not_groups_digits (some : t ≠ []) (run : ∀ e ∈ t, isDigit e = true) : ¬ Groups rank t n := by
  intro h
  cases h with
  | nil => exact some rfl
  | cons unit =>
    have digit := run _ (List.mem_append_right _ List.mem_cons_self)
    rw [not_isDigit_of_unit? unit] at digit
    cases digit

theorem readInt64?_of_writes (h : Writes t n) : readInt64? t = int64? n := by
  rw [readInt64?_eq, Decimal.readInt?_eq_some.mpr (.bare h), Option.bind_some]

/-- An amount is added if the sum fits, whatever is narrowed on the way. -/
theorem add_amount {sum : Int} (h : Writes t n) (low : 0 ≤ sum) (positive : 0 < factor) (next : Int → Option Int) :
    (do
      let amount ← readInt64? t
      let portion ← int64? (amount.toInt * factor)
      let sum ← int64? (sum + portion.toInt)
      next sum.toInt) = if sum + n * factor < 2 ^ 63 then next (sum + n * factor) else none := by
  have smaller : (n : Int) ≤ n * factor := by exact_mod_cast Nat.le_mul_of_pos_right n positive
  rw [readInt64?_of_writes h]
  by_cases amount : Fits n
  · simp only [int64?_of_fits amount, Option.bind_eq_bind, Option.bind_some, amount.toInt_ofInt]
    by_cases portion : Fits (n * factor)
    · simp only [int64?_of_fits portion, Option.bind_some, portion.toInt_ofInt]
      by_cases all : Fits (sum + n * factor)
      · rw [int64?_of_fits all, Option.bind_some, all.toInt_ofInt, if_pos all.2]
      · rw [int64?_of_not_fits all, if_neg (by unfold Fits at all; omega)]
        rfl
    · rw [int64?_of_not_fits portion, if_neg (by unfold Fits at portion; omega)]
      rfl
  · rw [int64?_of_not_fits amount, if_neg (by unfold Fits at amount; omega)]
    rfl

/-- The scanner at a unit. -/
theorem readUnits?_unit {sum : Int} {rest : List Char} (low : 0 ≤ sum) (run : ∀ e ∈ digits, isDigit e = true)
    (other : isDigit c = false) :
    readUnits? sum rank digits (c :: rest) = some i ↔ ∃ higher factor, unit? c = some (higher, factor) ∧ rank < higher ∧
      digits.reverse ≠ [] ∧ sum + natOfDigits digits.reverse * factor < 2 ^ 63 ∧
      readUnits? (sum + natOfDigits digits.reverse * factor) higher [] rest = some i := by
  rw [readUnits?, if_neg (by simp [other])]
  cases unit : unit? c with
  | none => simp
  | some found =>
    obtain ⟨higher, factor⟩ := found
    have positive : 0 < factor := by
      rcases unit?_eq_some unit with ⟨-, -, rfl⟩ | ⟨-, -, rfl⟩ | ⟨-, -, rfl⟩ <;> decide
    have written (ne : digits.reverse ≠ []) : Writes digits.reverse (natOfDigits digits.reverse) :=
      ⟨ne, fun e he => run e (List.mem_reverse.mp he), rfl⟩
    have added (ne : digits.reverse ≠ []) :=
      add_amount (written ne) low positive fun sum => readUnits? sum higher [] rest
    simp only [Option.bind_eq_bind] at added
    simp only [Option.bind_eq_bind, Option.bind_some]
    constructor
    · intro h
      split at h
      · cases h
      · next taken =>
        obtain ⟨present, later⟩ := not_or.mp taken
        have ne : digits.reverse ≠ [] := by simpa using present
        rw [added ne] at h
        split at h
        · next fits => exact ⟨higher, factor, rfl, by omega, ne, fits, h⟩
        · cases h
    · rintro ⟨_, _, same, later, ne, fits, h⟩
      cases same
      have taken : ¬ (digits.isEmpty = true ∨ higher ≤ rank) := by
        rintro (empty | lower)
        · exact ne (by simpa using empty)
        · omega
      rw [if_neg taken, added ne, if_pos fits, h]

/-- **What the scanner adds up**; it has read `digits` since the last unit, in
reverse. -/
theorem readUnits?_eq_some {sum : Int} (low : 0 ≤ sum) (high : sum < 2 ^ 63) (run : ∀ e ∈ digits, isDigit e = true) :
    readUnits? sum rank digits t = some i ↔
      ∃ n, Groups rank (digits.reverse ++ t) n ∧ sum + n < 2 ^ 63 ∧ i = sum + n := by
  induction t generalizing sum rank digits with
  | nil =>
    rw [readUnits?, List.append_nil]
    cases digits with
    | nil =>
      simp only [List.isEmpty_nil, if_true, Option.some.injEq, List.reverse_nil, groups_nil]
      constructor
      · rintro rfl
        exact ⟨0, rfl, by simpa using high, by simp⟩
      · rintro ⟨n, rfl, -, rfl⟩
        simp
    | cons c digits =>
      constructor
      · intro h
        cases h
      · rintro ⟨n, groups, -⟩
        exact absurd groups (not_groups_digits (by simp) fun e he => run e (List.mem_reverse.mp he))
  | cons c rest ih =>
    by_cases digit : isDigit c = true
    · rw [readUnits?, if_pos digit, ih low high (List.forall_mem_cons.mpr ⟨digit, run⟩), List.reverse_cons,
        List.append_assoc, List.singleton_append]
    · have other : isDigit c = false := by simpa using digit
      have written : ∀ e ∈ digits.reverse, isDigit e = true := fun e he => run e (List.mem_reverse.mp he)
      have none : ∀ e ∈ ([] : List Char), isDigit e = true := by simp
      rw [readUnits?_unit low run other]
      constructor
      · rintro ⟨higher, factor, unit, later, ne, fits, h⟩
        obtain ⟨more, groups, all, rfl⟩ := (ih (by positivity) fits none).mp h
        refine ⟨natOfDigits digits.reverse * factor + more, (groups_unit written other).mpr
          ⟨higher, factor, more, unit, later, ne, groups, rfl⟩, ?_, ?_⟩ <;> push_cast <;> omega
      · rintro ⟨n, whole, all, rfl⟩
        obtain ⟨higher, factor, more, unit, later, ne, groups, rfl⟩ := (groups_unit written other).mp whole
        push_cast at all ⊢
        have fits : sum + natOfDigits digits.reverse * factor < 2 ^ 63 := by omega
        exact ⟨higher, factor, unit, later, ne, fits, (ih (by positivity) fits none).mpr
          ⟨more, groups, by omega, by omega⟩⟩

/-! ## Compounds -/

theorem Groups.weaken {lower : Nat} (h : Groups rank t n) (le : lower ≤ rank) : Groups lower t n := by
  cases h with
  | nil => exact .nil
  | cons unit later amount more => exact .cons unit (Nat.lt_of_le_of_lt le later) amount more

/-- The amount of the next unit is there or not. -/
theorem groups_succ (unit : Char) (hu : unit? unit = some (rank + 1, factor)) :
    Groups rank t total ↔ ∃ first rest x more, Amount unit first x ∧ Groups (rank + 1) rest more ∧
      t = first ++ rest ∧ total = factor * x + more := by
  constructor
  · intro h
    cases h with
    | nil => exact ⟨[], [], 0, 0, .absent, .nil, rfl, rfl⟩
    | @cons _ higher other c first n rest more found later amount groups =>
      by_cases next : higher = rank + 1
      · have same : c = unit ∧ other = factor := by
          rcases unit?_eq_some hu with ⟨rfl, hr, rfl⟩ | ⟨rfl, hr, rfl⟩ | ⟨rfl, hr, rfl⟩ <;>
            rcases unit?_eq_some found with ⟨rfl, hh, rfl⟩ | ⟨rfl, hh, rfl⟩ | ⟨rfl, hh, rfl⟩ <;>
              first | exact ⟨rfl, rfl⟩ | omega
        obtain ⟨rfl, rfl⟩ := same
        exact ⟨first ++ [c], rest, n, more, .present amount, next ▸ groups, by simp, by rw [Nat.mul_comm]⟩
      · exact ⟨[], _, 0, _, .absent, .cons found (by omega) amount groups, rfl, by simp⟩
  · rintro ⟨first, rest, x, more, amount, groups, rfl, rfl⟩
    cases amount with
    | absent => simpa using groups.weaken (Nat.le_succ rank)
    | present h => simpa [Nat.mul_comm] using Groups.cons hu (Nat.lt_succ_self rank) h groups

/-- There is no unit behind the seconds. -/
theorem groups_seconds : Groups 2 t n ↔ Amount 's' t n := by
  rw [groups_succ 's' rfl]
  constructor
  · rintro ⟨first, rest, x, more, amount, groups, rfl, rfl⟩
    cases groups with
    | nil => simpa using amount
    | cons unit later => rcases unit?_eq_some unit with ⟨-, rfl, -⟩ | ⟨-, rfl, -⟩ | ⟨-, rfl, -⟩ <;> omega
  · intro amount
    exact ⟨t, [], n, 0, amount, .nil, by simp, by simp⟩

theorem groups_minutes : Groups 1 t n ↔ ∃ minutes seconds y z, Amount 'm' minutes y ∧ Amount 's' seconds z ∧
    t = minutes ++ seconds ∧ n = 60 * y + z := by
  rw [groups_succ 'm' rfl]
  exact exists₄_congr fun _ _ _ _ => and_congr_right fun _ => and_congr_left fun _ => groups_seconds

theorem compound_iff : Compound t n ↔ t ≠ [] ∧ Groups 0 t n := by
  refine and_congr_right fun _ => ?_
  rw [groups_succ 'h' rfl]
  constructor
  · rintro ⟨hours, minutes, seconds, x, y, z, hx, hy, hz, rfl, rfl⟩
    exact ⟨hours, _, x, _, hx, groups_minutes.mpr ⟨minutes, seconds, y, z, hy, hz, rfl, rfl⟩, rfl, rfl⟩
  · rintro ⟨hours, rest, x, more, hx, groups, rfl, rfl⟩
    obtain ⟨minutes, seconds, y, z, hy, hz, rfl, rfl⟩ := groups_minutes.mp groups
    exact ⟨hours, minutes, seconds, x, y, z, hx, hy, hz, rfl, rfl⟩

/-- A compound starts with a digit. -/
theorem Compound.head (h : Compound t n) : ∃ c rest, t = c :: rest ∧ isDigit c = true := by
  obtain ⟨ne, groups⟩ := compound_iff.mp h
  cases groups with
  | nil => exact absurd rfl ne
  | cons unit later amount more =>
    obtain ⟨c, rest, rfl⟩ := List.exists_cons_of_ne_nil amount.ne_nil
    exact ⟨c, _, rfl, amount.digits c List.mem_cons_self⟩

theorem Compound.not_writes (h : Compound t n) : ¬ Writes t total := fun w =>
  not_groups_digits w.ne_nil w.digits (compound_iff.mp h).2

theorem Compound.not_signed (h : Compound t n) : ¬ Signed Writes t i := by
  obtain ⟨c, rest, rfl, digit⟩ := h.head
  intro signed
  cases signed with
  | bare w => exact h.not_writes w
  | plus => cases digit
  | minus => cases digit

/-! ## The reader -/

/-- A number of seconds is tried first, with a sign of its own, and units only then. -/
theorem readBody?_integer_or_units : readBody? t = some i ↔
    (Signed Writes t i ∧ Fits i) ∨ ∃ n : Nat, Compound t n ∧ n < 2 ^ 63 ∧ i = n := by
  by_cases ne : t = []
  · subst ne
    constructor
    · intro h
      cases h
    · rintro (⟨signed, -⟩ | ⟨n, compound, -⟩)
      · cases signed with
        | bare h => exact absurd rfl h.ne_nil
      · exact absurd rfl compound.1
  rw [readBody?, if_neg (by simpa using ne)]
  cases read : readInt64? t with
  | some x =>
    have signed := readInt64?_eq_some.mp read
    constructor
    · intro h
      cases h
      exact .inl ⟨signed, fits_toInt x⟩
    · rintro (⟨other, fits⟩ | ⟨n, compound, -⟩)
      · have again : readInt64? t = some (.ofInt i) := readInt64?_eq_some.mpr (by rwa [fits.toInt_ofInt])
        obtain rfl := Option.some.inj (read.symm.trans again)
        show some (Int64.ofInt i).toInt = some i
        rw [fits.toInt_ofInt]
      · exact absurd signed compound.not_signed
  | none =>
    have none : ¬ (Signed Writes t i ∧ Fits i) := by
      rintro ⟨signed, fits⟩
      have again : readInt64? t = some (.ofInt i) := readInt64?_eq_some.mpr (by rwa [fits.toInt_ofInt])
      cases read.symm.trans again
    have scan : readUnits? 0 0 [] t = some i ↔ ∃ n, Groups 0 t n ∧ 0 + (n : Int) < 2 ^ 63 ∧ i = 0 + n :=
      readUnits?_eq_some (Int.le_refl 0) (by decide) (by simp)
    simp only [Int.zero_add] at scan
    rw [or_iff_right none]
    have compound : ∀ n, Compound t n ↔ Groups 0 t n := fun n => compound_iff.trans (and_iff_right ne)
    simp only [compound]
    exact_mod_cast scan

/-- What is read behind a sign or without one: a body, or a number of seconds with a
sign. -/
theorem readBody?_eq_some : readBody? t = some i ↔
    (∃ n : Nat, Body t n ∧ i = n) ∨ (t.head? = some '+' ∨ t.head? = some '-') ∧ Signed Writes t i ∧ Fits i := by
  rw [readBody?_integer_or_units]
  constructor
  · rintro (⟨signed, fits⟩ | ⟨n, compound, small, rfl⟩)
    · rcases Decimal.signed_iff.mp signed with ⟨n, w, rfl⟩ | ⟨u, n, rfl, -⟩ | ⟨u, n, rfl, -⟩
      · exact .inl ⟨n, ⟨.inl w, by exact_mod_cast fits.2⟩, rfl⟩
      · exact .inr ⟨.inl rfl, signed, fits⟩
      · exact .inr ⟨.inr rfl, signed, fits⟩
    · exact .inl ⟨n, ⟨.inr compound, small⟩, rfl⟩
  · rintro (⟨n, ⟨w | compound, small⟩, rfl⟩ | ⟨-, signed⟩)
    · exact .inl ⟨.bare w, by omega, by exact_mod_cast small⟩
    · exact .inr ⟨n, compound, small, rfl⟩
    · exact .inl signed

theorem Body.head (h : Body t n) : ∃ c rest, t = c :: rest ∧ isDigit c = true := by
  rcases h.1 with w | compound
  · obtain ⟨c, rest, rfl⟩ := List.exists_cons_of_ne_nil w.ne_nil
    exact ⟨c, rest, rfl, w.digits c List.mem_cons_self⟩
  · exact compound.head

theorem not_body_of_sign (h : c = '+' ∨ c = '-') : ¬ Body (c :: t) n := by
  intro body
  obtain ⟨d, rest, he, digit⟩ := body.head
  cases he
  rcases h with rfl | rfl <;> cases digit

theorem grammar_minus : Grammar ('-' :: t) i ↔ ∃ n : Nat, Body t n ∧ i = -(n : Int) := by
  constructor
  · intro h
    rcases Decimal.signed_iff.mp h with ⟨n, body, -⟩ | ⟨u, n, he, -⟩ | ⟨u, n, he, body, value⟩
    · exact absurd body (not_body_of_sign (.inr rfl))
    · cases he
    · cases he
      exact ⟨n, body, value⟩
  · rintro ⟨n, body, rfl⟩
    exact .minus body

/-- Without a minus sign, the plus sign that is taken stands before a number of seconds. -/
theorem grammar_no_minus (h : ∀ u, t ≠ '-' :: u) : Grammar t i ∧ ¬ PlusUnits t ↔
    (∃ n : Nat, Body t n ∧ i = n) ∨ ∃ u n, t = '+' :: u ∧ Writes u n ∧ n < 2 ^ 63 ∧ i = n := by
  constructor
  · rintro ⟨grammar, plain⟩
    rcases Decimal.signed_iff.mp grammar with ⟨n, body, value⟩ | ⟨u, n, rfl, ⟨w | compound, small⟩, value⟩ |
      ⟨u, n, he, -⟩
    · exact .inl ⟨n, body, value⟩
    · exact .inr ⟨u, n, rfl, w, small, value⟩
    · exact absurd ⟨u, n, rfl, compound⟩ plain
    · exact absurd he (h u)
  · rintro (⟨n, body, rfl⟩ | ⟨u, n, rfl, w, small, rfl⟩)
    · refine ⟨.bare body, ?_⟩
      rintro ⟨u, m, rfl, -⟩
      exact not_body_of_sign (.inl rfl) body
    · refine ⟨.plus ⟨.inl w, small⟩, ?_⟩
      rintro ⟨v, m, he, compound⟩
      cases he
      exact compound.not_writes w

section Reader

variable {text : List Char} {d : Duration}

/-- Behind a minus sign the reader of integers may find a sign of its own. -/
theorem read?_minus (h : Text.trim text = '-' :: t) : read? text = some d ↔
    (∃ n : Nat, Body t n ∧ d.seconds.toInt = -(n : Int)) ∨
    ∃ x : Int64, (t.head? = some '+' ∨ t.head? = some '-') ∧ Signed Writes t x.toInt ∧ d.seconds = -x := by
  have read : read? text = (readBody? t).map fun s => ⟨Int64.ofInt (-s)⟩ := by
    rw [read?, h]
    rfl
  rw [read, Option.map_eq_some_iff]
  constructor
  · rintro ⟨i, found, rfl⟩
    rcases readBody?_eq_some.mp found with ⟨n, body, rfl⟩ | ⟨sign, signed, fits⟩
    · have small := body.2
      exact .inl ⟨n, body, Fits.toInt_ofInt ⟨by omega, by omega⟩⟩
    · exact .inr ⟨.ofInt i, sign, by rwa [fits.toInt_ofInt], Int64.ofInt_neg i⟩
  · rintro (⟨n, body, value⟩ | ⟨x, sign, signed, value⟩)
    · exact ⟨n, readBody?_eq_some.mpr (.inl ⟨n, body, rfl⟩), by rw [← value, Int64.ofInt_toInt]⟩
    · refine ⟨x.toInt, readBody?_eq_some.mpr (.inr ⟨sign, signed, fits_toInt x⟩), ?_⟩
      rw [Int64.ofInt_neg, Int64.ofInt_toInt, ← value]

theorem read?_no_minus (h : ∀ u, Text.trim text ≠ '-' :: u) : read? text = some d ↔
    (∃ n : Nat, Body (Text.trim text) n ∧ d.seconds.toInt = n) ∨
    ∃ u n, Text.trim text = '+' :: u ∧ Writes u n ∧ n < 2 ^ 63 ∧ d.seconds.toInt = n := by
  have read : read? text = (readBody? (Text.trim text)).map fun s => ⟨Int64.ofInt s⟩ := by
    unfold read?
    split
    · next he => exact absurd he (h _)
    · rfl
  rw [read, Option.map_eq_some_iff]
  constructor
  · rintro ⟨i, found, rfl⟩
    rcases readBody?_eq_some.mp found with ⟨n, body, rfl⟩ | ⟨-, signed, fits⟩
    · have small := body.2
      exact .inl ⟨n, body, Fits.toInt_ofInt ⟨by omega, by omega⟩⟩
    · rcases Decimal.signed_iff.mp signed with ⟨n, w, rfl⟩ | ⟨u, n, he, w, rfl⟩ | ⟨u, n, he, -⟩
      · have small : n < 2 ^ 63 := by exact_mod_cast fits.2
        exact .inl ⟨n, ⟨.inl w, small⟩, fits.toInt_ofInt⟩
      · exact .inr ⟨u, n, he, w, by exact_mod_cast fits.2, fits.toInt_ofInt⟩
      · exact absurd he (h u)
  · rintro (⟨n, body, value⟩ | ⟨u, n, he, w, small, value⟩)
    · exact ⟨n, readBody?_eq_some.mpr (.inl ⟨n, body, rfl⟩), by rw [← value, Int64.ofInt_toInt]⟩
    · refine ⟨n, readBody?_eq_some.mpr (.inr ⟨by simp [he], he ▸ .plus w, ?_⟩), by rw [← value, Int64.ofInt_toInt]⟩
      rw [← value]
      exact fits_toInt _

/-- **What the reader takes**: the spans of the grammar, but no plus sign before units,
and a second sign between a minus sign and a number of seconds. -/
theorem read?_eq_some :
    read? text = some d ↔
      (Grammar (Text.trim text) d.seconds.toInt ∧ ¬ PlusUnits (Text.trim text)) ∨
      ∃ x, SignedTwice (Text.trim text) x ∧ d.seconds = -x := by
  by_cases minus : ∃ t, Text.trim text = '-' :: t
  · obtain ⟨t, ht⟩ := minus
    have plain : ¬ PlusUnits ('-' :: t) := by
      rintro ⟨u, n, he, -⟩
      cases he
    have twice : ∀ x, SignedTwice ('-' :: t) x ↔
        (t.head? = some '+' ∨ t.head? = some '-') ∧ Signed Writes t x.toInt := by
      intro x
      constructor
      · rintro ⟨u, he, sign, signed⟩
        cases he
        exact ⟨sign, signed⟩
      · rintro ⟨sign, signed⟩
        exact ⟨t, rfl, sign, signed⟩
    rw [read?_minus ht, ht, and_iff_left plain, grammar_minus]
    simp only [twice, and_assoc]
  · have bare : ∀ t, Text.trim text ≠ '-' :: t := not_exists.mp minus
    have twice : ¬ ∃ x, SignedTwice (Text.trim text) x ∧ d.seconds = -x := by
      rintro ⟨x, ⟨t, he, -⟩, -⟩
      exact bare t he
    rw [read?_no_minus bare, grammar_no_minus bare, or_iff_left twice]

end Reader

/-! ## The display -/

theorem amount_part (n : Nat) (unit : Char) : Amount unit (part n unit) n := by
  unfold part
  split
  · next zero => exact zero ▸ .absent
  · exact .present (Decimal.writes_digits n)

/-- The parts of a number of seconds are a compound of so many seconds. -/
theorem compound_parts (positive : 0 < n) :
    Compound (part (n / 3600) 'h' ++ (part (n % 3600 / 60) 'm' ++ part (n % 60) 's')) n := by
  refine ⟨?_, _, _, _, _, _, _, amount_part _ _, amount_part _ _, amount_part _ _, rfl, by omega⟩
  intro he
  simp only [List.append_eq_nil_iff, part] at he
  have zero : ∀ {m : Nat} {unit : Char}, (if m = 0 then [] else Decimal.digits m ++ [unit]) = [] → m = 0 := by
    intro m unit h
    by_contra ne
    simp [ne] at h
  have hours := zero he.1
  have minutes := zero he.2.1
  have seconds := zero he.2.2
  omega

/-- The display of a span is a compound for its seconds, a minus sign in front of it if
there are less than none. -/
theorem render_cases (d : Duration) : ∃ t n, Compound t n ∧
    ((d.render = t ∧ d.seconds.toInt = n) ∨ d.render = '-' :: t ∧ d.seconds.toInt = -n) := by
  unfold render
  dsimp only
  split
  · next none =>
    exact ⟨['0', 's'], 0, ⟨by simp, [], [], ['0', 's'], 0, 0, 0, .absent, .absent, .present (Decimal.writes_digits 0),
      rfl, rfl⟩, .inl ⟨rfl, by omega⟩⟩
  · next some =>
    refine ⟨_, _, compound_parts (Nat.pos_of_ne_zero some), ?_⟩
    split
    · exact .inr ⟨rfl, by omega⟩
    · exact .inl ⟨rfl, by omega⟩

theorem Groups.isInner (h : Groups rank t n) : ∀ e ∈ t, Value.isInner e = true := by
  induction h with
  | nil => simp
  | cons unit _ amount _ ih =>
    intro e he
    rcases List.mem_append.mp he with he | he
    · exact Value.isInner_of_isDigit (amount.digits e he)
    rcases List.mem_cons.mp he with rfl | he
    · rcases unit?_eq_some unit with ⟨rfl, -⟩ | ⟨rfl, -⟩ | ⟨rfl, -⟩ <;> rfl
    · exact ih e he

theorem trim_render (d : Duration) : Text.trim d.render = d.render := by
  obtain ⟨t, n, compound, h⟩ := render_cases d
  have inner := (compound_iff.mp compound).2.isInner
  have all : d.render ≠ [] ∧ ∀ e ∈ d.render, Value.isInner e = true := by
    rcases h with ⟨he, -⟩ | ⟨he, -⟩ <;> rw [he]
    · exact ⟨compound.1, inner⟩
    · exact ⟨by simp, List.forall_mem_cons.mpr ⟨rfl, inner⟩⟩
  exact (Value.trimmed_of_isInner (List.all_eq_true.mpr all.2) all.1).trim_eq

theorem ne_minValue {x : Int64} (h : x ≠ .minValue) : x.toInt ≠ -2 ^ 63 := fun he =>
  h (Int64.toInt_inj.mp (he.trans Int64.toInt_minValue.symm))

theorem read?_render {d : Duration} (h : d.seconds ≠ .minValue) : read? d.render = some d := by
  have least := ne_minValue h
  have low := d.seconds.le_toInt
  have high := d.seconds.toInt_lt
  obtain ⟨t, n, compound, cases⟩ := render_cases d
  have body : Body t n := ⟨.inr compound, by rcases cases with ⟨-, value⟩ | ⟨-, value⟩ <;> omega⟩
  have digit : ∀ u, d.render ≠ '+' :: u := by
    intro u hu
    rcases cases with ⟨he, -⟩ | ⟨he, -⟩
    · obtain ⟨c, rest, hc, digit⟩ := compound.head
      cases hc.symm.trans (he.symm.trans hu)
      cases digit
    · cases he.symm.trans hu
  rw [read?_eq_some, trim_render]
  refine .inl ⟨?_, fun ⟨u, _, hu, _⟩ => digit u hu⟩
  rcases cases with ⟨he, value⟩ | ⟨he, value⟩ <;> rw [he, value]
  · exact .bare body
  · exact .minus body

theorem length_part_le (h : n < 10 ^ 20) (unit : Char) : (part n unit).length ≤ 21 := by
  have digits : (Decimal.digits n).length ≤ 20 := (Nat.length_toDigits_le_iff (by decide) (by decide)).mpr h
  unfold part
  split
  · simp
  · rw [List.length_append]
    exact Nat.add_le_add_right digits 1

theorem length_render_le (d : Duration) : d.render.length ≤ textCapacity := by
  have low := d.seconds.le_toInt
  have high := d.seconds.toInt_lt
  have small : d.seconds.toInt.natAbs < 10 ^ 20 := by omega
  unfold render
  dsimp only
  generalize d.seconds.toInt.natAbs = n at small ⊢
  have hours := length_part_le (n := n / 3600) (by omega) 'h'
  have minutes := length_part_le (n := n % 3600 / 60) (by omega) 'm'
  have seconds := length_part_le (n := n % 60) (by omega) 's'
  unfold textCapacity
  split
  · decide
  · simp only [List.length_append]
    split <;> simp <;> omega

/-- The display of a span reads back, the least span apart. -/
theorem ofText_display (s : Int64) : ofText (Value.duration ⟨s⟩).display =
    if s = .minValue then
      .error ⟨(Value.duration ⟨s⟩).display, "tiempo", "use unidades h, m y s, por ejemplo 2h30m"⟩
    else .ok ⟨s⟩ := by
  have text : (Value.duration ⟨s⟩).display.toList = render ⟨s⟩ := String.toList_ofList
  rw [ofText, text]
  split
  · next least =>
    have refused : read? (render ⟨.minValue⟩) = none := by decide +kernel
    rw [least, refused]
    rfl
  · next least =>
    rw [read?_render (d := ⟨s⟩) least]
    rfl

/-- The display of a span fits a `texto`. -/
theorem coerce_text_display (d : Duration) :
    Value.coerce .text (.duration d) = .ok (.text (Value.duration d).display) := by
  have length : (Value.duration d).display.length = d.render.length := String.length_ofList
  have fits : ¬ textCapacity < (Value.duration d).display.length := by
    rw [length]
    exact Nat.not_lt.mpr (length_render_le d)
  have form : (Value.duration d).textForm = (Value.duration d).display := rfl
  unfold Value.coerce
  dsimp only
  rw [form, if_neg fits]

/-! ## Main statements -/

/-- **The display of a span reads back**, the least span apart, which is refused. So a
span that is stored as a text comes back as it was, and different spans have
different displays. -/
theorem display_roundTrip :
    (∀ s : Int64, ofText (Value.duration ⟨s⟩).display =
      if s = .minValue then
        .error ⟨(Value.duration ⟨s⟩).display, "tiempo", "use unidades h, m y s, por ejemplo 2h30m"⟩
      else .ok ⟨s⟩) ∧
    (∀ s : Int64, s ≠ .minValue → ∀ kind : Kind, kind = .text ∨ kind = .string →
      ∃ stored, Value.coerce kind (.duration ⟨s⟩) = .ok stored ∧ Value.coerce .duration stored = .ok (.duration ⟨s⟩)) ∧
    Function.Injective fun d : Duration => (Value.duration d).display := by
  refine ⟨ofText_display, ?_, ?_⟩
  · intro s least kind hk
    have back : (ofText (Value.duration ⟨s⟩).display).map Value.duration = .ok (.duration ⟨s⟩) := by
      rw [ofText_display, if_neg least]
      rfl
    rcases hk with rfl | rfl
    · exact ⟨_, coerce_text_display ⟨s⟩, back⟩
    · exact ⟨.string (Value.duration ⟨s⟩).display, rfl, back⟩
  · rintro ⟨s⟩ ⟨s'⟩ (same : (Value.duration ⟨s⟩).display = (Value.duration ⟨s'⟩).display)
    have results := congrArg ofText same
    rw [ofText_display, ofText_display] at results
    split at results <;> split at results
    · next h h' => rw [h, h']
    · cases results
    · cases results
    · exact Except.ok.inj results

theorem display_roundTrip_largest : ∃ stored, Value.coerce .text (.duration ⟨.maxValue⟩) = .ok stored ∧
    Value.coerce .duration stored = .ok (.duration ⟨.maxValue⟩) :=
  display_roundTrip.2.1 .maxValue (by decide) .text (.inl rfl)

/-- **Which texts are spans.** A text is read exactly if it is in the grammar, blanks
around it apart, and the span has the seconds that the grammar gives it; a plus
sign before units is refused, and a second sign between a minus sign and a number
of seconds is taken, and applied. -/
theorem ofText_accepts (s : String) (d : Duration) :
    ofText s = .ok d ↔
      (Grammar (Text.trim s.toList) d.seconds.toInt ∧ ¬ PlusUnits (Text.trim s.toList)) ∨
      ∃ x, SignedTwice (Text.trim s.toList) x ∧ d.seconds = -x := by
  rw [← read?_eq_some, ofText]
  unfold orExpected
  cases read? s.toList with
  | none => simp
  | some e => simp

/-- Where the reader leaves the grammar: it takes two signs, it refuses a plus sign before
units, and the least number of seconds with its sign turned round is the least again. -/
theorem ofText_departs :
    (ofText "-+90" = .ok ⟨-90⟩ ∧ ∀ i, ¬ Grammar (Text.trim "-+90".toList) i) ∧
    (Grammar (Text.trim "+2h30m".toList) 9000 ∧ ∀ d, ofText "+2h30m" ≠ .ok d) ∧
    ofText "--9223372036854775808" = .ok ⟨.minValue⟩ := by
  have twice : read? "-+90".toList = some ⟨-90⟩ := by decide +kernel
  have units : read? "+2h30m".toList = none := by decide +kernel
  have least : read? "--9223372036854775808".toList = some ⟨.minValue⟩ := by decide +kernel
  refine ⟨⟨by rw [ofText, twice]; rfl, ?_⟩, ⟨?_, ?_⟩, by rw [ofText, least]; rfl⟩
  · intro i grammar
    have trimmed : Text.trim "-+90".toList = ['-', '+', '9', '0'] := by decide
    rw [trimmed, grammar_minus] at grammar
    obtain ⟨n, body, -⟩ := grammar
    exact not_body_of_sign (.inl rfl) body
  · have trimmed : Text.trim "+2h30m".toList = '+' :: (['2', 'h'] ++ (['3', '0', 'm'] ++ [])) := by decide
    have hours : Amount 'h' (['2'] ++ ['h']) 2 := .present (Decimal.writes_digits 2)
    have minutes : Amount 'm' (['3', '0'] ++ ['m']) 30 := .present (Decimal.writes_digits 30)
    have body : Body (['2', 'h'] ++ (['3', '0', 'm'] ++ [])) 9000 :=
      ⟨.inr ⟨by simp, _, _, _, 2, 30, 0, hours, minutes, .absent, rfl, rfl⟩, by decide⟩
    rw [trimmed]
    exact .plus body
  · intro d taken
    rw [ofText, units] at taken
    cases taken

end Guion.Duration
