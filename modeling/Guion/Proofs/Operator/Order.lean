/-
The order that the comparison operators describe.

`Compares` lists the ways in which two values are compared: as integers, as moments
or characters of one kind, as texts, as reals. The operators give a result exactly
when one of them applies (`order_eq_ok`), and everything else follows from that.

Any two comparisons of the same values agree with each other: the order of a pair is
turned round with the pair (`Compares.swap`), and a value is equal to itself
(`Compares.self`). Over three values the ways mix. Integers are compared exactly and
beside a real as reals, which never contradicts: the reals of integers are in their
order, or equal. Two texts that read as numbers are compared as numbers, but each of
them is compared with another text character by character, and the two orders need
not agree: `10`, `1a` and `9` go round in a circle (`less_circle`). Transitivity fails
there and nowhere else (`Compares.trans_iff`): where a text that does not read as a
number stands between two that do and that are in another order as numbers.
-/
import Guion.Operator.Comparison
import Guion.Proofs.Binary64.Order

namespace Guion

/-- The number that a text reads as. -/
def readNumber? (s : String) : Option Binary64 := Number.readFinite? (Text.trim s.toList)

namespace Value

/-- What characters, dates, times and spans are ordered by among their kind. A date
without a time comes before the same date with one, as a shorter list does. -/
def moment? : Value → Option (Kind × List Int)
  | .character c => some (.character, [(c.toNat : Int)])
  | .date d =>
    some (.date, d.year :: d.month :: d.day ::
      match d.time with
      | none => []
      | some t => [(t.hour : Int), t.minute, t.second])
  | .time t => some (.time, [(t.hour : Int), t.minute, t.second])
  | .duration d => some (.duration, [d.seconds.toInt])
  | _ => none

/-- A value that arithmetic takes as a real. -/
def Numeric (v : Value) (x : Binary64) : Prop := v.toReal = .ok x ∧ x.isNaN = false

theorem Numeric.unique {v : Value} {x y : Binary64} (hx : v.Numeric x) (hy : v.Numeric y) : x = y := by
  cases hx.1.symm.trans hy.1
  rfl

theorem toReal_of_asInteger? {v : Value} {i : Int64} (h : v.asInteger? = some i) :
    v.toReal = .ok (.ofInt i.toInt) := by
  have bit : ∀ b : Bool, (if b then Binary64.one else .zero false) = .ofInt (if b then (1 : Int64) else 0).toInt := by
    intro b
    cases b <;> decide +kernel
  cases v with
  | integer i => cases h; rfl
  | bit b | boolean b => cases h; rw [← bit]; rfl
  | _ => cases h

theorem natAbs_toInt_le (i : Int64) : i.toInt.natAbs ≤ 2 ^ 63 := by
  have := Int64.le_toInt i
  have := Int64.toInt_lt i
  omega

theorem numeric_of_asInteger? {v : Value} {i : Int64} (h : v.asInteger? = some i) : v.Numeric (.ofInt i.toInt) :=
  ⟨toReal_of_asInteger? h, Binary64.isNaN_of_isFinite (Binary64.isFinite_ofInt (natAbs_toInt_le i))⟩

theorem eq_of_asText? {v : Value} {s : String} (h : v.asText? = some s) : v = .text s ∨ v = .string s := by
  cases v with
  | text t => cases h; exact .inl rfl
  | string t => cases h; exact .inr rfl
  | _ => cases h

theorem toReal_of_asText? {v : Value} {s : String} {x : Binary64} (h : v.asText? = some s) :
    v.toReal = .ok x ↔ readNumber? s = some x := by
  obtain rfl | rfl := eq_of_asText? h
  all_goals
    simp only [toReal, readNumber?]
    cases Number.readFinite? (Text.trim s.toList) <;> simp

end Value

namespace Operator

/-! ## The ways to compare two values -/

/-- How two values are compared, and the order that comes out. -/
inductive Compares (a b : Value) : Ordering → Prop
  | integers {i j : Int64} (ha : a.asInteger? = some i) (hb : b.asInteger? = some j) :
    Compares a b (compare i.toInt j.toInt)
  | moments {kind : Kind} {k l : List Int} (ha : a.moment? = some (kind, k)) (hb : b.moment? = some (kind, l)) :
    Compares a b (compare k l)
  | texts {s t : String} (ha : a.asText? = some s) (hb : b.asText? = some t)
    (word : readNumber? s = none ∨ readNumber? t = none) : Compares a b (compare s t)
  | reals {x y : Binary64} (ha : a.Numeric x) (hb : b.Numeric y) (mixed : a.asInteger? = none ∨ b.asInteger? = none) :
    Compares a b (compare x.place y.place)

section

variable {a b c : Value} {o : Ordering} {line : Nat}

/-! Moments are ordered part by part, as lists are. -/

theorem compare_cons (x y : Int) (k l : List Int) : compare (x :: k) (y :: l) = (compare x y).then (compare k l) :=
  List.compareLex_cons_cons

theorem compare_singleton (x y : Int) : compare [x] [y] = compare x y := by
  rw [compare_cons, show compare ([] : List Int) [] = .eq from rfl, Ordering.then_eq]

theorem compare_natCast (m n : Nat) : compare (m : Int) n = compare m n := by
  rw [Int.compare_eq_ite_lt, Nat.compare_eq_ite_lt]
  simp only [Int.ofNat_lt]

theorem compare_time (s t : TimeOfDay) :
    s.compare t = compare [(s.hour : Int), s.minute, s.second] [(t.hour : Int), t.minute, t.second] := by
  rw [compare_cons, compare_cons, compare_singleton, compare_natCast, compare_natCast, compare_natCast]
  rfl

theorem order_moments {kind : Kind} {k l : List Int} (ha : a.moment? = some (kind, k))
    (hb : b.moment? = some (kind, l)) : order a b line = .ok (compare k l) := by
  cases a with
  | character c =>
    cases b with
    | character d => cases ha; cases hb; rw [compare_singleton, compare_natCast]; rfl
    | _ => cases ha; cases hb
  | date d =>
    cases b with
    | date e =>
      cases ha; cases hb
      simp only [compare_cons, compare_natCast]
      show Except.ok (d.compare e) = _
      rw [Date.compare]
      congr 4
      cases d.time with
      | none => cases e.time <;> rfl
      | some s =>
        cases e.time with
        | none => rfl
        | some t => exact compare_time s t
    | _ => cases ha; cases hb
  | time t =>
    cases b with
    | time u => cases ha; cases hb; rw [← compare_time]; rfl
    | _ => cases ha; cases hb
  | duration d =>
    cases b with
    | duration e => cases ha; cases hb; rw [compare_singleton]; rfl
    | _ => cases ha; cases hb
  | _ => cases ha

theorem order_texts {s t : String} (ha : a.asText? = some s) (hb : b.asText? = some t)
    (word : readNumber? s = none ∨ readNumber? t = none) : order a b line = .ok (compare s t) := by
  unfold readNumber? at word
  obtain rfl | rfl := Value.eq_of_asText? ha
  all_goals
    obtain rfl | rfl := Value.eq_of_asText? hb
    all_goals
      simp only [order, Value.asInteger?, Value.asText?]
      obtain word | word := word
      · rw [word]
      · rw [word]
        cases Number.readFinite? (Text.trim s.toList) <;> rfl

theorem order_reals {x y : Binary64} (ha : a.Numeric x) (hb : b.Numeric y)
    (mixed : a.asInteger? = none ∨ b.asInteger? = none) : order a b line = .ok (compare x.place y.place) := by
  have reals : x.compare? y = some (compare x.place y.place) := Binary64.compare?_eq ha.2 hb.2
  unfold order
  dsimp only
  split
  · next hi hj =>
    obtain mixed | mixed := mixed
    · cases mixed.symm.trans hi
    · cases mixed.symm.trans hj
  split
  · cases ha.1
  · cases ha.1
  · cases ha.1
  · cases ha.1
  split
  · next s t hs ht =>
    have readA : Number.readFinite? (Text.trim s.toList) = some x := (Value.toReal_of_asText? hs).mp ha.1
    have readB : Number.readFinite? (Text.trim t.toList) = some y := (Value.toReal_of_asText? ht).mp hb.1
    rw [readA, readB]
    dsimp only
    rw [reals]
  · rw [ha.1, hb.1]
    dsimp only
    rw [reals]

/-- **Two values are in an order exactly when one of the ways to compare them
applies.** -/
theorem order_eq_ok : order a b line = .ok o ↔ Compares a b o := by
  constructor
  · intro h
    unfold order at h
    dsimp only at h
    split at h
    · next i j ha hb => cases h; exact .integers ha hb
    next apart =>
    have mixed : a.asInteger? = none ∨ b.asInteger? = none := by
      cases ha : a.asInteger? with
      | none => exact .inl rfl
      | some i =>
        cases hb : b.asInteger? with
        | none => exact .inr rfl
        | some j => exact absurd hb (apart i j ha)
    split at h
    · cases h; rw [← compare_natCast, ← compare_singleton]; exact .moments rfl rfl
    · next d e =>
      have same : order (.date d) (.date e) line = .ok (d.compare e) := rfl
      rw [order_moments rfl rfl] at same
      cases Except.ok.inj (same.trans h)
      exact .moments rfl rfl
    · cases h; rw [compare_time]; exact .moments rfl rfl
    · cases h; rw [← compare_singleton]; exact .moments rfl rfl
    split at h
    · next s t hs ht =>
      split at h
      · next x y hx hy =>
        split at h
        · next order compared =>
          obtain ⟨nx, ny, rfl⟩ := Binary64.compare?_eq_some compared
          cases h
          exact .reals ⟨(Value.toReal_of_asText? hs).mpr hx, nx⟩ ⟨(Value.toReal_of_asText? ht).mpr hy, ny⟩ mixed
        · cases h
      · next unread =>
        cases h
        refine .texts hs ht ?_
        cases hx : readNumber? s with
        | none => exact .inl rfl
        | some x =>
          cases hy : readNumber? t with
          | none => exact .inr rfl
          | some y => exact absurd hy (unread x y hx)
    · split at h
      · next x y hx hy =>
        split at h
        · next order compared =>
          obtain ⟨nx, ny, rfl⟩ := Binary64.compare?_eq_some compared
          cases h
          exact .reals ⟨hx, nx⟩ ⟨hy, ny⟩ mixed
        · cases h
      · cases h
  · intro h
    cases h with
    | integers ha hb => simp only [order, ha, hb]
    | moments ha hb => exact order_moments ha hb
    | texts ha hb word => exact order_texts ha hb word
    | reals ha hb mixed => exact order_reals ha hb mixed

namespace Compares

/-- Two values are in one order only. -/
theorem unique {p : Ordering} (h : Compares a b o) (h' : Compares a b p) : o = p := by
  have ho : order a b 0 = .ok o := order_eq_ok.mpr h
  have hp : order a b 0 = .ok p := order_eq_ok.mpr h'
  cases ho.symm.trans hp
  rfl

/-- **The order of a pair is turned round with the pair.** -/
theorem swap (h : Compares a b o) : Compares b a o.swap := by
  cases h with
  | integers ha hb => rw [← Std.OrientedOrd.eq_swap]; exact .integers hb ha
  | moments ha hb => rw [← Std.OrientedOrd.eq_swap]; exact .moments hb ha
  | texts ha hb word => rw [← Std.OrientedOrd.eq_swap]; exact .texts hb ha word.symm
  | reals ha hb mixed => rw [← Std.OrientedOrd.eq_swap]; exact .reals hb ha mixed.symm

/-- **A value is equal to itself.** -/
theorem self (h : Compares a a o) : o = .eq := by
  have turned := h.unique h.swap
  cases o with
  | eq => rfl
  | lt => cases turned
  | gt => cases turned

end Compares

/-! ## Three values -/

/-- A text stands between two others. -/
def Amid (p s t : String) : Prop :=
  compare s p = .lt ∧ compare p t = .lt ∨ compare t p = .lt ∧ compare p s = .lt

/-- A text that does not read as a number stands between two texts that do, and that
are in another order as numbers than as texts. -/
def Divides (w v u : Value) : Prop :=
  ∃ p s t x y, w.asText? = some p ∧ readNumber? p = none ∧ v.asText? = some s ∧ readNumber? s = some x ∧
    u.asText? = some t ∧ readNumber? t = some y ∧ Amid p s t ∧ x.compare? y ≠ some (compare s t)

/-- Three texts, one of which divides the others. -/
def Tangled (a b c : Value) : Prop := Divides b a c ∨ Divides c a b ∨ Divides a b c

theorem numeric_of_readNumber? {s : String} {x : Binary64} (h : a.asText? = some s) (read : readNumber? s = some x) :
    a.Numeric x :=
  ⟨(Value.toReal_of_asText? h).mpr read, Binary64.isNaN_of_isFinite (Number.isFinite_of_readFinite? read)⟩

/-- The sorts of values that are compared with each other. -/
inductive Alike (a b : Value) : Prop
  | numbers {x y : Binary64} (ha : a.Numeric x) (hb : b.Numeric y)
  | moments {kind : Kind} {k l : List Int} (ha : a.moment? = some (kind, k)) (hb : b.moment? = some (kind, l))
  | texts {s t : String} (ha : a.asText? = some s) (hb : b.asText? = some t)

theorem Compares.alike (h : Compares a b o) : Alike a b := by
  cases h with
  | integers ha hb => exact .numbers (Value.numeric_of_asInteger? ha) (Value.numeric_of_asInteger? hb)
  | moments ha hb => exact .moments ha hb
  | texts ha hb _ => exact .texts ha hb
  | reals ha hb _ => exact .numbers ha hb

/-- Moments are neither numbers nor texts. -/
theorem moment?_eq_none_of_numeric {x : Binary64} (h : a.Numeric x) : a.moment? = none := by
  cases a with
  | character _ | date _ | time _ | duration _ => cases h.1
  | _ => rfl

theorem moment?_eq_none_of_asText? {s : String} (h : a.asText? = some s) : a.moment? = none := by
  cases a with
  | text _ | string _ => rfl
  | _ => cases h

theorem asInteger?_eq_none_of_asText? {s : String} (h : a.asText? = some s) : a.asInteger? = none := by
  cases a with
  | text _ | string _ => rfl
  | _ => cases h

/-- Three values that are compared with each other are of one sort. -/
theorem Alike.three (hab : Alike a b) (hbc : Alike b c) (hac : Alike a c) :
    (∃ x y z, a.Numeric x ∧ b.Numeric y ∧ c.Numeric z) ∨
    (∃ kind k l m, a.moment? = some (kind, k) ∧ b.moment? = some (kind, l) ∧ c.moment? = some (kind, m)) ∨
    (∃ r s t, a.asText? = some r ∧ b.asText? = some s ∧ c.asText? = some t) := by
  cases hab with
  | numbers ha hb =>
    cases hbc with
    | numbers _ hc => exact .inl ⟨_, _, _, ha, hb, hc⟩
    | moments hb' _ => cases (moment?_eq_none_of_numeric hb).symm.trans hb'
    | texts hb' hc =>
      cases hac with
      | numbers _ hc' => exact .inl ⟨_, _, _, ha, hb, hc'⟩
      | moments ha' _ => cases (moment?_eq_none_of_numeric ha).symm.trans ha'
      | texts ha' _ => exact .inr (.inr ⟨_, _, _, ha', hb', hc⟩)
  | moments ha hb =>
    cases hbc with
    | numbers hb' _ => cases (moment?_eq_none_of_numeric hb').symm.trans hb
    | moments hb' hc =>
      cases hb.symm.trans hb'
      exact .inr (.inl ⟨_, _, _, _, ha, hb, hc⟩)
    | texts hb' _ => cases (moment?_eq_none_of_asText? hb').symm.trans hb
  | texts ha hb =>
    cases hbc with
    | numbers hb' hc =>
      cases hac with
      | numbers ha' _ => exact .inl ⟨_, _, _, ha', hb', hc⟩
      | moments ha' _ => cases (moment?_eq_none_of_asText? ha).symm.trans ha'
      | texts _ hc' => exact .inr (.inr ⟨_, _, _, ha, hb, hc'⟩)
    | moments hb' _ => cases (moment?_eq_none_of_asText? hb).symm.trans hb'
    | texts _ hc => exact .inr (.inr ⟨_, _, _, ha, hb, hc⟩)

theorem compare_asymm {s t : String} (h : compare s t = .lt) : compare t s ≠ .lt := by
  rw [Std.OrientedOrd.eq_swap, h]
  decide

theorem compare_of_ne {s t : String} (different : compare s t ≠ .lt) (apart : s ≠ t) : compare t s = .lt := by
  rw [Std.OrientedOrd.eq_swap]
  cases h : compare s t with
  | lt => exact absurd h different
  | eq => exact absurd (Std.LawfulEqOrd.eq_of_compare h) apart
  | gt => rfl

namespace Compares

/-- Two numbers are compared as integers or as reals. -/
theorem numbers {x y : Binary64} (h : Compares a b o) (ha : a.Numeric x) (hb : b.Numeric y) :
    (∃ i j, a.asInteger? = some i ∧ b.asInteger? = some j ∧ o = compare i.toInt j.toInt) ∨
      o = compare x.place y.place := by
  cases h with
  | integers hi hj => exact .inl ⟨_, _, hi, hj, rfl⟩
  | moments hk _ => cases (moment?_eq_none_of_numeric ha).symm.trans hk
  | texts hs ht word =>
    obtain word | word := word
    · cases word.symm.trans ((Value.toReal_of_asText? hs).mp ha.1)
    · cases word.symm.trans ((Value.toReal_of_asText? ht).mp hb.1)
  | reals ha' hb' _ =>
    cases ha.unique ha'
    cases hb.unique hb'
    exact .inr rfl

/-- A smaller number does not have a larger real. -/
theorem place_le {x y : Binary64} (h : Compares a b .lt) (ha : a.Numeric x) (hb : b.Numeric y) :
    x.place ≤ y.place := by
  obtain ⟨i, j, hi, hj, less⟩ | less := h.numbers ha hb
  · cases ha.unique (Value.numeric_of_asInteger? hi)
    cases hb.unique (Value.numeric_of_asInteger? hj)
    exact Binary64.place_ofInt_mono (Value.natAbs_toInt_le i) (Value.natAbs_toInt_le j)
      (Int.le_of_lt (compare_lt_iff_lt.mp less.symm))
  · exact Int.le_of_lt (compare_lt_iff_lt.mp less.symm)

/-- A number whose real is smaller is smaller. -/
theorem eq_lt_of_place_lt {x y : Binary64} (h : Compares a b o) (ha : a.Numeric x) (hb : b.Numeric y)
    (less : x.place < y.place) : o = .lt := by
  obtain ⟨i, j, hi, hj, rfl⟩ | rfl := h.numbers ha hb
  · cases ha.unique (Value.numeric_of_asInteger? hi)
    cases hb.unique (Value.numeric_of_asInteger? hj)
    exact compare_lt_iff_lt.mpr
      (Binary64.lt_of_place_ofInt_lt (Value.natAbs_toInt_le i) (Value.natAbs_toInt_le j) less)
  · exact compare_lt_iff_lt.mpr less

/-- Numbers: exactly as integers between integers, and as reals where there is another
number among them. -/
theorem trans_numbers {x y z : Binary64} (hab : Compares a b .lt) (hbc : Compares b c .lt) (hac : Compares a c o)
    (ha : a.Numeric x) (hb : b.Numeric y) (hc : c.Numeric z) : o = .lt := by
  have first := hab.place_le ha hb
  have second := hbc.place_le hb hc
  obtain ⟨i, j, hi, hj, less⟩ | less := hab.numbers ha hb
  · obtain ⟨j', k, hj', hk, less'⟩ | less' := hbc.numbers hb hc
    · cases hj.symm.trans hj'
      rw [hac.unique (.integers hi hk)]
      exact Std.TransCmp.lt_trans less.symm less'.symm
    · exact hac.eq_lt_of_place_lt ha hc (Int.lt_of_le_of_lt first (compare_lt_iff_lt.mp less'.symm))
  · exact hac.eq_lt_of_place_lt ha hc (Int.lt_of_lt_of_le (compare_lt_iff_lt.mp less.symm) second)

/-- A text that does not read as a number is compared as a text. -/
theorem asTexts {s t : String} (h : Compares a b o) (ha : a.asText? = some s) (hb : b.asText? = some t)
    (word : readNumber? s = none ∨ readNumber? t = none) : compare s t = o :=
  (h.unique (.texts ha hb word)).symm

/-- Two texts that read as numbers are compared as numbers. -/
theorem readNumbers {s t : String} {x y : Binary64} (h : Compares a b o) (ha : a.asText? = some s)
    (hb : b.asText? = some t) (hx : readNumber? s = some x) (hy : readNumber? t = some y) : x.compare? y = some o := by
  have first := numeric_of_readNumber? ha hx
  have second := numeric_of_readNumber? hb hy
  rw [h.unique (.reals first second (.inl (asInteger?_eq_none_of_asText? ha)))]
  exact Binary64.compare?_eq first.2 second.2

/-- Texts that are out of order are tangled: numbers are transitive and so are texts,
so the two ways to compare meet. -/
theorem tangled_of_ne {r s t : String} (hab : Compares a b .lt) (hbc : Compares b c .lt) (hac : Compares a c o)
    (ha : a.asText? = some r) (hb : b.asText? = some s) (hc : c.asText? = some t) (different : o ≠ .lt) :
    Tangled a b c := by
  cases hs : readNumber? s with
  | none =>
    -- The texts are in order, so it is the numbers that are not.
    have first : compare r s = .lt := hab.asTexts ha hb (.inr hs)
    have second : compare s t = .lt := hbc.asTexts hb hc (.inl hs)
    have ordered : compare r t = .lt := Std.TransCmp.lt_trans first second
    cases hr : readNumber? r with
    | none => exact absurd ((hac.asTexts ha hc (.inl hr)).symm.trans ordered) different
    | some x =>
      cases ht : readNumber? t with
      | none => exact absurd ((hac.asTexts ha hc (.inr ht)).symm.trans ordered) different
      | some z =>
        refine .inl ⟨s, r, t, x, z, hb, hs, ha, hr, hc, ht, .inl ⟨first, second⟩, fun same => different ?_⟩
        rw [hac.readNumbers ha hc hr ht] at same
        exact (Option.some.inj same).trans ordered
  | some y =>
    cases hr : readNumber? r with
    | none =>
      have first : compare r s = .lt := hab.asTexts ha hb (.inl hr)
      have outer : compare r t = o := hac.asTexts ha hc (.inl hr)
      cases ht : readNumber? t with
      | none =>
        have second : compare s t = .lt := hbc.asTexts hb hc (.inr ht)
        exact absurd (outer.symm.trans (Std.TransCmp.lt_trans first second)) different
      | some z =>
        have below : compare t r = .lt := compare_of_ne (outer.symm ▸ different) fun same => by
          cases hr.symm.trans (same ▸ ht)
        refine .inr (.inr ⟨r, s, t, y, z, ha, hr, hb, hs, hc, ht, .inr ⟨below, first⟩, fun same => ?_⟩)
        rw [hbc.readNumbers hb hc hs ht] at same
        exact compare_asymm (Std.TransCmp.lt_trans below first) (Option.some.inj same).symm
    | some x =>
      cases ht : readNumber? t with
      | none =>
        have second : compare s t = .lt := hbc.asTexts hb hc (.inr ht)
        have outer : compare r t = o := hac.asTexts ha hc (.inr ht)
        have below : compare t r = .lt := compare_of_ne (outer.symm ▸ different) fun same => by
          cases ht.symm.trans (same ▸ hr)
        refine .inr (.inl ⟨t, r, s, x, y, hc, ht, ha, hr, hb, hs, .inr ⟨second, below⟩, fun same => ?_⟩)
        rw [hab.readNumbers ha hb hr hs] at same
        exact compare_asymm (Std.TransCmp.lt_trans second below) (Option.some.inj same).symm
      | some z =>
        exact absurd (hab.trans_numbers hbc hac (numeric_of_readNumber? ha hr) (numeric_of_readNumber? hb hs)
          (numeric_of_readNumber? hc ht)) different

/-- Tangled values are out of order. -/
theorem ne_of_tangled (hab : Compares a b .lt) (hbc : Compares b c .lt) (hac : Compares a c o)
    (tangled : Tangled a b c) : o ≠ .lt := by
  rintro rfl
  obtain ⟨s, r, t, x, z, hb, hs, ha, hr, hc, ht, -, different⟩ |
    ⟨t, r, s, x, y, hc, ht, ha, hr, hb, hs, amid, -⟩ | ⟨r, s, t, y, z, ha, hr, hb, hs, hc, ht, amid, -⟩ := tangled
  · have first : compare r s = .lt := hab.asTexts ha hb (.inr hs)
    have second : compare s t = .lt := hbc.asTexts hb hc (.inl hs)
    rw [hac.readNumbers ha hc hr ht, Std.TransCmp.lt_trans first second] at different
    exact different rfl
  · have second : compare s t = .lt := hbc.asTexts hb hc (.inr ht)
    have outer : compare r t = .lt := hac.asTexts ha hc (.inr ht)
    obtain ⟨-, above⟩ | ⟨-, below⟩ := amid
    · exact compare_asymm second above
    · exact compare_asymm below outer
  · have first : compare r s = .lt := hab.asTexts ha hb (.inl hr)
    have outer : compare r t = .lt := hac.asTexts ha hc (.inl hr)
    obtain ⟨above, -⟩ | ⟨below, -⟩ := amid
    · exact compare_asymm first above
    · exact compare_asymm below outer

/-- **The order is transitive** exactly over values that are not tangled. -/
theorem trans_iff (hab : Compares a b .lt) (hbc : Compares b c .lt) (hac : Compares a c o) :
    o = .lt ↔ ¬ Tangled a b c := by
  constructor
  · exact fun ordered tangled => hab.ne_of_tangled hbc hac tangled ordered
  · intro plain
    obtain ⟨x, y, z, ha, hb, hc⟩ | ⟨kind, k, l, m, ha, hb, hc⟩ | ⟨r, s, t, ha, hb, hc⟩ :=
      hab.alike.three hbc.alike hac.alike
    · exact hab.trans_numbers hbc hac ha hb hc
    · have first := hab.unique (.moments ha hb)
      have second := hbc.unique (.moments hb hc)
      rw [hac.unique (.moments ha hc)]
      exact Std.TransCmp.lt_trans first.symm second.symm
    · by_contra different
      exact plain (hab.tangled_of_ne hbc hac ha hb hc different)

end Compares

/-! ## The operators -/

/-- The orders that an ordering operator accepts. -/
def ordering? : BinaryOperator → Option (Ordering → Bool)
  | .less => some (· == .lt)
  | .greater => some (· == .gt)
  | .lessEqual => some (· != .gt)
  | .greaterEqual => some (· != .lt)
  | _ => none

theorem binary_ordering {op : BinaryOperator} {accepts : Ordering → Bool} (h : ordering? op = some accepts) :
    binary op a b line = (order a b line).map fun o => .boolean (accepts o) := by
  cases op with
  | less | greater | lessEqual | greaterEqual =>
    cases h
    cases compared : order a b line <;> simp only [binary, comparison, compared] <;> rfl
  | _ => cases h

theorem ordering_eq_ok {op : BinaryOperator} {accepts : Ordering → Bool} (h : ordering? op = some accepts) {v : Value} :
    binary op a b line = .ok v ↔ ∃ o, Compares a b o ∧ v = .boolean (accepts o) := by
  rw [binary_ordering h]
  constructor
  · intro result
    cases compared : order a b line with
    | ok o =>
      rw [compared] at result
      exact ⟨o, order_eq_ok.mp compared, (Except.ok.inj result).symm⟩
    | error e =>
      rw [compared] at result
      cases result
  · rintro ⟨o, compared, rfl⟩
    rw [order_eq_ok.mpr compared]
    rfl

/-- An operator gives true. -/
def Holds (op : BinaryOperator) (a b : Value) (line : Nat) : Prop := binary op a b line = .ok (.boolean true)

/-- Whether a result is the truth value true. -/
def isTrue : Except RuntimeError Value → Bool
  | .ok (.boolean b) => b
  | _ => false

theorem isTrue_iff {result : Except RuntimeError Value} : isTrue result = true ↔ result = .ok (.boolean true) := by
  constructor
  · intro h
    unfold isTrue at h
    split at h
    · rw [h]
    · cases h
  · rintro rfl
    rfl

instance (op : BinaryOperator) : Decidable (Holds op a b line) := decidable_of_iff _ isTrue_iff

theorem holds_iff {op : BinaryOperator} {accepts : Ordering → Bool} (h : ordering? op = some accepts) :
    Holds op a b line ↔ ∃ o, Compares a b o ∧ accepts o = true := by
  rw [Holds, ordering_eq_ok h]
  simp only [Value.boolean.injEq, eq_comm]

theorem holds_of_compares {op : BinaryOperator} {accepts : Ordering → Bool} (h : ordering? op = some accepts)
    (compared : Compares a b o) : Holds op a b line ↔ accepts o = true := by
  rw [holds_iff h]
  constructor
  · rintro ⟨p, hp, holds⟩
    rwa [compared.unique hp]
  · intro holds
    exact ⟨o, compared, holds⟩

/-- One statement of three is true. -/
def ExactlyOne (p q r : Prop) : Prop := p ∧ ¬ q ∧ ¬ r ∨ ¬ p ∧ q ∧ ¬ r ∨ ¬ p ∧ ¬ q ∧ r

end

/-- **The ordering operators describe one order**, which is transitive exactly where
no texts are tangled. -/
theorem ordering_consistent (a b c : Value) (line : Nat) :
    (∀ v, binary .less a b line = .ok v ↔ binary .greater b a line = .ok v) ∧
    (∀ v, binary .lessEqual a b line = .ok v ↔ ∃ p, v = .boolean !p ∧ binary .greater a b line = .ok (.boolean p)) ∧
    (∀ v, binary .less a a line = .ok v → v = .boolean false) ∧
    (∀ v, binary .less a b line = .ok v →
      ExactlyOne (Holds .less a b line) (Holds .greater a b line)
        (Holds .lessEqual a b line ∧ Holds .greaterEqual a b line)) ∧
    (∀ v, Holds .less a b line → Holds .less b c line → binary .less a c line = .ok v →
      (Holds .less a c line ↔ ¬ Tangled a b c)) := by
  have less : ordering? .less = some (· == .lt) := rfl
  have greater : ordering? .greater = some (· == .gt) := rfl
  have lessEqual : ordering? .lessEqual = some (· != .gt) := rfl
  have greaterEqual : ordering? .greaterEqual = some (· != .lt) := rfl
  refine ⟨fun v => ?_, fun v => ?_, fun v result => ?_, fun v result => ?_, fun v hab hbc result => ?_⟩
  · rw [ordering_eq_ok less, ordering_eq_ok greater]
    constructor
    · rintro ⟨o, compared, rfl⟩
      exact ⟨_, compared.swap, by cases o <;> rfl⟩
    · rintro ⟨o, compared, rfl⟩
      exact ⟨_, compared.swap, by cases o <;> rfl⟩
  · rw [ordering_eq_ok lessEqual]
    simp only [ordering_eq_ok greater]
    constructor
    · rintro ⟨o, compared, rfl⟩
      exact ⟨o == .gt, rfl, o, compared, rfl⟩
    · rintro ⟨p, rfl, o, compared, same⟩
      cases same
      exact ⟨o, compared, rfl⟩
  · obtain ⟨o, compared, rfl⟩ := (ordering_eq_ok less).mp result
    rw [compared.self]
    rfl
  · obtain ⟨o, compared, -⟩ := (ordering_eq_ok less).mp result
    rw [holds_of_compares less compared, holds_of_compares greater compared, holds_of_compares lessEqual compared,
      holds_of_compares greaterEqual compared]
    cases o with
    | lt => exact .inl (by decide)
    | gt => exact .inr (.inl (by decide))
    | eq => exact .inr (.inr (by decide))
  · obtain ⟨o, hac, -⟩ := (ordering_eq_ok less).mp result
    obtain ⟨p, hab, smaller⟩ := (holds_iff less).mp hab
    obtain ⟨q, hbc, smaller'⟩ := (holds_iff less).mp hbc
    cases eq_of_beq smaller
    cases eq_of_beq smaller'
    rw [holds_of_compares less hac, ← hab.trans_iff hbc hac]
    exact beq_iff_eq

/-- A word between two texts that are in one order as numbers and as texts, a word
between two that are not, and two integers with the same real below a third number. -/
theorem ordering_consistent_mixed :
    (Holds .less (.string "10") (.text "1a") 1 ∧ Holds .less (.text "1a") (.string "20") 1 ∧
      ¬ Tangled (.string "10") (.text "1a") (.string "20")) ∧
    (Holds .less (.string "10") (.text "1a") 1 ∧ Holds .less (.text "1a") (.string "9") 1 ∧
      Tangled (.string "10") (.text "1a") (.string "9")) ∧
    (Number.realOfInteger 9007199254740992 = Number.realOfInteger 9007199254740993 ∧
      Holds .less (.integer 9007199254740992) (.integer 9007199254740993) 1 ∧
      Holds .less (.integer 9007199254740993) (.string "9007199254740994") 1 ∧
      ¬ Tangled (.integer 9007199254740992) (.integer 9007199254740993) (.string "9007199254740994")) := by
  have shorter : Holds .less (.string "10") (.text "1a") 1 := by decide +kernel
  have longer : Holds .less (.text "1a") (.string "20") 1 := by decide +kernel
  have digit : Holds .less (.text "1a") (.string "9") 1 := by decide +kernel
  have larger : binary .less (.string "10") (.string "9") 1 = .ok (.boolean false) := by cbv
  have next : Holds .less (.integer 9007199254740992) (.integer 9007199254740993) 1 := by decide +kernel
  have above : Holds .less (.integer 9007199254740993) (.string "9007199254740994") 1 := by decide +kernel
  have beyond : Holds .less (.integer 9007199254740992) (.string "9007199254740994") 1 := by decide +kernel
  have numbers : Holds .less (.string "10") (.string "20") 1 := by decide +kernel
  have circle : ¬ Holds .less (.string "10") (.string "9") 1 := by decide +kernel
  exact ⟨⟨shorter, longer, ((ordering_consistent _ _ _ 1).2.2.2.2 _ shorter longer numbers).mp numbers⟩,
    ⟨shorter, digit, Classical.byContradiction fun plain =>
      circle (((ordering_consistent _ _ _ 1).2.2.2.2 _ shorter digit larger).mpr plain)⟩,
    by decide +kernel, next, above, ((ordering_consistent _ _ _ 1).2.2.2.2 _ next above beyond).mp beyond⟩

/-- **A circle of texts**, two of which read as numbers. -/
theorem less_circle :
    Holds .less (.string "10") (.string "1a") 1 ∧ Holds .less (.string "1a") (.string "9") 1 ∧
    binary .less (.string "10") (.string "9") 1 = .ok (.boolean false) ∧
    Holds .less (.string "9") (.string "10") 1 := by
  refine ⟨by decide +kernel, by decide +kernel, ?_, by decide +kernel⟩
  cbv

end Operator
end Guion
