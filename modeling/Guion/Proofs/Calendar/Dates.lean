/-
The texts of dates and times.

A field of a text is a run of digits of a fixed width, and the text of its number
is the run itself (`field_iff`). So a text that is read is the display of what is
read, and a display is read back (`TimeOfDay.read?_eq_some`, `Date.read?_eq_some`):
each date has one text. The fields stand from the largest unit to the smallest and
have the same width in every text, so texts are in the order of what they stand
for; a time only makes a text longer.

Which days exist is said by divisibility (`Gregorian`), for every year. The texts
have room for the years up to 9999.
-/
import Guion.Proofs.Decimal.Runs

namespace Guion

/-! ## Fields -/

namespace Decimal

/-- A run of digits of a fixed width and its number. -/
structure Field (width : Nat) (t : List Char) (n : Nat) : Prop where
  length : t.length = width
  writes : Writes t n

variable {width m n : Nat} {t u : List Char}

theorem field_iff (hw : 0 < width) : Field width t n ↔ n < 10 ^ width ∧ t = padZeros width (digits n) := by
  constructor
  · rintro ⟨rfl, writes⟩
    exact ⟨writes.lt, writes.padZeros_eq.symm⟩
  · rintro ⟨small, rfl⟩
    exact ⟨length_padZeros hw small, writes_padZeros width n⟩

theorem Field.compare_eq (ht : Field width t m) (hu : Field width u n) : compare t u = compare m n :=
  ht.writes.compare_eq hu.writes (ht.length.trans hu.length.symm)

end Decimal

open Decimal (Field)

/-- Strings are in the order of their characters. -/
theorem compare_ofList (s t : List Char) : compare (String.ofList s) (String.ofList t) = compare s t := by
  have lt : ∀ s t : List Char, String.ofList s < String.ofList t ↔ s < t := fun s t => by
    rw [String.lt_iff, String.toList_ofList, String.toList_ofList]
  have eq : ∀ s t : List Char, String.ofList s = String.ofList t ↔ s = t := fun s t => String.ofList_inj
  show compareOfLessAndEq (String.ofList s) (String.ofList t) = _
  simp only [compareOfLessAndEq, lt, eq]
  induction s generalizing t with
  | nil => cases t <;> simp
  | cons c s ih =>
    cases t with
    | nil => simp
    | cons d t =>
      rw [List.compare_cons_cons, ← ih]
      show _ = (compareOfLessAndEq c d).then _
      rcases lt_trichotomy c d with h | rfl | h
      · simp [compareOfLessAndEq, List.cons_lt_cons_iff, h]
      · simp [compareOfLessAndEq]
      · simp [compareOfLessAndEq, List.cons_lt_cons_iff, h.ne', h.not_gt]

/-- Texts behind the same separator. -/
theorem compare_behind (c : Char) (s t : List Char) : compare (c :: s) (c :: t) = compare s t := by
  have same : compare c c = .eq := Std.ReflCmp.compare_self
  rw [List.compare_cons_cons, same, Ordering.eq_then]

/-! ## Times -/

namespace TimeOfDay

variable {t : List Char} {time : TimeOfDay}

/-- The texts `HH:MM:SS` of the times of a day. -/
def Form (t : List Char) : Prop :=
  ∃ h m s hour minute second, Field 2 h hour ∧ Field 2 m minute ∧ Field 2 s second ∧
    hour < 24 ∧ minute < 60 ∧ second < 60 ∧ t = h ++ ':' :: (m ++ ':' :: s)

theorem field_twoDigits {n : Nat} (h : n < 100) : Field 2 (twoDigits n) n :=
  (Decimal.field_iff (by decide)).mpr ⟨h, rfl⟩

/-- A pair of digits is the text of its number. -/
theorem readNat?_pair {a b : Char} {n : Nat} : Decimal.readNat? [a, b] = some n ↔ n < 100 ∧ [a, b] = twoDigits n := by
  have field : Field 2 [a, b] n ↔ n < 100 ∧ [a, b] = twoDigits n := Decimal.field_iff (by decide)
  rw [Decimal.readNat?_eq_some, ← field]
  exact ⟨fun writes => ⟨rfl, writes⟩, Field.writes⟩

/-- **A time has one text, its display.** -/
theorem read?_eq_some : read? t = some time ↔ time.Valid ∧ t = time.render := by
  constructor
  · intro h
    unfold read? at h
    split at h
    · next h1 h2 m1 m2 s1 s2 =>
      simp only [Option.bind_eq_bind, Option.bind_eq_some_iff, readNat?_pair] at h
      obtain ⟨hour, ⟨-, hh⟩, minute, ⟨-, hm⟩, second, ⟨-, hs⟩, h⟩ := h
      split at h
      · next valid =>
        cases h
        refine ⟨valid, ?_⟩
        simp only [render, ← hh, ← hm, ← hs]
        rfl
      · cases h
    · cases h
  · rintro ⟨valid, rfl⟩
    obtain ⟨hh, hm, hs⟩ := id valid
    obtain ⟨a, b, hab⟩ := List.length_eq_two.mp (field_twoDigits (n := time.hour) (by omega)).length
    obtain ⟨c, d, hcd⟩ := List.length_eq_two.mp (field_twoDigits (n := time.minute) (by omega)).length
    obtain ⟨e, f, hef⟩ := List.length_eq_two.mp (field_twoDigits (n := time.second) (by omega)).length
    have hour := readNat?_pair.mpr ⟨show time.hour < 100 by omega, hab.symm⟩
    have minute := readNat?_pair.mpr ⟨show time.minute < 100 by omega, hcd.symm⟩
    have second := readNat?_pair.mpr ⟨show time.second < 100 by omega, hef.symm⟩
    rw [render, hab, hcd, hef]
    show (do
      let hour ← Decimal.readNat? [a, b]
      let minute ← Decimal.readNat? [c, d]
      let second ← Decimal.readNat? [e, f]
      if Valid ⟨hour, minute, second⟩ then some (⟨hour, minute, second⟩ : TimeOfDay) else none) = some time
    simp only [hour, minute, second, Option.bind_eq_bind, Option.bind_some]
    exact if_pos valid

theorem compare_twoDigits {m n : Nat} (hm : m < 100) (hn : n < 100) :
    Ord.compare (twoDigits m) (twoDigits n) = Ord.compare m n :=
  (field_twoDigits hm).compare_eq (field_twoDigits hn)

/-- **Times are in the order of their displays.** -/
theorem compare_render {a b : TimeOfDay} (ha : a.Valid) (hb : b.Valid) :
    a.compare b = Ord.compare a.render b.render := by
  obtain ⟨hourA, minuteA, secondA⟩ := ha
  obtain ⟨hourB, minuteB, secondB⟩ := hb
  have length : ∀ {m n : Nat}, m < 100 → n < 100 → (twoDigits m).length = (twoDigits n).length := fun hm hn =>
    (field_twoDigits hm).length.trans (field_twoDigits hn).length.symm
  have hours : a.hour < 100 ∧ b.hour < 100 := by omega
  have minutes : a.minute < 100 ∧ b.minute < 100 := by omega
  rw [render, render, List.append_assoc, List.append_assoc, Decimal.compare_append (length hours.1 hours.2),
    List.cons_append, List.cons_append, compare_behind, Decimal.compare_append (length minutes.1 minutes.2),
    compare_behind, compare_twoDigits hours.1 hours.2, compare_twoDigits minutes.1 minutes.2,
    compare_twoDigits (by omega) (by omega)]
  rfl

theorem form_iff : Form t ↔ ∃ time : TimeOfDay, time.Valid ∧ t = time.render := by
  constructor
  · rintro ⟨h, m, s, hour, minute, second, hh, hm, hs, h24, m60, s60, rfl⟩
    refine ⟨⟨hour, minute, second⟩, ⟨h24, m60, s60⟩, ?_⟩
    rw [((Decimal.field_iff (by decide)).mp hh).2, ((Decimal.field_iff (by decide)).mp hm).2,
      ((Decimal.field_iff (by decide)).mp hs).2, render, List.append_assoc]
    rfl
  · rintro ⟨time, valid, rfl⟩
    obtain ⟨h24, m60, s60⟩ := id valid
    exact ⟨_, _, _, _, _, _, field_twoDigits (by omega), field_twoDigits (by omega), field_twoDigits (by omega), h24,
      m60, s60, by rw [render, List.append_assoc]; rfl⟩

end TimeOfDay

/-! ## Dates -/

/-- The leap years of the Gregorian calendar. -/
def LeapYear (year : Int) : Prop := (4 ∣ year ∧ ¬ 100 ∣ year) ∨ 400 ∣ year

/-- The days of the Gregorian calendar. -/
def Gregorian (year : Int) (month day : Nat) : Prop :=
  1 ≤ day ∧ (((month = 4 ∨ month = 6 ∨ month = 9 ∨ month = 11) ∧ day ≤ 30) ∨
    (month = 2 ∧ (day ≤ 28 ∨ (day = 29 ∧ LeapYear year))) ∨
    ((month = 1 ∨ month = 3 ∨ month = 5 ∨ month = 7 ∨ month = 8 ∨ month = 10 ∨ month = 12) ∧ day ≤ 31))

namespace Date

variable {t : List Char} {d : Date}

theorem isLeapYear_iff (year : Int) : isLeapYear year = true ↔ LeapYear year := by
  simp only [isLeapYear, LeapYear, Bool.or_eq_true, Bool.and_eq_true, beq_iff_eq, bne_iff_ne]
  omega

theorem daysInMonth_eq (year : Int) (month : Nat) : daysInMonth year month =
    if month = 4 ∨ month = 6 ∨ month = 9 ∨ month = 11 then 30
    else if month = 2 then (if isLeapYear year then 29 else 28)
    else if 1 ≤ month ∧ month ≤ 12 then 31 else 0 := by
  match month with
  | 0 | 1 | 2 | 3 | 4 | 5 | 6 | 7 | 8 | 9 | 10 | 11 | 12 => rfl
  | n + 13 =>
    show 0 = _
    split_ifs <;> omega

/-- **The days that exist are those of the Gregorian calendar.** -/
theorem dayExists_iff : d.DayExists ↔ Gregorian d.year d.month d.day := by
  have leap := isLeapYear_iff d.year
  unfold DayExists Gregorian
  rw [daysInMonth_eq]
  by_cases even : LeapYear d.year
  · simp only [leap.mpr even, even, and_true, if_true]
    split_ifs <;> omega
  · have common : isLeapYear d.year = false := Bool.eq_false_iff.mpr fun h => even (leap.mp h)
    simp only [common, even, and_false, or_false, Bool.false_eq_true, if_false]
    split_ifs <;> omega

/-- The days of the calendar in the years that have four digits, with a time of the day
or none. -/
structure Writable (d : Date) : Prop where
  year : 0 ≤ d.year ∧ d.year ≤ 9999
  day : Gregorian d.year d.month d.day
  time : ∀ t ∈ d.time, t.Valid

/-- The texts `YYYY-MM-DD` of the days of the calendar. -/
def DayForm (t : List Char) : Prop :=
  ∃ y m d year month day, Field 4 y year ∧ Field 2 m month ∧ Field 2 d day ∧ Gregorian year month day ∧
    t = y ++ '-' :: (m ++ '-' :: d)

/-- The texts of days, with a time behind a space or none. -/
def Form (t : List Char) : Prop := DayForm t ∨ ∃ u v, DayForm u ∧ TimeOfDay.Form v ∧ t = u ++ ' ' :: v

/-- What the display of a date says of the day. -/
def renderDay (d : Date) : List Char :=
  renderYear d.year ++ '-' :: (TimeOfDay.twoDigits d.month ++ '-' :: TimeOfDay.twoDigits d.day)

/-- What the display of a date says of the time. -/
def renderTime : Option TimeOfDay → List Char
  | none => []
  | some time => ' ' :: time.render

theorem render_eq (d : Date) : d.render = d.renderDay ++ renderTime d.time := by
  unfold render renderDay renderTime
  cases d.time <;> simp

theorem renderYear_of_nonneg {year : Int} (h : 0 ≤ year) :
    renderYear year = Decimal.padZeros 4 (Decimal.digits year.natAbs) := by
  rw [renderYear, if_neg (by omega)]

/-! The fields of a date that has a text. -/

theorem Writable.bounds (h : d.Writable) : d.month < 100 ∧ d.day < 100 := by
  obtain ⟨-, days | ⟨month, days⟩ | days⟩ := h.day
  · omega
  · omega
  · omega

theorem Writable.field_year (h : d.Writable) : Field 4 (renderYear d.year) d.year.natAbs := by
  obtain ⟨low, high⟩ := h.year
  rw [renderYear_of_nonneg low, Decimal.field_iff (by decide)]
  exact ⟨by omega, rfl⟩

theorem Writable.field_month (h : d.Writable) : Field 2 (TimeOfDay.twoDigits d.month) d.month :=
  TimeOfDay.field_twoDigits h.bounds.1

theorem Writable.field_day (h : d.Writable) : Field 2 (TimeOfDay.twoDigits d.day) d.day :=
  TimeOfDay.field_twoDigits h.bounds.2

theorem readTime?_eq_some {time : Option TimeOfDay} :
    readTime? t = some time ↔ (∀ s ∈ time, s.Valid) ∧ t = renderTime time := by
  constructor
  · intro h
    unfold readTime? at h
    split at h
    · cases h
      exact ⟨by simp, rfl⟩
    · obtain ⟨s, read, rfl⟩ := Option.map_eq_some_iff.mp h
      obtain ⟨valid, rfl⟩ := TimeOfDay.read?_eq_some.mp read
      exact ⟨by simpa using valid, rfl⟩
    · cases h
  · rintro ⟨valid, rfl⟩
    cases time with
    | none => rfl
    | some s => exact Option.map_eq_some_iff.mpr ⟨s, TimeOfDay.read?_eq_some.mpr ⟨valid s rfl, rfl⟩, rfl⟩

/-- **A date has one text, its display.** -/
theorem read?_eq_some : read? t = some d ↔ d.Writable ∧ t = d.render := by
  constructor
  · intro h
    unfold read? at h
    split at h
    · next y1 y2 y3 y4 m1 m2 d1 d2 rest =>
      simp only [Option.bind_eq_bind, Option.bind_eq_some_iff, TimeOfDay.readNat?_pair] at h
      obtain ⟨year, hy, month, ⟨-, hm⟩, day, ⟨-, hd⟩, h⟩ := h
      have field : Field 4 [y1, y2, y3, y4] year := ⟨rfl, Decimal.readNat?_eq_some.mp hy⟩
      obtain ⟨small, hy⟩ := (Decimal.field_iff (by decide)).mp field
      split at h
      · next exists_ =>
        obtain ⟨time, read, same⟩ := Option.bind_eq_some_iff.mp h
        cases same
        obtain ⟨valid, rfl⟩ := readTime?_eq_some.mp read
        refine ⟨⟨⟨by simp, by simp; omega⟩, dayExists_iff.mp exists_, valid⟩, ?_⟩
        rw [render_eq]
        simp only [renderDay, renderYear_of_nonneg (Int.natCast_nonneg year), Int.natAbs_natCast, ← hy, ← hm, ← hd]
        rfl
      · cases h
    · cases h
  · rintro ⟨writable, rfl⟩
    obtain ⟨y1, y2, y3, y4, hy⟩ := List.length_eq_four.mp writable.field_year.length
    obtain ⟨m1, m2, hm⟩ := List.length_eq_two.mp writable.field_month.length
    obtain ⟨d1, d2, hd⟩ := List.length_eq_two.mp writable.field_day.length
    have year : Decimal.readNat? [y1, y2, y3, y4] = some d.year.natAbs :=
      Decimal.readNat?_eq_some.mpr (hy ▸ writable.field_year.writes)
    have month : Decimal.readNat? [m1, m2] = some d.month :=
      Decimal.readNat?_eq_some.mpr (hm ▸ writable.field_month.writes)
    have day : Decimal.readNat? [d1, d2] = some d.day :=
      Decimal.readNat?_eq_some.mpr (hd ▸ writable.field_day.writes)
    have time : readTime? (renderTime d.time) = some d.time := readTime?_eq_some.mpr ⟨writable.time, rfl⟩
    have sameYear : (d.year.natAbs : Int) = d.year := Int.natAbs_of_nonneg writable.year.1
    rw [render_eq, renderDay, hy, hm, hd]
    show (do
      let year ← Decimal.readNat? [y1, y2, y3, y4]
      let month ← Decimal.readNat? [m1, m2]
      let day ← Decimal.readNat? [d1, d2]
      let date : Date := { year := year, month := month, day := day }
      if date.DayExists then do
        let time ← readTime? (renderTime d.time)
        some { date with time := time }
      else none) = some d
    simp only [year, month, day, time, Option.bind_eq_bind, Option.bind_some, sameYear]
    exact if_pos (dayExists_iff.mpr writable.day)

/-- A day is told by the first fields. -/
theorem dayForm_iff : DayForm t ↔ ∃ d : Date, d.Writable ∧ d.time = none ∧ t = d.renderDay := by
  constructor
  · rintro ⟨y, m, d, year, month, day, hy, hm, hd, exists_, rfl⟩
    obtain ⟨small, rfl⟩ := (Decimal.field_iff (by decide)).mp hy
    refine ⟨{ year := year, month := month, day := day }, ⟨⟨by simp, by simp; omega⟩, exists_, by simp⟩, rfl, ?_⟩
    rw [((Decimal.field_iff (by decide)).mp hm).2, ((Decimal.field_iff (by decide)).mp hd).2, renderDay,
      renderYear_of_nonneg (Int.natCast_nonneg year), Int.natAbs_natCast]
    rfl
  · rintro ⟨d, writable, -, rfl⟩
    refine ⟨_, _, _, _, _, _, writable.field_year, writable.field_month, writable.field_day, ?_, rfl⟩
    rw [Int.natAbs_of_nonneg writable.year.1]
    exact writable.day

theorem form_iff : Form t ↔ ∃ d : Date, d.Writable ∧ t = d.render := by
  constructor
  · rintro (day | ⟨u, v, day, clock, rfl⟩)
    · obtain ⟨d, writable, none, rfl⟩ := dayForm_iff.mp day
      exact ⟨d, writable, by rw [render_eq, none, renderTime, List.append_nil]⟩
    · obtain ⟨d, writable, -, rfl⟩ := dayForm_iff.mp day
      obtain ⟨time, valid, rfl⟩ := TimeOfDay.form_iff.mp clock
      exact ⟨{ d with time := some time }, ⟨writable.year, writable.day, by simpa using valid⟩, by
        rw [render_eq]; rfl⟩
  · rintro ⟨d, writable, rfl⟩
    have day : DayForm d.renderDay :=
      dayForm_iff.mpr ⟨{ d with time := none }, ⟨writable.year, writable.day, by simp⟩, rfl, rfl⟩
    rw [render_eq]
    cases clock : d.time with
    | none => exact .inl (by simpa [renderTime] using day)
    | some time =>
      exact .inr ⟨_, _, day, TimeOfDay.form_iff.mpr ⟨time, writable.time time clock, rfl⟩, rfl⟩

/-! ## Order -/

theorem compare_year {y z : Int} (hy : 0 ≤ y) (hz : 0 ≤ z) : Ord.compare y z = Ord.compare y.natAbs z.natAbs := by
  obtain ⟨m, rfl⟩ := Int.eq_ofNat_of_zero_le hy
  obtain ⟨n, rfl⟩ := Int.eq_ofNat_of_zero_le hz
  exact Operator.compare_natCast m n

/-- The times of two dates are in the order of what is written behind the days. -/
theorem compare_eq {a b : Date} (ha : ∀ s ∈ a.time, s.Valid) (hb : ∀ s ∈ b.time, s.Valid) :
    a.compare b = (Ord.compare a.year b.year).then ((Ord.compare a.month b.month).then
      ((Ord.compare a.day b.day).then (Ord.compare (renderTime a.time) (renderTime b.time)))) := by
  unfold compare
  cases first : a.time with
  | none => cases second : b.time <;> rfl
  | some s =>
    cases second : b.time with
    | none => rfl
    | some t =>
      have times : Ord.compare (renderTime (some s)) (renderTime (some t)) = s.compare t := by
        rw [renderTime, renderTime, compare_behind]
        exact (TimeOfDay.compare_render (ha s first) (hb t second)).symm
      dsimp only
      rw [times]

/-- **Dates are in the order of their displays.** -/
theorem compare_render {a b : Date} (ha : a.Writable) (hb : b.Writable) :
    a.compare b = Ord.compare a.render b.render := by
  have length : ∀ {width m n : Nat} {s u : List Char}, Field width s m → Field width u n → s.length = u.length :=
    fun hs hu => hs.length.trans hu.length.symm
  have day : Ord.compare a.renderDay b.renderDay =
      (Ord.compare a.year b.year).then ((Ord.compare a.month b.month).then (Ord.compare a.day b.day)) := by
    rw [renderDay, renderDay, Decimal.compare_append (length ha.field_year hb.field_year), compare_behind,
      Decimal.compare_append (length ha.field_month hb.field_month), compare_behind,
      ha.field_year.compare_eq hb.field_year, ha.field_month.compare_eq hb.field_month,
      ha.field_day.compare_eq hb.field_day, compare_year ha.year.1 hb.year.1]
  have same : a.renderDay.length = b.renderDay.length := by
    simp only [renderDay, List.length_append, List.length_cons, ha.field_year.length, hb.field_year.length,
      ha.field_month.length, hb.field_month.length, ha.field_day.length, hb.field_day.length]
  rw [render_eq, render_eq, Decimal.compare_append same, day, compare_eq ha.time hb.time, Ordering.then_assoc,
    Ordering.then_assoc]

end Date

/-! ## Main statement -/

/-- A way to write values as texts that is exact and keeps their order: the texts that
are read are those of a form, each is the text of what is read from it, the valid
values are read back from their texts, and the order of two of them is that of their
texts, character by character. -/
structure OrderedCode {α : Type} (read : String → Except ConversionError α) (write : α → String)
    (Form : List Char → Prop) (Valid : α → Prop) (order : α → α → Ordering) : Prop where
  accepts : ∀ s, (∃ a, read s = .ok a) ↔ Form s.toList
  canonical : ∀ s a, read s = .ok a → Valid a ∧ write a = s
  reads : ∀ a, Valid a → read (write a) = .ok a
  ordered : ∀ a b, Valid a → Valid b → order a b = compare (write a) (write b)

/-- A reader that accepts exactly the displays. -/
theorem orderedCode_of_render {α : Type} {read? : List Char → Option α} {render : α → List Char}
    {read : String → Except ConversionError α} {Form : List Char → Prop} {Valid : α → Prop} {order : α → α → Ordering}
    (ofText : ∀ s a, read s = .ok a ↔ read? s.toList = some a)
    (exact : ∀ t a, read? t = some a ↔ Valid a ∧ t = render a) (form : ∀ t, Form t ↔ ∃ a, Valid a ∧ t = render a)
    (ordered : ∀ a b, Valid a → Valid b → order a b = compare (render a) (render b)) :
    OrderedCode read (fun a => String.ofList (render a)) Form Valid order where
  accepts s := by simp only [ofText, exact, form]
  canonical s a h := by
    obtain ⟨valid, text⟩ := (exact _ _).mp ((ofText s a).mp h)
    exact ⟨valid, by rw [← text, String.ofList_toList]⟩
  reads a valid := (ofText _ a).mpr ((exact _ _).mpr ⟨valid, String.toList_ofList⟩)
  ordered a b ha hb := by rw [ordered a b ha hb, compare_ofList]

theorem orExpected_eq_ok {α : Type} {found : Option α} {text target hint : String} {a : α} :
    orExpected found text target hint = .ok a ↔ found = some a := by
  unfold orExpected
  cases found <;> simp

/-- **The texts of dates and of times are an exact code that keeps the order**, and a date
without a time comes before the same date with one. -/
theorem moments_orderedCode :
    OrderedCode Date.ofText (fun d => (Value.date d).display) Date.Form Date.Writable Date.compare ∧
    OrderedCode TimeOfDay.ofText (fun t => (Value.time t).display) TimeOfDay.Form TimeOfDay.Valid TimeOfDay.compare ∧
    ∀ (d : Date) (t : TimeOfDay), Date.compare { d with time := none } { d with time := some t } = .lt := by
  refine ⟨?_, ?_, ?_⟩
  · exact orderedCode_of_render (fun _ _ => orExpected_eq_ok) (fun _ _ => Date.read?_eq_some) (fun _ => Date.form_iff)
      fun _ _ => Date.compare_render
  · exact orderedCode_of_render (fun _ _ => orExpected_eq_ok) (fun _ _ => TimeOfDay.read?_eq_some)
      (fun _ => TimeOfDay.form_iff) fun _ _ => TimeOfDay.compare_render
  · intro d t
    have same : ∀ n : Nat, Ord.compare n n = .eq := fun _ => Std.ReflCmp.compare_self
    have sameYear : Ord.compare d.year d.year = .eq := Std.ReflCmp.compare_self
    simp only [Date.compare, same, sameYear, Ordering.eq_then]

end Guion
