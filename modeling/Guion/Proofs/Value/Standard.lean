/-
What is asked of the values of a program.

A `Standard` says what a number, a `texto`, a matrix or a dictionary has to be
like. A value meets it when everything inside it does, at any depth
(`Value.Meets`). The language checks its values where they are coerced to a kind:
a `texto` against its capacity, a matrix against its shape and its cells, a real
read from a text against infinity. So a coercion keeps a standard that asks no
more than these checks, and this is what `Standard.Closed` means.

Two things are left unchecked. A value is written in place inside a collection
without a coercion: the lengths of the rows of a matrix cannot change then, but
its cells can. The loose form of `Meets` leaves the cells out; a value that meets
it and in which all matrices pass a check meets the strict form
(`Meets.of_passes`). And a text is read as a complex number without a check. It is
the only thing that a coercion makes of a value that meets the standard and that
may not meet it (`coerce_meets`), so what a coercion makes `Owes` the standard no
more than a check of its complex numbers.
-/
import Guion.Proofs.Binary64.Finite
import Guion.Proofs.Entries
import Guion.Proofs.Value.Coerced
import Guion.Registry

namespace Guion

/-- What is asked of the parts of a value: `shape` is about the lengths of the
rows of a matrix, `matrix` about its cells. `maps` asks of every dictionary that
it is a map. -/
structure Standard where
  real : Binary64 → Prop
  complex : Complex → Prop
  text : String → Prop
  shape : List Nat → Prop
  matrix : List (List Value) → Prop
  maps : Prop := False

namespace Value

/-- The values of which nothing is asked. -/
def isSimple : Value → Bool
  | .bit _ | .boolean _ | .integer _ | .character _ | .string _ | .date _ | .time _ | .duration _
  | .null | .nullPointer | .namedPointer _ => true
  | _ => false

/-- The value and everything inside it meet the standard; the cells of its
matrices only in the strict form. What an iterator gives meets the strict
form always. -/
inductive Meets (std : Standard) : Bool → Value → Prop
  | simple {strict v} (h : isSimple v = true) : Meets std strict v
  | real {strict x} (h : std.real x) : Meets std strict (.real x)
  | decimal {strict x} (h : std.real x) : Meets std strict (.decimal x)
  | complex {strict z} (h : std.complex z) : Meets std strict (.complex z)
  | text {strict s} (h : std.text s) : Meets std strict (.text s)
  | list {strict items} (h : ∀ v ∈ items, Meets std strict v) : Meets std strict (.list items)
  | matrix {strict rows} (shape : std.shape (rows.map List.length)) (cells : strict = true → std.matrix rows)
      (h : ∀ row ∈ rows, ∀ v ∈ row, Meets std strict v) : Meets std strict (.matrix rows)
  | dictionary {strict} {entries : Entries Value} (ascending : std.maps → entries.Ascending)
      (h : ∀ e ∈ entries, Meets std strict e.2) : Meets std strict (.dictionary entries)
  | valuePointer {strict target} (h : Meets std strict target) : Meets std strict (.valuePointer target)
  | object {strict identity name description contents}
      (h : ∀ pull n v, contents = .stream pull → pull n = .item v → Meets std true v) :
      Meets std strict (.object identity name description contents)

variable {std : Standard} {strict : Bool}

@[simp] theorem meets_real {x : Binary64} : Meets std strict (.real x) ↔ std.real x :=
  ⟨fun h => by cases h with | simple h => cases h | real h => exact h, .real⟩

@[simp] theorem meets_decimal {x : Binary64} : Meets std strict (.decimal x) ↔ std.real x :=
  ⟨fun h => by cases h with | simple h => cases h | decimal h => exact h, .decimal⟩

@[simp] theorem meets_complex {z : Complex} : Meets std strict (.complex z) ↔ std.complex z :=
  ⟨fun h => by cases h with | simple h => cases h | complex h => exact h, .complex⟩

@[simp] theorem meets_text {s : String} : Meets std strict (.text s) ↔ std.text s :=
  ⟨fun h => by cases h with | simple h => cases h | text h => exact h, .text⟩

@[simp] theorem meets_list {items : List Value} :
    Meets std strict (.list items) ↔ ∀ v ∈ items, Meets std strict v :=
  ⟨fun h => by cases h with | simple h => cases h | list h => exact h, .list⟩

@[simp] theorem meets_matrix {rows : List (List Value)} :
    Meets std strict (.matrix rows) ↔ std.shape (rows.map List.length) ∧ (strict = true → std.matrix rows) ∧
      ∀ row ∈ rows, ∀ v ∈ row, Meets std strict v :=
  ⟨fun h => by cases h with | simple h => cases h | matrix hs hm h => exact ⟨hs, hm, h⟩,
    fun h => .matrix h.1 h.2.1 h.2.2⟩

@[simp] theorem meets_dictionary {entries : Entries Value} :
    Meets std strict (.dictionary entries) ↔
      (std.maps → entries.Ascending) ∧ ∀ e ∈ entries, Meets std strict e.2 :=
  ⟨fun h => by cases h with | simple h => cases h | dictionary hm h => exact ⟨hm, h⟩, fun h => .dictionary h.1 h.2⟩

@[simp] theorem meets_valuePointer {target : Value} :
    Meets std strict (.valuePointer target) ↔ Meets std strict target :=
  ⟨fun h => by cases h with | simple h => cases h | valuePointer h => exact h, .valuePointer⟩

theorem Meets.loose {v : Value} (h : Meets std strict v) : Meets std false v := by
  induction h with
  | simple h => exact .simple h
  | real h => exact .real h
  | decimal h => exact .decimal h
  | complex h => exact .complex h
  | text h => exact .text h
  | list _ ih => exact .list ih
  | matrix shape _ _ ih => exact .matrix shape nofun ih
  | dictionary ascending _ ih => exact .dictionary ascending ih
  | valuePointer _ ih => exact .valuePointer ih
  | object h => exact .object h

/-! ## Checks on the parts of a value -/

mutual

/-- Every matrix in the value passes the check, and so does every part that holds no
others. -/
def passes (check : Value → Bool) : Value → Bool
  | .list items => itemsPass check items
  | .matrix rows => check (.matrix rows) && rowsPass check rows
  | .dictionary entries => entriesPass check entries
  | .valuePointer target => passes check target
  | v => check v
termination_by structural v => v

def itemsPass (check : Value → Bool) : List Value → Bool
  | [] => true
  | v :: rest => passes check v && itemsPass check rest
termination_by structural items => items

def rowsPass (check : Value → Bool) : List (List Value) → Bool
  | [] => true
  | row :: rest => itemsPass check row && rowsPass check rest
termination_by structural rows => rows

def entriesPass (check : Value → Bool) : List (String × Value) → Bool
  | [] => true
  | (_, v) :: rest => passes check v && entriesPass check rest
termination_by structural entries => entries

end

variable {check : Value → Bool}

/-- A check of matrices. -/
def onMatrix (check : List (List Value) → Bool) : Value → Bool
  | .matrix rows => check rows
  | _ => true

/-- A check of complex numbers. -/
def onComplex (check : Complex → Bool) : Value → Bool
  | .complex z => check z
  | _ => true

theorem itemsPass_eq_true {items : List Value} :
    itemsPass check items = true ↔ ∀ v ∈ items, passes check v = true := by
  induction items with
  | nil => simp [itemsPass]
  | cons v rest ih => simp [itemsPass, ih]

theorem rowsPass_eq_true {rows : List (List Value)} :
    rowsPass check rows = true ↔ ∀ row ∈ rows, ∀ v ∈ row, passes check v = true := by
  induction rows with
  | nil => simp [rowsPass]
  | cons row rest ih => simp [rowsPass, itemsPass_eq_true, ih]

theorem entriesPass_eq_true {entries : Entries Value} :
    entriesPass check entries = true ↔ ∀ e ∈ entries, passes check e.2 = true := by
  induction entries with
  | nil => simp [entriesPass]
  | cons e rest ih => simp [entriesPass, ih]

/-- Every value passes a check that nothing fails. -/
theorem passes_of_forall (h : ∀ v, check v = true) (v : Value) : v.passes check = true := by
  refine passes.induct (fun v => v.passes check = true) (fun entries => entriesPass check entries = true)
    (fun rows => rowsPass check rows = true) (fun items => itemsPass check items = true)
    (fun _ ih => ih) (fun rows ih => ?matrix) (fun _ ih => ih) (fun _ ih => ih) (fun v _ _ _ _ => ?other) rfl
    (fun _ _ hv hr => ?item) rfl (fun _ _ hv hr => ?row) rfl (fun _ _ _ hv hr => ?entry) v
  case matrix => rw [passes, h, ih, Bool.and_self]
  case item => rw [itemsPass, hv, hr, Bool.and_self]
  case row => rw [rowsPass, hv, hr, Bool.and_self]
  case entry => rw [entriesPass, hv, hr, Bool.and_self]
  case other => cases v <;> simp_all [passes]

/-- A value that meets the loose form, with matrices that pass a check. -/
theorem Meets.of_passes {check : List (List Value) → Bool} (sound : ∀ rows, check rows = true → std.matrix rows)
    {v : Value} (h : Meets std strict v) (hp : v.passes (onMatrix check) = true) : Meets std true v := by
  induction h with
  | simple h => exact .simple h
  | real h => exact .real h
  | decimal h => exact .decimal h
  | complex h => exact .complex h
  | text h => exact .text h
  | list _ ih => exact .list fun v hv => ih v hv (itemsPass_eq_true.mp hp v hv)
  | matrix shape _ _ ih =>
    simp only [passes, Bool.and_eq_true] at hp
    exact .matrix shape (fun _ => sound _ hp.1) fun row hr v hv => ih row hr v hv (rowsPass_eq_true.mp hp.2 row hr v hv)
  | dictionary ascending _ ih => exact .dictionary ascending fun e he => ih e he (entriesPass_eq_true.mp hp e he)
  | valuePointer _ ih => exact .valuePointer (ih hp)
  | object h => exact .object h

/-- A value that meets the standard if its complex numbers pass a check, whatever the
check is: it lets nothing by that does not meet the standard. -/
def Owes (std : Standard) (strict : Bool) (v : Value) : Prop :=
  ∀ check : Complex → Bool, (∀ z, check z = true → std.complex z) → v.passes (onComplex check) = true →
    Meets std strict v

end Value

/-! ## Standards that a coercion keeps -/

namespace Standard

/-- A standard that asks no more than what the language checks. -/
structure Closed (std : Standard) : Prop where
  real : ∀ {x : Binary64}, x.isFinite = true → std.real x
  sign : ∀ {x : Binary64} (negative : Bool), std.real x → std.real (x.withSign negative)
  complex : ∀ {z : Complex}, z.isFinite = true → std.complex z
  negated : ∀ {z : Complex}, std.complex z → std.complex z.neg
  ofReal : ∀ {x : Binary64}, std.real x → std.complex (.ofReal x)
  text : ∀ {s : String}, s.length ≤ textCapacity → std.text s
  trimmed : ∀ {s : String}, std.text s → std.text (String.ofList (Text.trim s.toList))
  shape : ∀ {lengths : List Nat} {width : Nat}, (∀ n ∈ lengths, n = width) → std.shape lengths
  matrix : ∀ {rows : List (List Value)}, (∀ row ∈ rows, ∀ v ∈ row, v.isCell = true) → std.matrix rows

end Standard

namespace Value

variable {std : Standard} (closed : std.Closed) {strict : Bool}

include closed

theorem meets_of_matrixFault? {rows : List (List Value)} (h : matrixFault? rows = none)
    (hv : ∀ row ∈ rows, ∀ v ∈ row, Meets std strict v) : Meets std strict (.matrix rows) := by
  obtain ⟨lengths, cells⟩ := matrixFault?_eq_none h
  have shape : ∀ n ∈ rows.map List.length, n = (rows.head?.map List.length).getD 0 := by
    simpa using lengths
  exact .matrix (closed.shape shape) (fun _ => closed.matrix cells) hv

theorem default_meets (kind : Kind) : Meets std strict (default kind) := by
  cases kind with
  | real => exact .real (closed.real rfl)
  | decimal => exact .decimal (closed.real rfl)
  | text => exact .text (closed.text (by decide))
  | complex => exact .complex (closed.complex rfl)
  | list => exact .list (by simp)
  | matrix => exact meets_of_matrixFault? closed rfl (by simp)
  | dictionary => exact .dictionary (fun _ => .nil) (by simp)
  | _ => exact .simple rfl

omit closed in
/-- The real of a value is that of a number, a truth value, or a text that writes a
finite number. -/
theorem toReal_eq_ok {v : Value} {x : Binary64} (h : v.toReal = .ok x) :
    (∃ i, v = .integer i ∧ x = Number.realOfInteger i) ∨ v = .real x ∨ v = .decimal x ∨
      (∃ b, (v = .bit b ∨ v = .boolean b) ∧ x = if b then .one else .zero false) ∨
      ∃ s, v.asText? = some s ∧ Number.readFinite? (Text.trim s.toList) = some x := by
  unfold toReal at h
  dsimp only at h
  split at h
  · next found =>
    simp only [Except.ok.injEq] at h
    subst h
    split at found
    · exact .inl ⟨_, rfl, (Option.some.inj found).symm⟩
    · exact .inr (.inl (by rw [Option.some.inj found]))
    · exact .inr (.inr (.inl (by rw [Option.some.inj found])))
    · exact .inr (.inr (.inr (.inl ⟨_, .inl rfl, (Option.some.inj found).symm⟩)))
    · exact .inr (.inr (.inr (.inl ⟨_, .inr rfl, (Option.some.inj found).symm⟩)))
    · exact .inr (.inr (.inr (.inr ⟨_, rfl, found⟩)))
    · exact .inr (.inr (.inr (.inr ⟨_, rfl, found⟩)))
    · cases found
  · cases h

theorem toReal_meets {v : Value} {x : Binary64} (hv : Meets std strict v) (h : v.toReal = .ok x) : std.real x := by
  obtain ⟨i, -, rfl⟩ | rfl | rfl | ⟨b, -, rfl⟩ | ⟨s, -, found⟩ := toReal_eq_ok h
  · exact closed.real (Number.isFinite_realOfInteger i)
  · exact meets_real.mp hv
  · exact meets_decimal.mp hv
  · cases b <;> exact closed.real (by simp)
  · exact closed.real (Number.isFinite_of_readFinite? found)

/-! ## Literals -/

theorem readScalar?_meets {source : List Char} {v : Value} (h : readScalar? source = some v) :
    Meets std strict v := by
  unfold readScalar? at h
  split at h <;> try (cases h; exact .simple rfl)
  split at h
  · cases h; exact .simple rfl
  split at h
  · next hx => cases h; exact .real (closed.real (Number.isFinite_of_readFinite? hx))
  · obtain ⟨_, -, rfl⟩ := Option.map_eq_some_iff.mp h
    exact .simple rfl

theorem readLiteralWithin_meets (depth : Nat) (source : List Char) :
    Meets std strict (readLiteralWithin depth source) := by
  induction depth generalizing source with
  | zero => exact .simple rfl
  | succ depth ih =>
    unfold readLiteralWithin
    dsimp only
    split
    · next h => exact readScalar?_meets closed h
    split
    · refine .list fun v hv => ?_
      obtain ⟨piece, -, rfl⟩ := List.mem_map.mp hv
      exact ih piece
    split
    · refine .dictionary (fun _ => Entries.ascending_ofList _) fun e he => ?_
      obtain ⟨piece, -, rfl⟩ := List.mem_map.mp (Entries.mem_of_mem_ofList he)
      exact ih piece.2
    · exact .simple rfl

theorem readLiteral_meets (source : String) : Meets std strict (readLiteral source) :=
  readLiteralWithin_meets closed _ _

/-! ## Coercions -/

omit closed in
theorem listRows?_meets {items : List Value} {rows : List (List Value)} (h : listRows? items = some rows)
    (hv : ∀ v ∈ items, Meets std strict v) : ∀ row ∈ rows, ∀ v ∈ row, Meets std strict v := by
  induction items generalizing rows with
  | nil => cases h; simp
  | cons item rest ih =>
    obtain ⟨hi, hr⟩ := List.forall_mem_cons.mp hv
    cases item with
    | list row =>
      obtain ⟨others, ho, rfl⟩ := Option.map_eq_some_iff.mp h
      exact List.forall_mem_cons.mpr ⟨meets_list.mp hi, ih ho hr⟩
    | _ => cases h

omit closed in
/-- Nothing is asked of the values of these kinds. -/
theorem isSimple_of_kind {v : Value} (hk : v.kind ∈ [.bit, .boolean, .integer, .character, .string, .date, .time,
    .duration]) : isSimple v = true := by
  cases v <;> first | rfl | simp [Value.kind] at hk

/-- **A coercion keeps the standard**, but for a text that is read as a complex
number. -/
theorem coerce_meets {kind : Kind} {v w : Value} (hv : Meets std strict v) (h : coerce kind v = .ok w) :
    Meets std strict w ∨ ∃ s z, v.asText? = some s ∧ Complex.ofText s = .ok z ∧ w = .complex z := by
  by_cases read : ∃ s z, v.asText? = some s ∧ Complex.ofText s = .ok z ∧ w = .complex z
  · exact .inr read
  refine .inl ?_
  have taken (hk : kind = .dictionary ∨ kind = .object ∨ kind = .pointer) : Meets std strict w := by
    obtain rfl | rfl | rfl := coerce_reference_eq_ok hk h
    · exact hv
    · exact .simple rfl
    · exact .simple rfl
  cases kind with
  | bit | boolean | integer | character | string | date | time | duration =>
    refine .simple (isSimple_of_kind ?_)
    rw [coerce_kind h]
    decide
  | real => obtain ⟨x, hx, rfl⟩ := Except.map_eq_ok.mp h; exact .real (toReal_meets closed hv hx)
  | decimal => obtain ⟨x, hx, rfl⟩ := Except.map_eq_ok.mp h; exact .decimal (toReal_meets closed hv hx)
  | text => obtain ⟨rfl, short⟩ := coerce_text_eq_ok h; exact .text (closed.text short)
  | complex =>
    obtain ⟨z, rfl, rfl | ⟨s, hs, hz⟩ | ⟨x, hx, rfl⟩⟩ := coerce_complex_eq_ok h
    · exact hv
    · exact absurd ⟨s, z, hs, hz, rfl⟩ read
    · exact .complex (closed.ofReal (toReal_meets closed hv hx))
  | list =>
    obtain ⟨items, rfl, rfl | ⟨rows, rfl, rfl⟩ | ⟨s, -, hl⟩⟩ := coerce_list_eq_ok h
    · exact hv
    · refine .list fun v hm => ?_
      obtain ⟨row, hr, rfl⟩ := List.mem_map.mp hm
      exact .list ((meets_matrix.mp hv).2.2 row hr)
    · exact hl ▸ readLiteral_meets closed s
  | matrix =>
    obtain ⟨rows, hf, rfl, rfl | ⟨items, hr, rfl | ⟨s, -, hl⟩⟩⟩ := coerce_matrix_eq_ok h
    · exact meets_of_matrixFault? closed hf (meets_matrix.mp hv).2.2
    · exact meets_of_matrixFault? closed hf (listRows?_meets hr (meets_list.mp hv))
    · have literal : Meets std strict (.list items) := hl ▸ readLiteral_meets closed s
      exact meets_of_matrixFault? closed hf (listRows?_meets hr (meets_list.mp literal))
  | dictionary => exact taken (.inl rfl)
  | object => exact taken (.inr (.inl rfl))
  | pointer => exact taken (.inr (.inr rfl))

omit closed in
theorem Meets.owes {v : Value} (h : Meets std strict v) : Owes std strict v := fun _ _ _ => h

omit closed in
theorem owes_complex (z : Complex) : Owes std strict (.complex z) := fun _ sound hp => .complex (sound z hp)

omit closed in
theorem owes_list {items : List Value} (h : ∀ v ∈ items, Owes std strict v) : Owes std strict (.list items) :=
  fun check sound hp => .list fun v hv => h v hv check sound (itemsPass_eq_true.mp hp v hv)

/-- What a coercion makes owes the standard a check of its complex numbers. -/
theorem coerce_owes {kind : Kind} {v w : Value} (hv : Meets std strict v) (h : coerce kind v = .ok w) :
    Owes std strict w := by
  obtain meets | ⟨s, z, -, -, rfl⟩ := coerce_meets closed hv h
  · exact meets.owes
  · exact owes_complex z

/-! ## Constructors -/

theorem coerceItems_owes {element : Kind} {items coerced : List Value} (hv : ∀ v ∈ items, Meets std strict v)
    (h : Registry.coerceItems element items = .ok coerced) : ∀ v ∈ coerced, Owes std strict v := by
  intro v hm
  obtain ⟨w, hw, hc⟩ := Except.of_mem_mapM h hm
  exact coerce_owes closed (hv w hw) hc

theorem coerceParts_owes {element : Kind} {v w : Value} (hv : Meets std strict v)
    (h : Registry.coerceParts element v = .ok w) : Owes std strict w := by
  unfold Registry.coerceParts at h
  split at h
  · obtain ⟨coerced, hc, rfl⟩ := Except.map_eq_ok.mp h
    exact owes_list (coerceItems_owes closed (meets_list.mp hv) hc)
  · next entries =>
    obtain ⟨coerced, hc, rfl⟩ := Except.map_eq_ok.mp h
    obtain ⟨ascending, values⟩ := meets_dictionary.mp hv
    have names : coerced.map (·.1) = entries.map (·.1) := Except.map_mapM hc fun entry entry' he => by
      obtain ⟨value, -, rfl⟩ := Except.map_eq_ok.mp he
      rfl
    intro check sound hp
    refine .dictionary (fun maps => (ascending maps).of_names names) fun e he => ?_
    obtain ⟨entry, hentry, hw⟩ := Except.of_mem_mapM hc he
    obtain ⟨value, hvalue, rfl⟩ := Except.map_eq_ok.mp hw
    exact coerce_owes closed (values entry hentry) hvalue check sound (entriesPass_eq_true.mp hp _ he)
  · split at h
    · next numeric =>
      obtain ⟨coerced, hc, rfl⟩ := Except.map_eq_ok.mp h
      obtain ⟨shape, -, cells⟩ := meets_matrix.mp hv
      have from_row : ∀ row ∈ coerced, ∃ source ∈ _, Registry.coerceItems element source = .ok row :=
        fun row hr => Except.of_mem_mapM hc hr
      have lengths : coerced.map List.length = _ := Except.map_mapM hc fun row row' hr => Except.length_mapM hr
      intro check sound hp
      have parts := rowsPass_eq_true.mp (Bool.and_eq_true_iff.mp hp).2
      refine .matrix (lengths ▸ shape) (fun _ => closed.matrix fun row hr v hm => ?_) fun row hr v hm => ?_
      · obtain ⟨source, -, hs⟩ := from_row row hr
        obtain ⟨cell, -, hcell⟩ := Except.of_mem_mapM hs hm
        exact isCell_of_coerce numeric hcell
      · obtain ⟨source, hsource, hs⟩ := from_row row hr
        exact coerceItems_owes closed (cells source hsource) hs v hm check sound (parts row hr v hm)
    · cases h; exact hv.owes
  · cases h; exact hv.owes

/-- What is made of a value that meets the standard meets it too, or was read from a
text as a complex number. -/
theorem construct_meets {kind : Kind} {initial : Option Value} {v : Value}
    (hi : ∀ w ∈ initial, Meets std strict w) (h : construct kind initial = .ok v) :
    Meets std strict v ∨ ∃ z, v = .complex z := by
  cases initial with
  | none => cases h; exact .inl (default_meets closed kind)
  | some source => exact (coerce_meets closed (hi source rfl) h).imp_right fun ⟨_, z, _, _, hz⟩ => ⟨z, hz⟩

end Value

namespace Registry

/-- Out of values that meet the standard the constructors of a registry make such
values, and complex numbers. -/
def Constructs (std : Standard) (r : Registry) : Prop :=
  ∀ entry ∈ r.constructors, ∀ name initial v, (∀ w ∈ initial, Value.Meets std true w) →
    entry.2 name initial = .ok v → Value.Meets std true v ∨ ∃ z, v = .complex z

variable {std : Standard}

theorem constructs_withBaseTypes (closed : std.Closed) : withBaseTypes.Constructs std := by
  intro entry he name initial v hi h
  obtain ⟨base, -, rfl⟩ := List.mem_map.mp he
  exact Value.construct_meets closed hi h

variable {r : Registry} (made : r.Constructs std) {initial : Option Value}
  (hi : ∀ w ∈ initial, Value.Meets std true w)
include made hi

theorem construct_meets {typeName name : String} {v : Value} (h : r.construct typeName name initial = .ok v) :
    Value.Meets std true v ∨ ∃ z, v = .complex z := by
  unfold construct at h
  split at h
  · cases h
  · next found =>
    exact made _ (Entries.mem_of_get? found) name initial v hi (Except.mapError_eq_ok.mp h)

theorem construct_owes {typeName name : String} {v : Value} (h : r.construct typeName name initial = .ok v) :
    Value.Owes std true v := by
  obtain meets | ⟨z, rfl⟩ := construct_meets made hi h
  · exact meets.owes
  · exact Value.owes_complex z

theorem constructTyped_owes (closed : std.Closed) {spec : TypeSpec} {name : String} {v : Value}
    (h : r.constructTyped spec name initial = .ok v) : Value.Owes std true v := by
  unfold constructTyped at h
  split at h
  · exact construct_owes made hi h
  split at h
  · cases h
  obtain ⟨value, hc, h⟩ := Except.bind_eq_ok.mp h
  have whole := Value.construct_meets closed hi (Except.mapError_eq_ok.mp hc)
  have owes : Value.Owes std true value := by
    obtain meets | ⟨z, rfl⟩ := whole
    · exact meets.owes
    · exact Value.owes_complex z
  split at h
  · cases h; exact owes
  split at h
  · cases h; exact owes
  · have parts := Except.mapError_eq_ok.mp h
    obtain meets | ⟨z, rfl⟩ := whole
    · exact Value.coerceParts_owes closed meets parts
    · cases parts; exact owes

end Registry
end Guion
