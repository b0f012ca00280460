/-
What a coercion makes of a value, and what it makes of its own results.

A coercion to a kind gives a value of that kind (`coerce_kind`) that keeps to
what the kind asks (`coerce_sound`). Two kinds ask something: a `texto` has a
capacity, and a `matriz` rows of one length with numeric cells. A value that
keeps to it is its own coercion (`coerce_self`), so a second coercion changes
nothing. A value that does not is refused: a coercion to the kind that a value
has gives this value or fails (`coerce_own`).

Where the result can hold something of the value, one lemma a kind says what
(`coerce_list_eq_ok` and its like); for all other kinds the kind of the result
is all there is to say.
-/
import Guion.Proofs.Parse.Lines
import Guion.Value.Coerce

namespace Guion.Value

variable {kind : Kind} {v w : Value}

/-- What the kind of a value asks of it. -/
def Sound : Value → Prop
  | .text s => s.length ≤ textCapacity
  | .matrix rows => (∃ width, ∀ row ∈ rows, row.length = width) ∧ ∀ row ∈ rows, ∀ cell ∈ row, cell.kind.isNumeric = true
  | _ => True

theorem matrixFault?_eq_none {rows : List (List Value)} (h : matrixFault? rows = none) :
    (∀ row ∈ rows, row.length = (rows.head?.map List.length).getD 0) ∧ ∀ row ∈ rows, ∀ v ∈ row, v.isCell = true := by
  unfold matrixFault? at h
  dsimp only at h
  split at h
  · cases h
  next lengths =>
  split at h
  · next cells => exact ⟨by simpa using lengths, by simpa using cells⟩
  · cases h

theorem matrixFault?_eq_none_iff {rows : List (List Value)} : matrixFault? rows = none ↔ Sound (.matrix rows) := by
  constructor
  · intro h
    obtain ⟨lengths, cells⟩ := matrixFault?_eq_none h
    exact ⟨⟨_, lengths⟩, cells⟩
  · rintro ⟨⟨width, lengths⟩, cells⟩
    have even : (rows.any fun row => row.length != (rows.head?.map List.length).getD 0) = false := by
      rw [List.any_eq_false]
      intro row hr
      cases rows with
      | nil => cases hr
      | cons first rest =>
        have head := lengths first List.mem_cons_self
        simp [lengths row hr, head]
    have numeric : (rows.all fun row => row.all isCell) = true := by
      simp only [List.all_eq_true]
      exact cells
    simp only [matrixFault?, even, numeric, Bool.false_eq_true, if_false, if_true]

/-! ## What the result holds of the value -/

/-- The `texto` of a value is its text form, if that is short enough. -/
theorem coerce_text_eq_ok (h : coerce .text v = .ok w) : w = .text v.textForm ∧ v.textForm.length ≤ textCapacity := by
  unfold coerce at h
  dsimp only at h
  split at h
  · cases h
  · next fits => cases h; exact ⟨rfl, Nat.le_of_not_lt fits⟩

/-- The complex number of a value is the value, what its text writes, or its real. -/
theorem coerce_complex_eq_ok (h : coerce .complex v = .ok w) :
    ∃ z, w = .complex z ∧ (v = .complex z ∨ (∃ s, v.asText? = some s ∧ Complex.ofText s = .ok z) ∨
      ∃ x, v.toReal = .ok x ∧ z = .ofReal x) := by
  unfold coerce at h
  dsimp only at h
  split at h
  · cases h; exact ⟨_, rfl, .inl rfl⟩
  · obtain ⟨z, hz, rfl⟩ := Except.map_eq_ok.mp h; exact ⟨z, rfl, .inr (.inl ⟨_, rfl, hz⟩)⟩
  · obtain ⟨z, hz, rfl⟩ := Except.map_eq_ok.mp h; exact ⟨z, rfl, .inr (.inl ⟨_, rfl, hz⟩)⟩
  · split at h
    · next x hx => cases h; exact ⟨_, rfl, .inr (.inr ⟨x, hx, rfl⟩)⟩
    · cases h

/-- The items of a list that a value was coerced to are those of the value, the rows
of the value, or the items that its text writes. -/
theorem coerce_list_eq_ok (h : coerce .list v = .ok w) :
    ∃ items, w = .list items ∧ (v = .list items ∨ (∃ rows, v = .matrix rows ∧ items = rows.map .list) ∨
      ∃ s, v.asText? = some s ∧ readLiteral s = .list items) := by
  cases v with
  | list items => cases h; exact ⟨items, rfl, .inl rfl⟩
  | matrix rows => cases h; exact ⟨_, rfl, .inr (.inl ⟨rows, rfl, rfl⟩)⟩
  | text s | string s =>
    unfold coerce at h
    dsimp only at h
    split at h
    · next items hl => cases h; exact ⟨items, rfl, .inr (.inr ⟨s, rfl, hl⟩)⟩
    · cases h
  | _ => cases h

/-- The rows of a matrix that a value was coerced to are those of the value, of the
lists in it, or of the lists that its text writes. -/
theorem coerce_matrix_eq_ok (h : coerce .matrix v = .ok w) :
    ∃ rows, matrixFault? rows = none ∧ w = .matrix rows ∧ (v = .matrix rows ∨
      ∃ items, listRows? items = some rows ∧
        (v = .list items ∨ ∃ s, v.asText? = some s ∧ readLiteral s = .list items)) := by
  cases v with
  | matrix rows =>
    unfold coerce at h
    dsimp only at h
    split at h
    · cases h
    · next hf => cases h; exact ⟨rows, hf, rfl, .inl rfl⟩
  | list items =>
    unfold coerce at h
    dsimp only at h
    split at h
    · next rows hr =>
      split at h
      · cases h
      · next hf => cases h; exact ⟨rows, hf, rfl, .inr ⟨items, hr, .inl rfl⟩⟩
    · cases h
  | text s | string s =>
    unfold coerce at h
    dsimp only at h
    split at h
    · next items hl =>
      split at h
      · next rows hr =>
        split at h
        · cases h
        · next hf => cases h; exact ⟨rows, hf, rfl, .inr ⟨items, hr, .inr ⟨s, rfl, hl⟩⟩⟩
      · cases h
    · cases h
  | _ => cases h

/-- A dictionary, an object and a pointer are taken as they are; other than these,
only the two forms of `nulo` become one. -/
theorem coerce_reference_eq_ok (hk : kind = .dictionary ∨ kind = .object ∨ kind = .pointer)
    (h : coerce kind v = .ok w) : w = v ∨ w = .null ∨ w = .nullPointer := by
  obtain rfl | rfl | rfl := hk
  · cases v <;> cases h; exact .inl rfl
  · cases v <;> cases h <;> simp
  · cases v <;> cases h <;> simp

/-! ## The kind of the result -/

/-- A value that was coerced to a kind has it. -/
theorem coerce_kind (h : coerce kind v = .ok w) : w.kind = kind := by
  have mapped : ∀ {α : Type} {x : Except ConversionError α} {f : α → Value}, x.map f = .ok w →
      (∀ a, (f a).kind = kind) → w.kind = kind := by
    intro α x f h same
    obtain ⟨a, -, rfl⟩ := Except.map_eq_ok.mp h
    exact same a
  cases kind with
  | integer | real | decimal => exact mapped h fun _ => rfl
  | string => cases h; rfl
  | text => obtain ⟨rfl, -⟩ := coerce_text_eq_ok h; rfl
  | complex => obtain ⟨z, rfl, -⟩ := coerce_complex_eq_ok h; rfl
  | list => obtain ⟨items, rfl, -⟩ := coerce_list_eq_ok h; rfl
  | matrix => obtain ⟨rows, -, rfl, -⟩ := coerce_matrix_eq_ok h; rfl
  | bit | boolean | dictionary | object | pointer =>
    unfold coerce at h
    dsimp only at h
    split at h <;> first | (cases h; rfl) | cases h
  | character =>
    unfold coerce at h
    dsimp only at h
    -- A text is looked at once more: it has to be one character long.
    split at h <;> first
      | (split at h <;> first | (cases h; rfl) | cases h)
      | (cases h; rfl)
      | cases h
  | date =>
    unfold coerce at h
    dsimp only at h
    split at h
    · cases h; rfl
    · exact mapped h fun _ => rfl
    · exact mapped h fun _ => rfl
    · cases h
  | time =>
    unfold coerce at h
    dsimp only at h
    split at h
    · cases h; rfl
    · split at h <;> first | (cases h; rfl) | cases h
    · exact mapped h fun _ => rfl
    · exact mapped h fun _ => rfl
    · cases h
  | duration =>
    unfold coerce at h
    dsimp only at h
    split at h
    · cases h; rfl
    · cases h; rfl
    · exact mapped h fun _ => rfl
    · exact mapped h fun _ => rfl
    · cases h

/-- What was coerced to a numeric kind may be a cell. -/
theorem isCell_of_coerce (hk : kind.isNumeric = true) (h : coerce kind v = .ok w) : w.isCell = true := by
  rw [isCell, coerce_kind h, hk]

/-! ## Coercions of what was coerced -/

/-- **A coerced value keeps to what its kind asks.** -/
theorem coerce_sound (h : coerce kind v = .ok w) : w.Sound := by
  have own := coerce_kind h
  cases w with
  | text s =>
    obtain rfl : kind = .text := own.symm
    obtain ⟨same, fits⟩ := coerce_text_eq_ok h
    cases same
    exact fits
  | matrix rows =>
    obtain rfl : kind = .matrix := own.symm
    obtain ⟨_, faultless, same, -⟩ := coerce_matrix_eq_ok h
    cases same
    exact matrixFault?_eq_none_iff.mp faultless
  | _ => trivial

/-- **A value that keeps to what its kind asks is its own coercion.** -/
theorem coerce_self (h : v.Sound) : coerce v.kind v = .ok v := by
  cases v with
  | text s =>
    have fits : ¬ textCapacity < s.length := Nat.not_lt.mpr h
    show (if textCapacity < s.length then _ else _) = _
    rw [if_neg fits]
    rfl
  | matrix rows =>
    have faultless := matrixFault?_eq_none_iff.mpr h
    simp only [Value.kind, coerce, faultless]
  | _ => rfl

/-- A value that is coerced to its own kind stays as it is, or is refused. -/
theorem coerce_own (h : coerce v.kind v = .ok w) : w = v := by
  suffices sound : v.Sound by
    cases (coerce_self sound).symm.trans h
    rfl
  cases v with
  | text s => exact (coerce_text_eq_ok h).2
  | matrix rows =>
    obtain ⟨_, faultless, -, same | ⟨_, -, source | ⟨_, source, -⟩⟩⟩ := coerce_matrix_eq_ok h
    · cases same; exact matrixFault?_eq_none_iff.mp faultless
    · cases source
    · cases source
  | _ => trivial

end Guion.Value
