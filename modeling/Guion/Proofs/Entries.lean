/-
Maps in ascending order of their names.

`Ascending` is what makes a list of entries a map: every name stands once.
`insert` and `erase` keep it, a name that was erased is gone, and a map that
is read entry by entry, from the front or from the back, comes out as it is
(`ofList_eq`, `insert_last`). What is read like this is a map in any case
(`ascending_ofList`). Of two maps, one over the other, the upper one
is read first (`get?_override`).
-/
import Guion.Entries

namespace Guion.Entries

variable {α : Type u} {β : Type v}

/-- The names ascend. -/
def Ascending (entries : Entries α) : Prop := entries.Pairwise (·.1 < ·.1)

instance (entries : Entries α) : Decidable (Ascending entries) :=
  inferInstanceAs (Decidable (List.Pairwise _ _))

theorem contains_eq_false {name : String} {entries : Entries α} :
    contains name entries = false ↔ get? name entries = none := by
  rw [contains, Option.isSome_eq_false_iff, Option.isNone_iff_eq_none]

theorem get?_eq_none_of_lt {name : String} {entries : Entries α} (h : ∀ entry ∈ entries, name < entry.1) :
    get? name entries = none := by
  induction entries with
  | nil => rfl
  | cons entry rest ih =>
    have hne : entry.1 ≠ name := fun he => String.lt_irrefl name (by simpa [he] using h entry)
    rw [get?, if_neg hne]
    exact ih fun e he => h e (List.mem_cons_of_mem _ he)

theorem mem_of_get? {name : String} {value : α} {entries : Entries α} (h : get? name entries = some value) :
    (name, value) ∈ entries := by
  induction entries with
  | nil => cases h
  | cons entry rest ih =>
    rw [get?] at h
    split at h
    · next hk => cases h; exact hk ▸ List.mem_cons_self
    · exact List.mem_cons_of_mem _ (ih h)

theorem mem_keys_iff {name : String} {entries : Entries α} :
    name ∈ entries.map Prod.fst ↔ contains name entries = true := by
  induction entries with
  | nil => simp [contains, get?]
  | cons entry rest ih =>
    rw [List.map_cons, List.mem_cons, ih, contains, contains, get?]
    split
    · next same => simp [same]
    · next other => simp [Ne.symm other]

/-! ## Erasing -/

theorem get?_erase_of_ne {name other : String} (h : other ≠ name) (entries : Entries α) :
    get? other (erase name entries) = get? other entries := by
  induction entries with
  | nil => rfl
  | cons entry rest ih =>
    rw [erase]
    split
    · next hk => rw [get?, if_neg (by rw [hk]; exact h.symm)]
    · rw [get?, get?, ih]

theorem get?_erase_self {name : String} {entries : Entries α} (h : Ascending entries) :
    get? name (erase name entries) = none := by
  induction entries with
  | nil => rfl
  | cons entry rest ih =>
    obtain ⟨above, h⟩ := List.pairwise_cons.mp h
    rw [erase]
    split
    · next hk => exact get?_eq_none_of_lt (hk ▸ above)
    · next hk => rw [get?, if_neg hk]; exact ih h

theorem mem_of_mem_erase {name : String} {entries : Entries α} {e : String × α}
    (he : e ∈ erase name entries) : e ∈ entries := by
  induction entries with
  | nil => exact he
  | cons entry rest ih =>
    rw [erase] at he
    split at he
    · exact List.mem_cons_of_mem _ he
    · obtain rfl | he := List.mem_cons.mp he
      · exact List.mem_cons_self
      · exact List.mem_cons_of_mem _ (ih he)

theorem Ascending.erase {entries : Entries α} (h : Ascending entries) (name : String) :
    Ascending (erase name entries) := by
  induction entries with
  | nil => exact h
  | cons entry rest ih =>
    obtain ⟨above, h⟩ := List.pairwise_cons.mp h
    rw [Entries.erase]
    split
    · exact h
    · exact List.pairwise_cons.mpr ⟨fun e he => above e (mem_of_mem_erase he), ih h⟩

/-! ## Inserting -/

theorem mem_of_mem_insert {name : String} {value : α} {entries : Entries α} {e : String × α}
    (he : e ∈ insert name value entries) : e = (name, value) ∨ e ∈ entries := by
  induction entries with
  | nil => exact .inl (List.mem_singleton.mp he)
  | cons entry rest ih =>
    rw [insert] at he
    split at he
    · obtain he | he := List.mem_cons.mp he
      · exact .inl he
      · exact .inr (List.mem_cons_of_mem _ he)
    split at he
    · exact List.mem_cons.mp he
    · obtain he | he := List.mem_cons.mp he
      · exact .inr (he ▸ List.mem_cons_self)
      · exact (ih he).imp_right (List.mem_cons_of_mem _)

theorem Ascending.insert {entries : Entries α} (h : Ascending entries) (name : String) (value : α) :
    Ascending (insert name value entries) := by
  induction entries with
  | nil => exact List.pairwise_singleton _ _
  | cons entry rest ih =>
    obtain ⟨above, hr⟩ := List.pairwise_cons.mp h
    rw [Entries.insert]
    split
    · next hk => exact List.pairwise_cons.mpr ⟨fun e he => hk ▸ above e he, hr⟩
    split
    · next hlt =>
      refine List.pairwise_cons.mpr ⟨fun e he => ?_, h⟩
      obtain rfl | he := List.mem_cons.mp he
      · exact hlt
      · exact String.lt_trans hlt (above e he)
    · next hk hlt =>
      refine List.pairwise_cons.mpr ⟨fun e he => ?_, ih hr⟩
      obtain rfl | he := mem_of_mem_insert he
      · exact Std.lt_of_le_of_ne (String.not_lt.mp hlt) hk
      · exact above e he

theorem contains_insert {name other : String} {value : α} {entries : Entries α} :
    contains other (insert name value entries) = true ↔ contains other entries = true ∨ other = name := by
  by_cases same : other = name
  · subst same
    simp [contains]
  · simp [contains, get?_insert_of_ne same, same]

/-- Of two values put under a name the second one counts. -/
theorem insert_insert_self (name : String) (value value' : α) (entries : Entries α) :
    insert name value' (insert name value entries) = insert name value' entries := by
  induction entries with
  | nil => simp [insert]
  | cons entry rest ih =>
    simp only [insert]
    split
    · simp [insert]
    split
    · simp [insert]
    · next unequal unordered => rw [insert, if_neg unequal, if_neg unordered, ih]

/-- A name behind all others goes to the end. -/
theorem insert_last {name : String} {value : α} {entries : Entries α} (h : ∀ entry ∈ entries, entry.1 < name) :
    insert name value entries = entries ++ [(name, value)] := by
  induction entries with
  | nil => rfl
  | cons entry rest ih =>
    have hlt := h entry List.mem_cons_self
    rw [insert, if_neg (fun he => String.lt_irrefl name (by rwa [he] at hlt)), if_neg (String.lt_asymm hlt),
      ih fun e he => h e (List.mem_cons_of_mem _ he)]
    rfl

/-- A list of entries that is a map already. -/
theorem ofList_eq {entries : Entries α} (h : Ascending entries) : ofList entries = entries := by
  induction entries with
  | nil => rfl
  | cons entry rest ih =>
    obtain ⟨above, h⟩ := List.pairwise_cons.mp h
    rw [ofList, ih h]
    cases rest with
    | nil => rfl
    | cons next rest =>
      have hlt := above next List.mem_cons_self
      rw [insertNew, if_neg (fun he => String.lt_irrefl entry.1 (by rwa [he] at hlt)), if_pos hlt]

theorem mem_of_mem_insertNew {name : String} {value : α} {entries : Entries α} {e : String × α}
    (he : e ∈ insertNew name value entries) : e = (name, value) ∨ e ∈ entries := by
  induction entries with
  | nil => exact .inl (List.mem_singleton.mp he)
  | cons entry rest ih =>
    rw [insertNew] at he
    split at he
    · exact .inr he
    split at he
    · exact List.mem_cons.mp he
    · obtain rfl | he := List.mem_cons.mp he
      · exact .inr List.mem_cons_self
      · exact (ih he).imp_right (List.mem_cons_of_mem _)

theorem Ascending.insertNew {entries : Entries α} (h : Ascending entries) (name : String) (value : α) :
    Ascending (insertNew name value entries) := by
  induction entries with
  | nil => exact List.pairwise_singleton _ _
  | cons entry rest ih =>
    obtain ⟨above, hr⟩ := List.pairwise_cons.mp h
    rw [Entries.insertNew]
    split
    · exact h
    split
    · next hlt =>
      refine List.pairwise_cons.mpr ⟨fun e he => ?_, h⟩
      obtain rfl | he := List.mem_cons.mp he
      · exact hlt
      · exact String.lt_trans hlt (above e he)
    · next hk hlt =>
      refine List.pairwise_cons.mpr ⟨fun e he => ?_, ih hr⟩
      obtain rfl | he := mem_of_mem_insertNew he
      · exact Std.lt_of_le_of_ne (String.not_lt.mp hlt) hk
      · exact above e he

/-- Whatever the list was, it becomes a map. -/
theorem ascending_ofList (entries : List (String × α)) : Ascending (ofList entries) := by
  induction entries with
  | nil => exact .nil
  | cons entry rest ih => exact ih.insertNew entry.1 entry.2

theorem mem_of_mem_ofList {entries : List (String × α)} {e : String × α} (he : e ∈ ofList entries) : e ∈ entries := by
  induction entries with
  | nil => exact he
  | cons entry rest ih =>
    obtain rfl | he := mem_of_mem_insertNew he
    · exact List.mem_cons_self
    · exact List.mem_cons_of_mem _ (ih he)

theorem contains_insertNew (name key : String) (value : α) (entries : Entries α) :
    contains name (insertNew key value entries) = (key == name || contains name entries) := by
  induction entries with
  | nil => by_cases h : key = name <;> simp [insertNew, contains, get?, h]
  | cons entry rest ih =>
    have unfolded : ∀ rest : Entries α, contains name (entry :: rest) = (entry.1 == name || contains name rest) := by
      intro rest
      by_cases h : entry.1 = name <;> simp [contains, get?, h]
    rw [insertNew]
    split
    · next hk => rw [unfolded, hk, ← Bool.or_assoc, Bool.or_self]
    split
    · by_cases h : key = name <;> simp [contains, get?, h]
    · rw [unfolded, ih, unfolded, Bool.or_left_comm]

/-- The names of a map are those of the list that it was made of. -/
theorem contains_ofList (name : String) (entries : List (String × α)) :
    contains name (ofList entries) = entries.any (·.1 == name) := by
  induction entries with
  | nil => rfl
  | cons entry rest ih => rw [ofList, contains_insertNew, ih, List.any_cons]

/-- A name that always stands for the same value in the list. -/
theorem get?_ofList {name : String} {value : α} {entries : List (String × α)} (listed : (name, value) ∈ entries)
    (only : ∀ e ∈ entries, e.1 = name → e.2 = value) : get? name (ofList entries) = some value := by
  have found : contains name (ofList entries) = true := by
    rw [contains_ofList]
    exact List.any_eq_true.mpr ⟨_, listed, beq_self_eq_true name⟩
  obtain ⟨other, h⟩ := Option.isSome_iff_exists.mp found
  obtain rfl : other = value := only _ (mem_of_mem_ofList (mem_of_get? h)) rfl
  exact h

/-- Whether a list is a map is a matter of its names. -/
theorem Ascending.of_names {entries : Entries α} {others : Entries β} (h : Ascending entries)
    (same : others.map (·.1) = entries.map (·.1)) : Ascending others := by
  have names : (others.map (·.1)).Pairwise (· < ·) := same ▸ List.pairwise_map.mpr h
  exact List.pairwise_map.mp names

/-! ## One map over another -/

theorem mem_of_mem_override {below above : Entries α} {e : String × α} (he : e ∈ override below above) :
    e ∈ below ∨ e ∈ above := by
  induction above generalizing below with
  | nil => exact .inl he
  | cons entry rest ih =>
    obtain he | he := ih he
    · obtain rfl | he := mem_of_mem_insert he
      · exact .inr List.mem_cons_self
      · exact .inl he
    · exact .inr (List.mem_cons_of_mem _ he)

theorem Ascending.override {below : Entries α} (h : Ascending below) (above : Entries α) :
    Ascending (override below above) := by
  induction above generalizing below with
  | nil => exact h
  | cons entry rest ih => exact ih (h.insert entry.1 entry.2)

/-- The map above comes first. -/
theorem get?_override (name : String) (below : Entries α) {above : Entries α} (h : Ascending above) :
    get? name (override below above) = (get? name above).or (get? name below) := by
  induction above generalizing below with
  | nil => rfl
  | cons entry rest ih =>
    obtain ⟨above, hr⟩ := List.pairwise_cons.mp h
    show get? name (override (insert entry.1 entry.2 below) rest) = _
    rw [ih _ hr, get?]
    by_cases hk : entry.1 = name
    · subst hk
      rw [if_pos rfl, get?_eq_none_of_lt above, get?_insert_self]
      rfl
    · rw [if_neg hk, get?_insert_of_ne (Ne.symm hk)]

/-! ## Values -/

theorem get?_mapValues (f : α → β) (name : String) (entries : Entries α) :
    get? name (mapValues f entries) = (get? name entries).map f := by
  induction entries with
  | nil => rfl
  | cons entry rest ih =>
    show (if entry.1 = name then some (f entry.2) else get? name (mapValues f rest)) = _
    rw [ih, get?]
    split <;> rfl

theorem mapValues_insert (f : α → β) (name : String) (value : α) (entries : Entries α) :
    mapValues f (insert name value entries) = insert name (f value) (mapValues f entries) := by
  induction entries with
  | nil => rfl
  | cons entry rest ih =>
    show mapValues f (insert name value (entry :: rest)) =
      if entry.1 = name then (name, f value) :: mapValues f rest
      else if name < entry.1 then (name, f value) :: (entry.1, f entry.2) :: mapValues f rest
      else (entry.1, f entry.2) :: insert name (f value) (mapValues f rest)
    rw [insert, ← ih]
    split
    · rfl
    · split <;> rfl

theorem Ascending.mapValues {entries : Entries α} (h : Ascending entries) (f : α → β) :
    Ascending (mapValues f entries) :=
  List.pairwise_map.mpr h

end Guion.Entries
