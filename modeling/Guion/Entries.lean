/-
Finite maps from names, as lists of entries in ascending order of the names.

`insert` keeps the order and replaces an entry of the same name, so a map
built by insertions is the only list that holds its entries, and two equal
maps are equal lists. `get?` reads the first entry of a name.
-/

namespace Guion

/-- Entries under names, in ascending order of the names. -/
abbrev Entries (α : Type u) := List (String × α)

namespace Entries

variable {α : Type u} {β : Type v}

/-- The value under a name. -/
def get? (name : String) : Entries α → Option α
  | [] => none
  | (key, value) :: rest => if key = name then some value else get? name rest

def contains (name : String) (entries : Entries α) : Bool := (get? name entries).isSome

/-- Puts a value under a name. -/
def insert (name : String) (value : α) : Entries α → Entries α
  | [] => [(name, value)]
  | (key, old) :: rest =>
    if key = name then (name, value) :: rest
    else if name < key then (name, value) :: (key, old) :: rest
    else (key, old) :: insert name value rest

/-- Puts a value under a name unless there is one already. -/
def insertNew (name : String) (value : α) : Entries α → Entries α
  | [] => [(name, value)]
  | (key, old) :: rest =>
    if key = name then (key, old) :: rest
    else if name < key then (name, value) :: (key, old) :: rest
    else (key, old) :: insertNew name value rest

/-- Drops the entry of a name. -/
def erase (name : String) : Entries α → Entries α
  | [] => []
  | (key, value) :: rest =>
    if key = name then rest else (key, value) :: erase name rest

/-- The entries of the second map, over those of the first. -/
def override (below above : Entries α) : Entries α :=
  above.foldl (fun entries (name, value) => insert name value entries) below

/-- The map of a list of entries; of several under one name the last one
counts. -/
def ofList : List (String × α) → Entries α
  | [] => []
  | (name, value) :: rest => insertNew name value (ofList rest)

def names (entries : Entries α) : List String := entries.map (·.1)

def values (entries : Entries α) : List α := entries.map (·.2)

def mapValues (f : α → β) (entries : Entries α) : Entries β :=
  entries.map fun (name, value) => (name, f value)

/-! ## Reading after writing -/

@[simp] theorem get?_insert_self (name : String) (value : α) (entries : Entries α) :
    get? name (insert name value entries) = some value := by
  induction entries with
  | nil => simp [insert, get?]
  | cons entry rest ih =>
    obtain ⟨key, old⟩ := entry
    simp only [insert]
    split
    · simp [get?]
    · split <;> simp_all [get?]

theorem get?_insert_of_ne {name other : String} (h : other ≠ name) (value : α)
    (entries : Entries α) : get? other (insert name value entries) = get? other entries := by
  induction entries with
  | nil => simp [insert, get?, h.symm]
  | cons entry rest ih =>
    obtain ⟨key, old⟩ := entry
    simp only [insert]
    split
    · next hk => subst hk; simp [get?, h.symm]
    · split
      · simp [get?, h.symm]
      · simp [get?, ih]

end Entries
end Guion
