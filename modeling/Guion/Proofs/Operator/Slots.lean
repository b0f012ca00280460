/-
What is stored along keys is read along them, and nothing else changes.

In a given container every key leads to a slot: a position of a list, a row of
a matrix, an entry of a dictionary (`Slot.of?`). Keys of any kind that lead to
the same slot are the same to reads and writes. A slot is read by `Slot.get?`
and written by `Slot.put?`, and these two obey the laws of a lens: what is put
is got, other slots keep what they hold, keys lead where they led before, and
of two writes the second one counts.

A read along keys goes from slot to slot (`step_eq_ok`), and so does a write
(`storeAt_eq_ok`): it writes the last slot and, on the way back, each slot that
it came through. A matrix is no exception, although its rows are written
together with their cells: a row is read as a list, and a list of the same
length is put back. So each law is one induction on the slots of a write.
-/
import Guion.Proofs.Operator.Standard

namespace Guion.Operator

/-- A place inside a container. -/
inductive Slot where
  | position (n : Nat)
  | entry (name : String)
  deriving DecidableEq

namespace Slot

/-- The slot of a sequence that an index leads to. -/
def ofIndex? (index : Value) (length : Nat) : Option Slot :=
  match index.toInteger with
  | .ok i => (Number.position? i length).map .position
  | .error _ => none

/-- The slot of a container that a key leads to. -/
def of? : Value → Key → Option Slot
  | .list items, .index i => ofIndex? i items.length
  | .matrix rows, .index i => ofIndex? i rows.length
  | .text s, .index i | .string s, .index i => ofIndex? i s.length
  | .dictionary _, key => some (.entry key.entryName)
  | _, _ => none

/-- What a slot of a container holds. -/
def get? : Value → Slot → Option Value
  | .list items, .position n => items[n]?
  | .matrix rows, .position n => rows[n]?.map .list
  | .text s, .position n | .string s, .position n => (characterFrom s n 0).map .character
  | .dictionary entries, .entry name => Entries.get? name entries
  | _, _ => none

/-- The container with another value in a slot: a position must be there, and a
row must keep its length. -/
def put? : Value → Slot → Value → Option Value
  | .list items, .position n, v => if n < items.length then some (.list (items.set n v)) else none
  | .matrix rows, .position n, .list cells =>
    match rows[n]? with
    | some row => if cells.length = row.length then some (.matrix (rows.set n cells)) else none
    | none => none
  | .dictionary entries, .entry name, v => some (.dictionary (Entries.insert name v entries))
  | _, _, _ => none

/-- What a write does: the cases of `put?`. -/
inductive Put : Value → Slot → Value → Value → Prop
  | list {items n v} (inside : n < items.length) : Put (.list items) (.position n) v (.list (items.set n v))
  | row {rows row n cells} (old : rows[n]? = some row) (same : cells.length = row.length) :
      Put (.matrix rows) (.position n) (.list cells) (.matrix (rows.set n cells))
  | entry {entries name v} : Put (.dictionary entries) (.entry name) v (.dictionary (Entries.insert name v entries))

variable {c c' v w : Value} {slot other : Slot}

theorem put?_eq_some : put? c slot v = some c' ↔ Put c slot v c' := by
  constructor
  · intro h
    unfold put? at h
    split at h
    · split at h
      · next inside => cases h; exact .list inside
      · cases h
    · split at h
      · next old =>
        split at h
        · next same => cases h; exact .row old same
        · cases h
      · cases h
    · cases h; exact .entry
    · cases h
  · intro h
    cases h with
    | list inside => rw [put?, if_pos inside]
    | row old same => simp only [put?, old, same, if_true]
    | entry => rfl

/-! ## The laws of a lens -/

/-- What was put into a slot is what the slot holds. -/
theorem Put.get?_self (h : Put c slot v c') : get? c' slot = some v := by
  cases h with
  | list inside => exact List.getElem?_set_self inside
  | row old same =>
    obtain ⟨inside, -⟩ := List.getElem?_eq_some_iff.mp old
    simp [get?, inside]
  | entry => exact Entries.get?_insert_self _ _ _

/-- The other slots hold what they held. -/
theorem Put.get?_of_ne (h : Put c slot v c') (ne : other ≠ slot) : get? c' other = get? c other := by
  cases h with
  | list inside =>
    cases other with
    | position m => exact List.getElem?_set_ne fun he => ne (congrArg Slot.position he.symm)
    | entry name => rfl
  | row old same =>
    cases other with
    | position m =>
      exact congrArg (Option.map Value.list) (List.getElem?_set_ne fun he => ne (congrArg Slot.position he.symm))
    | entry name => rfl
  | entry =>
    cases other with
    | position m => rfl
    | entry name => exact Entries.get?_insert_of_ne (fun he => ne (congrArg Slot.entry he)) _ _

/-- Keys lead where they led. -/
theorem Put.of?_eq (h : Put c slot v c') (key : Key) : of? c' key = of? c key := by
  cases h with
  | list inside => cases key <;> simp [of?]
  | row old same => cases key <;> simp [of?]
  | entry => rfl

/-- Of two writes to a slot the second one counts. -/
theorem Put.put?_eq (h : Put c slot v c') (w : Value) : put? c' slot w = put? c slot w := by
  cases h with
  | list inside => simp [put?]
  | @row rows row n cells old same =>
    obtain ⟨inside, rfl⟩ := List.getElem?_eq_some_iff.mp old
    cases w <;> simp [put?, inside, same]
  | entry => simp [put?, Entries.insert_insert_self]

/-- A write keeps the kind of the container. -/
theorem Put.kind_eq (h : Put c slot v c') : c'.kind = c.kind := by
  cases h <;> rfl

/-! ## What a write does to the shape of a container -/

/-- What may happen to a container on the way of a write: a list keeps its length,
a matrix the lengths of its rows, and a dictionary its names; one name may be
added to it. -/
inductive Reshaped (added : Option String) : Value → Value → Prop
  | list {items items' : List Value} (length : items'.length = items.length) :
      Reshaped added (.list items) (.list items')
  | matrix {rows rows' : List (List Value)} (lengths : rows'.map List.length = rows.map List.length) :
      Reshaped added (.matrix rows) (.matrix rows')
  | dictionary {entries entries' : Entries Value}
      (names : ∀ name,
        Entries.contains name entries' = true ↔ Entries.contains name entries = true ∨ added = some name) :
      Reshaped added (.dictionary entries) (.dictionary entries')

/-- A write to the slot of a key adds at most the name of the key. -/
theorem Put.reshaped {key : Key} (h : Put c slot v c') (leads : of? c key = some slot) :
    Reshaped (some key.entryName) c c' := by
  cases h with
  | list inside => exact .list (by simp)
  | row old same => exact .matrix (lengths_set old same)
  | entry =>
    refine .dictionary fun name => ?_
    cases leads
    rw [Entries.contains_insert, Option.some_inj, eq_comm (a := name)]

/-- A write to a slot that holds something adds nothing. -/
theorem Put.reshaped_of_held {item : Value} (h : Put c slot v c') (held : get? c slot = some item) :
    Reshaped none c c' := by
  cases h with
  | list inside => exact .list (by simp)
  | row old same => exact .matrix (lengths_set old same)
  | @entry entries name v =>
    refine .dictionary fun other => ?_
    have there : Entries.contains name entries = true := by
      rw [Entries.contains, show Entries.get? name entries = some item from held]; rfl
    rw [Entries.contains_insert]
    constructor
    · rintro (h | rfl)
      · exact .inl h
      · exact .inl there
    · rintro (h | h)
      · exact .inl h
      · cases h

end Slot

/-! ## Reading from slot to slot -/

/-- A read along keys. -/
def readAt : Value → List Key → Nat → Except RuntimeError Value
  | target, [], _ => .ok target
  | target, key :: rest, line => do
    let item ← step target line key
    readAt item rest line

theorem position_eq_ok {index : Value} {length line n : Nat} :
    position index length line = .ok n ↔ Slot.ofIndex? index length = some (.position n) := by
  unfold position integerOf Slot.ofIndex?
  simp only [Except.bind_eq_ok, Except.mapError_eq_ok]
  cases index.toInteger with
  | error e => simp
  | ok i =>
    simp only [Except.ok.injEq, exists_eq_left']
    cases Number.position? i length with
    | none => simp
    | some m => simp [Except.pure_eq_ok]

theorem Slot.ofIndex?_eq_some {index : Value} {length : Nat} {slot : Slot}
    (h : Slot.ofIndex? index length = some slot) : ∃ n, slot = .position n := by
  unfold ofIndex? at h
  split at h
  · obtain ⟨n, -, rfl⟩ := Option.map_eq_some_iff.mp h
    exact ⟨n, rfl⟩
  · cases h

theorem itemAt_eq_ok_iff {items : List α} {index : Value} {line : Nat} {item : α} :
    itemAt items index line = .ok item ↔
      ∃ n, Slot.ofIndex? index items.length = some (.position n) ∧ items[n]? = some item := by
  constructor
  · intro h
    obtain ⟨n, hn, found⟩ := itemAt_eq_ok h
    exact ⟨n, position_eq_ok.mp hn, found⟩
  · rintro ⟨n, hn, found⟩
    refine Except.bind_eq_ok.mpr ⟨n, position_eq_ok.mpr hn, ?_⟩
    rw [found]
    rfl

theorem characterAt_eq_ok {s : String} {index : Value} {line : Nat} {c : Char} :
    characterAt s index line = .ok c ↔
      ∃ n, Slot.ofIndex? index s.length = some (.position n) ∧ characterFrom s n 0 = some c := by
  unfold characterAt
  rw [Except.bind_eq_ok]
  refine exists_congr fun n => and_congr position_eq_ok ?_
  cases characterFrom s n 0 with
  | none => exact ⟨nofun, nofun⟩
  | some d => simp [Except.pure_eq_ok]

theorem entryAt_eq_ok {entries : Entries Value} {key : String} {line : Nat} {v : Value} :
    entryAt entries key line = .ok v ↔ Entries.get? key entries = some v := by
  unfold entryAt
  cases Entries.get? key entries with
  | none => exact ⟨nofun, nofun⟩
  | some w => simp

/-- Where an index leads and what is there, in a sequence. -/
theorem exists_slot {index : Value} {length : Nat} {item : Value} (held : Slot → Option Value) :
    (∃ slot, Slot.ofIndex? index length = some slot ∧ held slot = some item) ↔
      ∃ n, Slot.ofIndex? index length = some (.position n) ∧ held (.position n) = some item := by
  constructor
  · rintro ⟨slot, leads, holds⟩
    obtain ⟨n, rfl⟩ := Slot.ofIndex?_eq_some leads
    exact ⟨n, leads, holds⟩
  · rintro ⟨n, leads, holds⟩
    exact ⟨_, leads, holds⟩

/-- **One step of a read** gives what the slot of its key holds. -/
theorem step_eq_ok {c item : Value} {key : Key} {line : Nat} :
    step c line key = .ok item ↔ ∃ slot, Slot.of? c key = some slot ∧ Slot.get? c slot = some item := by
  cases c with
  | list items =>
    cases key with
    | index i => exact itemAt_eq_ok_iff.trans (exists_slot (Slot.get? (.list items))).symm
    | field name => simp [step, fieldValue, Slot.of?]
  | matrix rows =>
    cases key with
    | index i =>
      refine Iff.trans ?_ (exists_slot _).symm
      show (itemAt rows i line).map Value.list = _ ↔ _
      simp only [Except.map_eq_ok, itemAt_eq_ok_iff, Slot.get?, Option.map_eq_some_iff]
      grind
    | field name => simp [step, fieldValue, Slot.of?]
  | text s | string s =>
    cases key with
    | index i =>
      refine Iff.trans ?_ (exists_slot _).symm
      show (characterAt s i line).map Value.character = _ ↔ _
      simp only [Except.map_eq_ok, characterAt_eq_ok, Slot.get?, Option.map_eq_some_iff]
      grind
    | field name => simp [step, fieldValue, Slot.of?]
  | dictionary entries =>
    cases key <;> simp [step, fieldValue, indexValue, Slot.of?, Slot.get?, Key.entryName, entryAt_eq_ok]
  | _ => cases key <;> simp [step, fieldValue, indexValue, Slot.of?]

theorem readAt_cons_eq_ok {c item : Value} {key : Key} {rest : List Key} {line : Nat} :
    readAt c (key :: rest) line = .ok item ↔
      ∃ slot next, Slot.of? c key = some slot ∧ Slot.get? c slot = some next ∧ readAt next rest line = .ok item := by
  rw [readAt, Except.bind_eq_ok]
  simp only [step_eq_ok]
  constructor
  · rintro ⟨next, ⟨slot, leads, holds⟩, read⟩
    exact ⟨slot, next, leads, holds, read⟩
  · rintro ⟨slot, next, leads, holds, read⟩
    exact ⟨next, ⟨slot, leads, holds⟩, read⟩

/-! ## Writing from slot to slot -/

/-- A write along keys, slot by slot: the last slot takes the value, and every slot
on the way what its content became. -/
inductive Stores (v : Value) : Value → List Key → Value → Prop
  | here {c} : Stores v c [] v
  | last {c key slot c'} (leads : Slot.of? c key = some slot) (put : Slot.Put c slot v c') : Stores v c [key] c'
  | through {c key next rest slot item stored c'} (leads : Slot.of? c key = some slot)
      (holds : Slot.get? c slot = some item) (inner : Stores v item (next :: rest) stored)
      (put : Slot.Put c slot stored c') : Stores v c (key :: next :: rest) c'

/-- What is left of a write behind its first key. -/
def Inner (v c : Value) (slot : Slot) (rest : List Key) (stored : Value) : Prop :=
  match rest with
  | [] => stored = v
  | next :: rest => ∃ item, Slot.get? c slot = some item ∧ Stores v item (next :: rest) stored

theorem stores_cons {v c c' : Value} {key : Key} {rest : List Key} :
    Stores v c (key :: rest) c' ↔
      ∃ slot stored, Slot.of? c key = some slot ∧ Inner v c slot rest stored ∧ Slot.Put c slot stored c' := by
  constructor
  · intro h
    cases h with
    | last leads put => exact ⟨_, _, leads, rfl, put⟩
    | through leads holds inner put => exact ⟨_, _, leads, ⟨_, holds, inner⟩, put⟩
  · rintro ⟨slot, stored, leads, inner, put⟩
    cases rest with
    | nil => cases inner; exact .last leads put
    | cons next rest => obtain ⟨item, holds, inner⟩ := inner; exact .through leads holds inner put

/-- Behind a key whose slot holds something the write goes on there. -/
theorem stores_iff_inner {v c item stored : Value} {slot : Slot} {rest : List Key}
    (holds : Slot.get? c slot = some item) : Stores v item rest stored ↔ Inner v c slot rest stored := by
  cases rest with
  | nil =>
    constructor
    · rintro ⟨⟩; rfl
    · rintro ⟨⟩; exact .here
  | cons next rest =>
    constructor
    · intro inner; exact ⟨item, holds, inner⟩
    · rintro ⟨item', holds', inner⟩
      cases holds.symm.trans holds'
      exact inner

section

variable {v c' : Value} {rest : List Key} {line : Nat}

theorem storeAt_list_eq_ok {items : List Value} {i : Value} :
    storeAt (.list items) (.index i :: rest) v line = .ok c' ↔
      ∃ n item stored, Slot.ofIndex? i items.length = some (.position n) ∧ items[n]? = some item ∧
        storeAt item rest v line = .ok stored ∧ c' = .list (items.set n stored) := by
  simp only [storeAt, Except.bind_eq_ok, Except.pure_eq_ok, position_eq_ok, itemAt_eq_ok_iff]
  constructor
  · rintro ⟨n, leads, item, ⟨_, leads', holds⟩, stored, inner, rfl⟩
    cases leads.symm.trans leads'
    exact ⟨n, item, stored, leads, holds, inner, rfl⟩
  · rintro ⟨n, item, stored, leads, holds, inner, rfl⟩
    exact ⟨n, leads, item, ⟨n, leads, holds⟩, stored, inner, rfl⟩

/-- A write inside a matrix is a write inside the list of a row that keeps the
length of the row. -/
theorem storeAt_matrix_eq_ok {rows : List (List Value)} {i : Value} :
    storeAt (.matrix rows) (.index i :: rest) v line = .ok c' ↔
      ∃ n row cells, Slot.ofIndex? i rows.length = some (.position n) ∧ rows[n]? = some row ∧
        storeAt (.list row) rest v line = .ok (.list cells) ∧ cells.length = row.length ∧
        c' = .matrix (rows.set n cells) := by
  have rowwise : ∀ {f : Nat → List Value → Except RuntimeError Value},
      (do let n ← position i rows.length line; let row ← itemAt rows i line; f n row) = .ok c' ↔
        ∃ n row, Slot.ofIndex? i rows.length = some (.position n) ∧ rows[n]? = some row ∧ f n row = .ok c' := by
    intro f
    simp only [Except.bind_eq_ok, position_eq_ok, itemAt_eq_ok_iff]
    constructor
    · rintro ⟨n, leads, row, ⟨_, leads', holds⟩, h⟩
      cases leads.symm.trans leads'
      exact ⟨n, row, leads, holds, h⟩
    · rintro ⟨n, row, leads, holds, h⟩
      exact ⟨n, leads, row, ⟨n, leads, holds⟩, h⟩
  cases rest with
  | nil =>
    rw [storeAt, rowwise]
    refine exists_congr fun n => exists_congr fun row => ?_
    cases v with
    | list cells =>
      by_cases same : cells.length = row.length
      · simp [storeAt, same, Except.pure_eq_ok, eq_comm (b := c')]
      · simp only [storeAt, if_neg same, reduceCtorEq, and_false, Except.ok.injEq, Value.list.injEq, false_iff,
          not_exists]
        rintro cells ⟨-, -, rfl, same', -⟩
        exact same same'
    | _ => simp [storeAt]
  | cons column tail =>
    cases column with
    | field name => rw [storeAt, rowwise]; simp [storeAt]
    | index j =>
      rw [storeAt, rowwise]
      refine exists_congr fun n => exists_congr fun row => ?_
      simp only [storeAt_list_eq_ok, Except.bind_eq_ok, Except.pure_eq_ok, position_eq_ok, itemAt_eq_ok_iff]
      constructor
      · rintro ⟨leads, holds, m, leads₁, cell, ⟨_, leads₂, holds₁⟩, stored, inner, rfl⟩
        cases leads₁.symm.trans leads₂
        exact ⟨_, leads, holds, ⟨m, cell, stored, leads₁, holds₁, inner, rfl⟩, List.length_set, rfl⟩
      · rintro ⟨cells, leads, holds, ⟨m, cell, stored, leads₁, holds₁, inner, cells_eq⟩, -, rfl⟩
        cases cells_eq
        exact ⟨leads, holds, m, leads₁, cell, ⟨m, leads₁, holds₁⟩, stored, inner, rfl⟩

theorem storeAt_dictionary_eq_ok {entries : Entries Value} {key next : Key} :
    storeAt (.dictionary entries) (key :: next :: rest) v line = .ok c' ↔
      ∃ item stored, Entries.get? key.entryName entries = some item ∧
        storeAt item (next :: rest) v line = .ok stored ∧
        c' = .dictionary (Entries.insert key.entryName stored entries) := by
  rw [storeAt]
  simp only [List.isEmpty_cons, Bool.false_eq_true, if_false, Except.bind_eq_ok, Except.pure_eq_ok, entryAt_eq_ok]
  constructor
  · rintro ⟨item, holds, stored, inner, rfl⟩
    exact ⟨item, stored, holds, inner, rfl⟩
  · rintro ⟨item, stored, holds, inner, rfl⟩
    exact ⟨item, holds, stored, inner, rfl⟩

end

/-- **A write along keys goes from slot to slot**, whatever the containers are. -/
theorem storeAt_eq_ok {v : Value} {line : Nat} {keys : List Key} {c c' : Value} :
    storeAt c keys v line = .ok c' ↔ Stores v c keys c' := by
  induction keys generalizing c c' with
  | nil =>
    rw [storeAt]
    constructor
    · rintro ⟨⟩; exact .here
    · rintro ⟨⟩; rfl
  | cons key rest ih =>
    rw [stores_cons]
    have inner_iff : ∀ {slot : Slot} {item stored : Value}, Slot.get? c slot = some item →
        (storeAt item rest v line = .ok stored ↔ Inner v c slot rest stored) :=
      fun holds => ih.trans (stores_iff_inner holds)
    cases c with
    | list items =>
      cases key with
      | field name => simp [storeAt, Slot.of?]
      | index i =>
        rw [storeAt_list_eq_ok]
        constructor
        · rintro ⟨n, item, stored, leads, holds, inner, rfl⟩
          obtain ⟨inside, -⟩ := List.getElem?_eq_some_iff.mp holds
          exact ⟨_, stored, leads, (@inner_iff (.position n) _ _ holds).mp inner, .list inside⟩
        · rintro ⟨slot, stored, leads, inner, put⟩
          cases put with
          | @list _ n _ inside =>
            have holds := List.getElem?_eq_getElem inside
            exact ⟨n, _, stored, leads, holds, (@inner_iff (.position n) _ _ holds).mpr inner, rfl⟩
    | matrix rows =>
      cases key with
      | field name => simp [storeAt, Slot.of?]
      | index i =>
        have held : ∀ {n row}, rows[n]? = some row → Slot.get? (.matrix rows) (.position n) = some (.list row) :=
          congrArg (Option.map Value.list)
        rw [storeAt_matrix_eq_ok]
        constructor
        · rintro ⟨n, row, cells, leads, holds, inner, same, rfl⟩
          exact ⟨_, _, leads, (inner_iff (held holds)).mp inner, .row holds same⟩
        · rintro ⟨slot, stored, leads, inner, put⟩
          cases put with
          | @row _ row n cells old same =>
            exact ⟨n, row, cells, leads, old, (inner_iff (held old)).mpr inner, same, rfl⟩
    | dictionary entries =>
      cases rest with
      | nil =>
        rw [storeAt]
        constructor
        · rintro ⟨⟩; exact ⟨_, v, rfl, rfl, .entry⟩
        · rintro ⟨slot, stored, leads, inner, put⟩
          cases put with
          | entry => cases leads; cases inner; rfl
      | cons next rest =>
        rw [storeAt_dictionary_eq_ok]
        constructor
        · rintro ⟨item, stored, holds, inner, rfl⟩
          exact ⟨_, stored, rfl, (@inner_iff (.entry key.entryName) _ _ holds).mp inner, .entry⟩
        · rintro ⟨slot, stored, leads, ⟨item, holds, inner⟩, put⟩
          cases put with
          | entry => cases leads; exact ⟨item, stored, holds, ih.mpr inner, rfl⟩
    | _ =>
      -- Nothing can be put into the slots of any other value.
      simp only [storeAt, reduceCtorEq, false_iff]
      rintro ⟨slot, stored, -, -, put⟩
      cases put

/-! ## The laws along keys -/

/-- A path that leaves the keys of a write: at some container that both come
through, it leads to another slot. -/
inductive Apart : Value → List Key → List Key → Prop
  | here {c key key' rest rest'} (ne : Slot.of? c key' ≠ Slot.of? c key) : Apart c (key :: rest) (key' :: rest')
  | through {c key key' rest rest' slot item} (leads : Slot.of? c key = some slot)
      (leads' : Slot.of? c key' = some slot) (holds : Slot.get? c slot = some item)
      (inner : Apart item rest rest') : Apart c (key :: rest) (key' :: rest')

/-- What was `before` holds a value at the end of the keys `after`, and is the same
elsewhere. -/
structure Replaced (keys : List Key) (v before after : Value) : Prop where
  /-- What is read along the keys is the value. -/
  held : ∀ line, readAt after keys line = .ok v
  /-- What is read along a path that leaves the keys is what it was. -/
  elsewhere : ∀ path line item, Apart before keys path → readAt before path line = .ok item →
    readAt after path line = .ok item
  /-- The containers on the way keep their shape; only the last one may take in
  a name, that of the last key. -/
  reshaped : ∀ pre key rest line, keys = pre ++ key :: rest → ∃ c c',
    readAt before pre line = .ok c ∧ readAt after pre line = .ok c' ∧
      Slot.Reshaped (if rest.isEmpty then some key.entryName else none) c c'

namespace Stores

variable {v w c c' : Value} {keys : List Key}

theorem held (h : Stores v c keys c') (line : Nat) : readAt c' keys line = .ok v := by
  induction h with
  | here => rfl
  | last leads put => exact readAt_cons_eq_ok.mpr ⟨_, v, put.of?_eq _ ▸ leads, put.get?_self, rfl⟩
  | through leads holds inner put ih => exact readAt_cons_eq_ok.mpr ⟨_, _, put.of?_eq _ ▸ leads, put.get?_self, ih⟩

/-- A read that goes to another slot at once reads what it read. -/
theorem elsewhere_of_put {slot : Slot} {key key' : Key} {rest : List Key} {item : Value} {line : Nat}
    (leads : Slot.of? c key = some slot) (put : Slot.Put c slot v c') (ne : Slot.of? c key' ≠ Slot.of? c key)
    (read : readAt c (key' :: rest) line = .ok item) : readAt c' (key' :: rest) line = .ok item := by
  obtain ⟨other, next, leads', holds, read⟩ := readAt_cons_eq_ok.mp read
  have apart : other ≠ slot := by rintro rfl; exact ne (leads'.trans leads.symm)
  exact readAt_cons_eq_ok.mpr ⟨other, next, put.of?_eq _ ▸ leads', put.get?_of_ne apart ▸ holds, read⟩

theorem elsewhere (h : Stores v c keys c') {path : List Key} {line : Nat} {item : Value} (apart : Apart c keys path)
    (read : readAt c path line = .ok item) : readAt c' path line = .ok item := by
  induction h generalizing path with
  | here => cases apart
  | last leads put =>
    cases apart with
    | here ne => exact elsewhere_of_put leads put ne read
    | through _ _ _ inner => cases inner
  | through leads holds inner put ih =>
    cases apart with
    | here ne => exact elsewhere_of_put leads put ne read
    | through leads₁ leads₂ holds₁ apart =>
      cases leads.symm.trans leads₁
      cases holds.symm.trans holds₁
      obtain ⟨_, _, leads₃, holds₃, read⟩ := readAt_cons_eq_ok.mp read
      cases leads₂.symm.trans leads₃
      cases holds.symm.trans holds₃
      exact readAt_cons_eq_ok.mpr ⟨_, _, put.of?_eq _ ▸ leads₂, put.get?_self, ih apart read⟩

theorem reshaped (h : Stores v c keys c') {pre : List Key} {key : Key} {rest : List Key} (line : Nat)
    (split : keys = pre ++ key :: rest) : ∃ d d', readAt c pre line = .ok d ∧ readAt c' pre line = .ok d' ∧
      Slot.Reshaped (if rest.isEmpty then some key.entryName else none) d d' := by
  induction h generalizing pre with
  | here => simp at split
  | last leads put =>
    cases pre with
    | nil => cases split; exact ⟨_, _, rfl, rfl, put.reshaped leads⟩
    | cons _ pre => simp at split
  | through leads holds inner put ih =>
    cases pre with
    | nil => cases split; exact ⟨_, _, rfl, rfl, put.reshaped_of_held holds⟩
    | cons first pre =>
      obtain ⟨rfl, behind⟩ := List.cons_eq_cons.mp split
      obtain ⟨d, d', before, after, shape⟩ := ih behind
      exact ⟨d, d', readAt_cons_eq_ok.mpr ⟨_, _, leads, holds, before⟩,
        readAt_cons_eq_ok.mpr ⟨_, _, put.of?_eq _ ▸ leads, put.get?_self, after⟩, shape⟩

/-- A write into a container keeps its kind. -/
theorem kind_eq (h : Stores v c keys c') (inside : keys ≠ []) : c'.kind = c.kind := by
  cases h with
  | here => exact absurd rfl inside
  | last _ put => exact put.kind_eq
  | through _ _ _ put => exact put.kind_eq

theorem replaced (h : Stores v c keys c') : Replaced keys v c c' where
  held := h.held
  elsewhere _ _ _ apart read := h.elsewhere apart read
  reshaped _ _ _ line split := h.reshaped line split

theorem last_iff {key : Key} {slot : Slot} (leads : Slot.of? c key = some slot) :
    Stores w c [key] c' ↔ Slot.put? c slot w = some c' := by
  rw [Slot.put?_eq_some]
  constructor
  · intro h
    cases h with
    | last leads' put => cases leads.symm.trans leads'; exact put
  · exact .last leads

theorem through_iff {key next : Key} {rest : List Key} {slot : Slot} {item : Value} (leads : Slot.of? c key = some slot)
    (holds : Slot.get? c slot = some item) :
    Stores w c (key :: next :: rest) c' ↔
      ∃ stored, Stores w item (next :: rest) stored ∧ Slot.put? c slot stored = some c' := by
  simp only [Slot.put?_eq_some]
  constructor
  · intro h
    cases h with
    | through leads' holds' inner put =>
      cases leads.symm.trans leads'
      cases holds.symm.trans holds'
      exact ⟨_, inner, put⟩
  · rintro ⟨stored, inner, put⟩
    exact .through leads holds inner put

/-- Of two writes along the same keys the second one counts. -/
theorem again {c'' : Value} (h : Stores v c keys c') : Stores w c' keys c'' ↔ Stores w c keys c'' := by
  induction h generalizing c'' with
  | here =>
    constructor
    · rintro ⟨⟩; exact .here
    · rintro ⟨⟩; exact .here
  | last leads put => rw [last_iff leads, last_iff (put.of?_eq _ ▸ leads), put.put?_eq]
  | through leads holds inner put ih =>
    rw [through_iff leads holds, through_iff (put.of?_eq _ ▸ leads) put.get?_self]
    simp only [ih, put.put?_eq]

end Stores

/-- **Writing along keys and reading along keys are a lens.** What was stored is
read, whatever is read on another path is as it was, containers keep their shape,
and a second write along the same keys does what it would have done at once. -/
theorem storeAt_lens {keys : List Key} {v c c' : Value} {line : Nat} (h : storeAt c keys v line = .ok c') :
    Replaced keys v c c' ∧
    ∀ w line c'', storeAt c' keys w line = .ok c'' ↔ storeAt c keys w line = .ok c'' := by
  have stores := storeAt_eq_ok.mp h
  refine ⟨stores.replaced, fun w line c'' => ?_⟩
  rw [storeAt_eq_ok, storeAt_eq_ok]
  exact stores.again

/-- A cell of a matrix in a list in a dictionary, with keys of several kinds that
lead to it, and the cell beside it. -/
theorem storeAt_lens_nested :
    let before : Value :=
      .dictionary [("m", .list [.null, .matrix [[.integer 1, .integer 2], [.integer 3, .integer 4]]])]
    let after : Value :=
      .dictionary [("m", .list [.null, .matrix [[.integer 1, .integer 2], [.integer 3, .integer 9]]])]
    let row : List Key := [.field "m", .index (.boolean true), .index (.string " 1 ")]
    let beside : List Key := [.index (.string "m"), .index (.integer 1), .index (.bit true), .index (.integer 0)]
    storeAt before (row ++ [.index (.real .one)]) (.integer 9) 1 = .ok after ∧
      Replaced (row ++ [.index (.real .one)]) (.integer 9) before after ∧
      Apart before (row ++ [.index (.real .one)]) beside ∧ readAt after beside 1 = .ok (.integer 3) := by
  intro before after row beside
  have stored : storeAt before (row ++ [.index (.real .one)]) (.integer 9) 1 = .ok after := by rfl
  obtain ⟨replaced, -⟩ := storeAt_lens stored
  have apart : Apart before (row ++ [.index (.real .one)]) beside :=
    .through rfl rfl rfl (.through rfl rfl rfl (.through rfl rfl rfl (.here (by decide +kernel))))
  exact ⟨stored, replaced, apart, replaced.elsewhere beside 1 (.integer 3) apart rfl⟩

end Guion.Operator
