/-
Bindings, store by store.

A name may be bound in several stores at once: as a constant, in each open
scope, as a global, and as a symbol of the registry. `Store.get?` reads a name
in one store, and `Found` says at which store a lookup stops, and with which
value. So what a write does can be said of every binding, those that a lookup
does not see included. Each kind of write has one equation for the scopes
(`bound_setLocal`, `bound_eraseLocal`, `bound_defineLocal`). An assignment to a
name that is bound writes the store where the name is found and, if this is a
scope of a program, the symbol of the same name (`rewritten_of_assignVariable`).
-/
import Guion.Proofs.Run.Updates

namespace Guion

/-- Where a name may be bound; the scopes are counted from the innermost one. -/
inductive Store where
  | constants
  | scope (i : Nat)
  | globals
  | symbols
  deriving DecidableEq

namespace Entries

variable {α : Type u} {name other : String} {entries : Entries α}

theorem get?_insert (value : α) :
    get? other (insert name value entries) = if other = name then some value else get? other entries := by
  split
  · next same => rw [same, get?_insert_self]
  · next ne => exact get?_insert_of_ne ne value entries

theorem get?_erase (ascending : entries.Ascending) :
    get? other (erase name entries) = if other = name then none else get? other entries := by
  split
  · next same => rw [same, get?_erase_self ascending]
  · next ne => exact get?_erase_of_ne ne entries

end Entries

namespace State

variable {name other : String} {scopes : List Scope} {i : Nat}

/-! ## Scopes -/

/-- What a scope has under a name. -/
def bound (name : String) (i : Nat) (scopes : List Scope) : Option Value := (scopes[i]?).bind (Entries.get? name)

/-- The innermost scope that has a name. -/
def scopeOf? (name : String) : List Scope → Option Nat
  | [] => none
  | scope :: outer => if Entries.contains name scope then some 0 else (scopeOf? name outer).map (· + 1)

@[simp] theorem bound_nil : bound name i [] = none := rfl

@[simp] theorem bound_zero {scope : Scope} {outer : List Scope} :
    bound name 0 (scope :: outer) = Entries.get? name scope := rfl

@[simp] theorem bound_succ {scope : Scope} {outer : List Scope} :
    bound name (i + 1) (scope :: outer) = bound name i outer := rfl

/-- The scopes are searched up to the one that has the name. -/
theorem local?_eq_bound (name : String) (scopes : List Scope) :
    local? name scopes = (scopeOf? name scopes).bind fun i => bound name i scopes := by
  induction scopes with
  | nil => rfl
  | cons scope outer ih =>
    rw [local?, scopeOf?, Entries.contains]
    cases here : Entries.get? name scope with
    | some value => simp [here]
    | none =>
      rw [ih]
      cases scopeOf? name outer <;> simp

/-- A scope at which the search stops has the name. -/
theorem bound_of_scopeOf? (h : scopeOf? name scopes = some i) : ∃ value, bound name i scopes = some value := by
  induction scopes generalizing i with
  | nil => cases h
  | cons scope outer ih =>
    rw [scopeOf?] at h
    split at h
    · next here => cases h; exact Option.isSome_iff_exists.mp here
    · obtain ⟨j, found, rfl⟩ := Option.map_eq_some_iff.mp h
      exact ih found

theorem local?_eq_none_iff : local? name scopes = none ↔ scopeOf? name scopes = none := by
  rw [local?_eq_bound]
  cases found : scopeOf? name scopes with
  | none => simp
  | some i =>
    obtain ⟨value, here⟩ := bound_of_scopeOf? found
    simp [here]

theorem bound_setLocal (value : Value) : bound other i (setLocal name value scopes) =
    if other = name ∧ scopeOf? name scopes = some i then some value else bound other i scopes := by
  induction scopes generalizing i with
  | nil => simp [setLocal, scopeOf?]
  | cons scope outer ih =>
    rw [setLocal, scopeOf?]
    by_cases here : Entries.contains name scope = true
    · cases i <;> simp [here, Entries.get?_insert]
    · cases i <;> simp [here, ih]

theorem bound_eraseLocal (sorted : Sorted scopes) : bound other i (eraseLocal name scopes) =
    if other = name ∧ scopeOf? name scopes = some i then none else bound other i scopes := by
  induction scopes generalizing i with
  | nil => simp [eraseLocal]
  | cons scope outer ih =>
    obtain ⟨ascending, sorted⟩ := List.forall_mem_cons.mp sorted
    rw [eraseLocal, scopeOf?]
    by_cases here : Entries.contains name scope = true
    · cases i <;> simp [here, Entries.get?_erase ascending]
    · cases i <;> simp [here, ih sorted]

theorem bound_defineLocal {s : State} (opened : s.scopes ≠ []) (value : Value) :
    bound other i (s.defineLocal name value).scopes =
      if other = name ∧ i = 0 then some value else bound other i s.scopes := by
  unfold defineLocal
  split
  · next scope outer cut => rw [cut]; cases i <;> simp [Entries.get?_insert]
  · next none => exact absurd none opened

end State

/-! ## Stores -/

namespace Store

/-- What a store has under a name. -/
def get? (name : String) (s : State) : Store → Option Value
  | constants => Entries.get? name s.constants
  | scope i => State.bound name i s.scopes
  | globals => Entries.get? name s.globals
  | symbols => s.registry.get? name

end Store

namespace State

variable {s t : State} {name other : String} {store : Store} {value : Value}

/-- A lookup of the name stops at the store, with the value. -/
inductive Found (name : String) (s : State) : Store → Value → Prop
  | constant {v} (here : Entries.get? name s.constants = some v) : Found name s .constants v
  | «local» {i v} (free : Entries.get? name s.constants = none) (inner : scopeOf? name s.scopes = some i)
      (here : bound name i s.scopes = some v) : Found name s (.scope i) v
  | global {v} (free : Entries.get? name s.constants = none) (outside : scopeOf? name s.scopes = none)
      (here : Entries.get? name s.globals = some v) : Found name s .globals v
  | «symbol» {v} (free : Entries.get? name s.constants = none) (outside : scopeOf? name s.scopes = none)
      (unshared : Entries.get? name s.globals = none) (here : s.registry.get? name = some v) : Found name s .symbols v

/-- What is found is what a lookup reads. -/
theorem Found.lookup (h : Found name s store value) : s.lookup name = some value := by
  rw [lookup_eq_or, local?_eq_bound]
  cases h with
  | constant here => simp [here]
  | «local» free inner here => simp [free, inner, here]
  | global free outside here => simp [free, outside, here]
  | «symbol» free outside unshared here => simp [free, outside, unshared, here]

/-- What a lookup reads is found somewhere. -/
theorem exists_found (h : s.lookup name = some value) : ∃ store, Found name s store value := by
  rw [lookup_eq_or, local?_eq_bound] at h
  cases free : Entries.get? name s.constants with
  | some v => rw [free] at h; cases h; exact ⟨_, .constant free⟩
  | none =>
    rw [free, Option.none_or] at h
    cases inner : scopeOf? name s.scopes with
    | some i =>
      obtain ⟨v, here⟩ := bound_of_scopeOf? inner
      rw [inner, Option.bind_some, here] at h
      cases h
      exact ⟨_, .local free inner here⟩
    | none =>
      rw [inner, Option.bind_none, Option.none_or] at h
      cases shared : Entries.get? name s.globals with
      | some v => rw [shared] at h; cases h; exact ⟨_, .global free inner shared⟩
      | none => rw [shared, Option.none_or] at h; exact ⟨_, .symbol free inner shared h⟩

/-- The stores in which a variable is kept: the one where it is found and, for a
variable of a program, the symbols, where its mirror is. -/
def Keeps (s : State) (store place : Store) : Prop :=
  place = store ∨ place = .symbols ∧ (∃ i, store = .scope i) ∧ s.inFunction = false

/-- The variable has another value, in all its copies; every other binding is what
it was. -/
structure Rewritten (name : String) (store : Store) (value : Value) (s t : State) : Prop where
  here : store.get? name t = some value
  copies : ∀ copy, s.Keeps store copy → copy.get? name s ≠ none → copy.get? name t = some value
  others : ∀ place other, ¬ (other = name ∧ s.Keeps store place) → place.get? other t = place.get? other s
  functions : t.functions = s.functions

theorem Keeps.self (s : State) (store : Store) : s.Keeps store store := .inl rfl

/-- Only a variable of a program has a mirror. -/
theorem keeps_iff_eq (h : ∀ i, store ≠ .scope i) (place : Store) : s.Keeps store place ↔ place = store :=
  ⟨fun keeps => keeps.elim id fun ⟨_, ⟨i, he⟩, _⟩ => absurd he (h i), .inl⟩

/-- A write to the innermost scope that has the name; a variable of a program is
published. -/
theorem rewritten_scope (value : Value) (inner : scopeOf? name s.scopes = some i) : Rewritten name (.scope i) value s
    { s with scopes := setLocal name value s.scopes, registry := s.published name value } := by
  refine ⟨?_, ?_, ?_, rfl⟩
  · exact (bound_setLocal value).trans (if_pos ⟨rfl, inner⟩)
  · rintro copy (rfl | ⟨rfl, -, outside⟩) there
    · exact (bound_setLocal value).trans (if_pos ⟨rfl, inner⟩)
    · exact (get?_published value s).trans (if_pos ⟨rfl, outside, Option.isSome_iff_ne_none.mpr there⟩)
  · intro place other apart
    cases place with
    | constants => rfl
    | globals => rfl
    | scope j =>
      refine (bound_setLocal value).trans (if_neg ?_)
      rintro ⟨same, inner'⟩
      cases inner.symm.trans inner'
      exact apart ⟨same, .self s _⟩
    | symbols =>
      exact (get?_published value s).trans
        (if_neg fun ⟨same, outside, _⟩ => apart ⟨same, .inr ⟨rfl, ⟨i, rfl⟩, outside⟩⟩)

/-- A write to a store whose variables have no mirror. -/
theorem rewritten_of_unmirrored (h : ∀ i, store ≠ .scope i) (here : store.get? name t = some value)
    (others : ∀ place other, ¬ (other = name ∧ place = store) → place.get? other t = place.get? other s)
    (functions : t.functions = s.functions) : Rewritten name store value s t where
  here := here
  copies copy keeps _ := by rw [(keeps_iff_eq h copy).mp keeps, here]
  others place other apart := others place other (by rwa [← keeps_iff_eq h place])
  functions := functions

theorem rewritten_globals (value : Value) (s : State) :
    Rewritten name .globals value s { s with globals := Entries.insert name value s.globals } := by
  refine rewritten_of_unmirrored nofun (Entries.get?_insert_self _ _ _) ?_ rfl
  intro place other apart
  cases place with
  | globals => exact Entries.get?_insert_of_ne (fun same => apart ⟨same, rfl⟩) _ _
  | _ => rfl

theorem rewritten_symbols (value : Value) (s : State) :
    Rewritten name .symbols value s { s with registry := s.registry.put name value } := by
  refine rewritten_of_unmirrored nofun (Registry.get?_put_self _ _ _) ?_ rfl
  intro place other apart
  cases place with
  | symbols => exact Registry.get?_put_of_ne (fun same => apart ⟨same, rfl⟩) _ _
  | _ => rfl

/-- **An assignment to a name that is bound writes where the name is found.** -/
theorem rewritten_of_assignVariable {old : Value} {line : Nat} (h : s.assignVariable name value line = .ok t)
    (found : Found name s store old) : ∃ stored, value.coerce old.kind = .ok stored ∧ Rewritten name store stored s t := by
  have unfixed := assignVariable_unfixed h
  have assigned := assigned_of_assignVariable h
  cases found with
  | constant here => rw [here] at unfixed; cases unfixed
  | @«local» i _ _ inner here =>
    have reads : local? name s.scopes = some old := by rw [local?_eq_bound, inner, Option.bind_some, here]
    cases assigned with
    | @«local» slot stored found kept =>
      cases reads.symm.trans found
      exact ⟨stored, kept, rewritten_scope stored inner⟩
    | global free => rw [reads] at free; cases free
    | «symbol» free => rw [reads] at free; cases free
    | new free => rw [reads] at free; cases free
  | global _ outside here =>
    have free := local?_eq_none_iff.mpr outside
    cases assigned with
    | «local» found => rw [free] at found; cases found
    | @global slot stored _ found kept =>
      cases here.symm.trans found
      exact ⟨stored, kept, rewritten_globals stored s⟩
    | «symbol» _ unshared => rw [here] at unshared; cases unshared
    | new _ unshared => rw [here] at unshared; cases unshared
  | «symbol» _ outside unshared here =>
    have free := local?_eq_none_iff.mpr outside
    cases assigned with
    | «local» found => rw [free] at found; cases found
    | global _ found => rw [unshared] at found; cases found
    | @«symbol» stored registry _ _ kept =>
      obtain ⟨rfl, slot, found, coerced⟩ := Registry.modify_eq_ok kept
      cases here.symm.trans found
      exact ⟨stored, coerced, rewritten_symbols stored s⟩
    | new _ _ unknown =>
      rw [Registry.contains_eq, here] at unknown
      cases unknown

end State
end Guion
