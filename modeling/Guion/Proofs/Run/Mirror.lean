/-
Program variables have two copies, one in the frame and one in the registry.

The copies of a name agree if they are equal where both are there (`Coherent`). A
name is looked at across the scopes, as a column, and it is `Unshadowed` if an
inner scope has it only where the frame does not. Then the local that an
assignment finds is the copy in the frame, or there is none
(`last_setLocal`). A write to one name leaves the columns of all others as they
were.
-/
import Guion.Proofs.Entries
import Guion.Proofs.Run.Writes
import Guion.Proofs.Value.Coerced

namespace Guion

open Evaluator

/-! ## Symbols -/

namespace Registry

theorem contains_eq (name : String) (r : Registry) : r.contains name = (r.get? name).isSome := rfl

theorem get?_put_self (name : String) (value : Value) (r : Registry) : (r.put name value).get? name = some value :=
  Entries.get?_insert_self name value r.symbols

theorem get?_put_of_ne {name other : String} (h : other ≠ name) (value : Value) (r : Registry) :
    (r.put name value).get? other = r.get? other :=
  Entries.get?_insert_of_ne h value r.symbols

/-- A modified symbol was there, and holds the new value in the kind of the old one. -/
theorem modify_eq_ok {name : String} {value stored : Value} {r r' : Registry}
    (h : r.modify name value = .ok (stored, r')) :
    r' = r.put name stored ∧ ∃ slot, r.get? name = some slot ∧ slot.overwrite value = .ok stored := by
  unfold modify at h
  split at h
  · cases h
  · next slot found =>
    split at h
    · next kept => cases h; exact ⟨rfl, slot, found, kept⟩
    · cases h

/-- A symbol that is declared again holds the new value as it is. -/
theorem redeclare_eq_ok {name : String} {value stored : Value} {r r' : Registry}
    (h : r.redeclare name value = .ok (stored, r')) : r' = r.put name stored ∧ stored = value := by
  unfold redeclare at h
  split at h
  · cases h; exact ⟨rfl, rfl⟩
  next existing found =>
  split at h
  · next same =>
    obtain ⟨put, slot, known, kept⟩ := modify_eq_ok h
    obtain rfl : existing = slot := Option.some.inj (found.symm.trans known)
    rw [Value.overwrite, same] at kept
    exact ⟨put, Value.coerce_own kept⟩
  · cases h; exact ⟨rfl, rfl⟩

end Registry

/-! ## One name across the scopes -/

namespace State

/-- What the scopes have under a name. -/
def column (name : String) (scopes : List Scope) : List (Option Value) := scopes.map (Entries.get? name)

/-- An inner scope has the name only if the frame does not. The frame comes last. -/
def Unshadowed : List (Option Value) → Prop
  | [] => True
  | v :: outer => Unshadowed outer ∧ (v = none ∨ outer.getLastD none = none)

variable {name other : String}

theorem column_setLocal (h : other ≠ name) (value : Value) (scopes : List Scope) :
    column other (setLocal name value scopes) = column other scopes := by
  induction scopes with
  | nil => rfl
  | cons scope outer ih =>
    unfold setLocal
    split
    · simp only [column, List.map_cons, Entries.get?_insert_of_ne h]
    · simpa [column] using ih

theorem column_eraseLocal (h : other ≠ name) (scopes : List Scope) :
    column other (eraseLocal name scopes) = column other scopes := by
  induction scopes with
  | nil => rfl
  | cons scope outer ih =>
    unfold eraseLocal
    split
    · simp only [column, List.map_cons, Entries.get?_erase_of_ne h]
    · simpa [column] using ih

theorem column_defineInFrame (h : other ≠ name) (value : Value) (scopes : List Scope) :
    column other (defineInFrame name value scopes) = column other scopes := by
  induction scopes with
  | nil => rfl
  | cons scope outer ih =>
    cases outer with
    | nil => simp only [defineInFrame, column, List.map_cons, Entries.get?_insert_of_ne h]
    | cons next rest => simpa [defineInFrame, column] using ih

theorem column_defineLocal (h : other ≠ name) (value : Value) (s : State) :
    column other (s.defineLocal name value).scopes = column other s.scopes := by
  unfold defineLocal
  split
  · next hs => simp only [hs, column, List.map_cons, Entries.get?_insert_of_ne h]
  · rfl

theorem column_bindLoopVariable (h : other ≠ name) (value : Value) (s : State) :
    column other (s.bindLoopVariable name value).scopes = column other s.scopes := by
  unfold bindLoopVariable
  split
  · exact column_setLocal h value s.scopes
  · exact column_defineLocal h value s

variable {value : Value} {scope : Scope} {scopes : List Scope}

/-- The copy of a name in the frame stands last in its column. -/
theorem get?_frame (name : String) (s : State) :
    Entries.get? name s.toContext.frame = (column name s.scopes).getLastD none := by
  unfold Context.frame column
  rw [List.getLastD_eq_getLast?, List.getLastD_eq_getLast?, List.getLast?_map]
  cases s.scopes.getLast? <;> rfl

theorem last_cons (v : Option Value) {outer : List (Option Value)} (h : outer ≠ []) :
    (v :: outer).getLastD none = outer.getLastD none := by
  cases outer with
  | nil => exact absurd rfl h
  | cons next rest => rfl

theorem last_none_cons (outer : List (Option Value)) : (none :: outer).getLastD none = outer.getLastD none := by
  cases outer <;> rfl

theorem last_of_local?_eq_none (free : local? name scopes = none) : (column name scopes).getLastD none = none := by
  induction scopes with
  | nil => rfl
  | cons scope outer ih =>
    cases hs : Entries.get? name scope with
    | some v => simp [local?, hs] at free
    | none =>
      cases outer with
      | nil => exact hs
      | cons next rest => exact ih (by simpa [local?, hs] using free)

theorem unshadowed_setLocal (h : Unshadowed (column name scopes)) (value : Value) :
    Unshadowed (column name (setLocal name value scopes)) := by
  induction scopes with
  | nil => trivial
  | cons scope outer ih =>
    cases hs : Entries.get? name scope with
    | none =>
      rw [setLocal, if_neg (by simp [Entries.contains, hs])]
      exact ⟨ih h.1, .inl hs⟩
    | some v =>
      rw [setLocal, if_pos (by simp [Entries.contains, hs])]
      exact ⟨h.1, .inr (h.2.resolve_left (by rw [hs]; exact Option.some_ne_none v))⟩

/-- A write to a local of a name that is not shadowed goes to the frame, or the frame
does not have the name. -/
theorem last_setLocal (h : Unshadowed (column name scopes)) (found : local? name scopes ≠ none) :
    ∀ v ∈ (column name (setLocal name value scopes)).getLastD none, v = value := by
  intro v hv
  induction scopes with
  | nil => exact absurd rfl found
  | cons scope outer ih =>
    cases hs : Entries.get? name scope with
    | none =>
      rw [setLocal, if_neg (by simp [Entries.contains, hs])] at hv
      rw [local?, hs] at found
      have more : column name (setLocal name value outer) ≠ [] := by
        intro none
        rw [column, List.map_eq_nil_iff, ← List.length_eq_zero_iff, length_setLocal, List.length_eq_zero_iff] at none
        exact found (by rw [none]; rfl)
      exact ih h.1 found (last_cons _ more ▸ hv)
    | some w =>
      rw [setLocal, if_pos (by simp [Entries.contains, hs])] at hv
      cases outer with
      | nil => exact Option.some.inj (hv.symm.trans (Entries.get?_insert_self name value scope))
      | cons next rest =>
        have free : (column name (next :: rest)).getLastD none = none :=
          h.2.resolve_left (by rw [hs]; exact Option.some_ne_none w)
        cases free.symm.trans hv

theorem unshadowed_eraseLocal (h : Unshadowed (column name scopes)) :
    Unshadowed (column name (eraseLocal name scopes)) := by
  induction scopes with
  | nil => trivial
  | cons scope outer ih =>
    cases hs : Entries.get? name scope with
    | none =>
      rw [eraseLocal, if_neg (by simp [Entries.contains, hs])]
      exact ⟨ih h.1, .inl hs⟩
    | some v =>
      rw [eraseLocal, if_pos (by simp [Entries.contains, hs])]
      exact ⟨h.1, .inr (h.2.resolve_left (by rw [hs]; exact Option.some_ne_none v))⟩

theorem unshadowed_defineInFrame (free : local? name scopes = none) (value : Value) :
    Unshadowed (column name (defineInFrame name value scopes)) := by
  induction scopes with
  | nil => trivial
  | cons scope outer ih =>
    cases hs : Entries.get? name scope with
    | some v => simp [local?, hs] at free
    | none =>
      cases outer with
      | nil => exact ⟨trivial, .inr rfl⟩
      | cons next rest => exact ⟨ih (by simpa [local?, hs] using free), .inl hs⟩

/-- A variable of the name may be declared: the frame is the innermost scope, or does
not have the name. -/
def Clear (name : String) (s : State) : Prop :=
  s.scopes.length ≤ 1 ∨ (Entries.get? name s.toContext.frame).isNone = true

theorem clear_of_defineLocal {s : State} (h : (s.defineLocal other value).Clear name) : s.Clear name := by
  unfold defineLocal at h
  split at h
  · next scope outer hs =>
    cases outer with
    | nil => exact .inl (by rw [hs]; exact Nat.le_refl 1)
    | cons next rest =>
      refine h.imp (fun one => absurd one (by simp)) fun free => ?_
      rw [get?_frame, column, List.map_cons, last_cons _ (by simp)] at free
      rw [get?_frame, hs, column, List.map_cons, last_cons _ (by simp)]
      exact free
  · exact h

/-- Behind the innermost scope the frame does not have a name that may be declared. -/
theorem last_outer {s : State} {scope : Scope} {outer : List Scope} (clear : s.Clear name)
    (hs : s.scopes = scope :: outer) : (column name outer).getLastD none = none := by
  cases outer with
  | nil => rfl
  | cons next rest =>
    obtain one | free := clear
    · rw [hs] at one; exact absurd one (by simp)
    · rw [get?_frame, hs, column, List.map_cons, last_cons _ (by simp), Option.isNone_iff_eq_none] at free
      exact free

theorem unshadowed_defineLocal {s : State} (h : Unshadowed (column name s.scopes)) (clear : s.Clear name)
    (value : Value) : Unshadowed (column name (s.defineLocal name value).scopes) := by
  unfold defineLocal
  split
  · next scope outer hs =>
    rw [hs] at h
    exact ⟨h.1, .inr (last_outer clear hs)⟩
  · exact h

/-- A declaration of the name in the frame is the only one that the frame sees. -/
theorem last_defineLocal {s : State} (clear : s.Clear name) (value : Value) :
    ∀ v ∈ Entries.get? name (s.defineLocal name value).toContext.frame, v = value := by
  intro v hv
  rw [get?_frame] at hv
  unfold defineLocal at hv
  split at hv
  · next scope outer hs =>
    have last := last_outer clear hs
    cases outer with
    | nil => exact Option.some.inj (hv.symm.trans (Entries.get?_insert_self name value scope))
    | cons next rest =>
      rw [column, List.map_cons, last_cons _ (by simp)] at hv
      cases last.symm.trans hv
  · next hs => rw [hs] at hv; cases hv

/-- A loop variable is bound in the scope that has it, or nowhere else. -/
theorem unshadowed_bindLoopVariable {s : State} (h : Unshadowed (column name s.scopes)) (value : Value) :
    Unshadowed (column name (s.bindLoopVariable name value).scopes) := by
  unfold bindLoopVariable
  cases found : local? name s.scopes with
  | some v => exact unshadowed_setLocal h value
  | none =>
    have free := last_of_local?_eq_none found
    exact unshadowed_defineLocal h (.inr (by rw [get?_frame, free]; rfl)) value

/-! ## The two copies -/

/-- The frame has no other value under the name than the symbol of that name. -/
def Coherent (name : String) (s : State) : Prop :=
  ∀ v ∈ Entries.get? name s.toContext.frame, ∀ w ∈ s.registry.get? name, v = w

/-- The symbol of the name is the one that was there before, or gone. -/
def KeepsSymbol (name : String) (s t : State) : Prop := ∀ w ∈ t.registry.get? name, s.registry.get? name = some w

variable {s t : State}

/-- A symbol follows the variable of a program that has its name. -/
theorem get?_published (value : Value) (s : State) : (s.published name value).get? other =
    if other = name ∧ s.inFunction = false ∧ (s.registry.get? name).isSome then some value
    else s.registry.get? other := by
  unfold published
  rw [Registry.contains_eq]
  split
  · next here =>
    simp only [Bool.and_eq_true, Bool.not_eq_true'] at here
    by_cases same : other = name
    · subst same
      rw [Registry.get?_put_self, if_pos ⟨rfl, here⟩]
    · rw [Registry.get?_put_of_ne same, if_neg fun h => same h.1]
  · next here =>
    simp only [Bool.and_eq_true, Bool.not_eq_true'] at here
    rw [if_neg fun h => here h.2]

theorem get?_published_of_ne (h : other ≠ name) (value : Value) (s : State) :
    (s.published name value).get? other = s.registry.get? other :=
  (get?_published value s).trans (if_neg fun same => h same.1)

theorem KeepsSymbol.refl (name : String) (s : State) : KeepsSymbol name s s := fun _ h => h

theorem KeepsSymbol.trans {u : State} (h : KeepsSymbol name s t) (h' : KeepsSymbol name t u) :
    KeepsSymbol name s u := fun w hw => h w (h' w hw)

/-- The copies still agree if the frame is what it was and the symbol is. -/
theorem Coherent.of_keepsSymbol (h : s.Coherent name)
    (frame : Entries.get? name t.toContext.frame = Entries.get? name s.toContext.frame)
    (keeps : KeepsSymbol name s t) : t.Coherent name := fun v hv w hw => h v (frame ▸ hv) w (keeps w hw)

/-- They agree if one of them is missing. -/
theorem coherent_of_frame (free : Entries.get? name t.toContext.frame = none) : t.Coherent name := fun v hv => by
  rw [free] at hv; cases hv

theorem coherent_of_symbol (free : t.registry.get? name = none) : t.Coherent name := fun v _ w hw => by
  rw [free] at hw; cases hw

end State
end Guion
