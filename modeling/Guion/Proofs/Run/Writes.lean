/-
What a write to a name does, case by case.

`Assigned`, `Declared` and the equations for `delete` and `defineFunction`
say which store a write reaches, under which condition, and what the state is
behind it. A fact about writes is a case distinction over these, and never
opens the definitions again. No write changes how many scopes are open.
-/
import Guion.Proofs.Parse.Lines
import Guion.Proofs.Run.Relations

namespace Guion.State

open Evaluator

/-! ## Lists of scopes -/

@[simp] theorem length_setLocal (name : String) (value : Value) (scopes : List Scope) :
    (setLocal name value scopes).length = scopes.length := by
  induction scopes with
  | nil => rfl
  | cons scope outer ih =>
    unfold setLocal
    split
    · rfl
    · rw [List.length_cons, ih, List.length_cons]

@[simp] theorem length_eraseLocal (name : String) (scopes : List Scope) :
    (eraseLocal name scopes).length = scopes.length := by
  induction scopes with
  | nil => rfl
  | cons scope outer ih =>
    unfold eraseLocal
    split
    · rfl
    · rw [List.length_cons, ih, List.length_cons]

@[simp] theorem length_defineInFrame (name : String) (value : Value) (scopes : List Scope) :
    (defineInFrame name value scopes).length = scopes.length := by
  induction scopes with
  | nil => rfl
  | cons scope outer ih =>
    cases outer with
    | nil => rfl
    | cons next rest => simpa [defineInFrame] using ih

/-- A binding in the innermost scope changes nothing else. -/
theorem defineLocal_eq (name : String) (value : Value) (s : State) :
    ∃ scopes, s.defineLocal name value = { s with scopes := scopes } ∧ scopes.length = s.scopes.length := by
  unfold defineLocal
  cases hs : s.scopes with
  | nil => exact ⟨s.scopes, rfl, by rw [hs]⟩
  | cons scope outer => exact ⟨_, rfl, rfl⟩

/-- A loop variable is bound in some scope, and nothing else changes. -/
theorem bindLoopVariable_eq (name : String) (value : Value) (s : State) :
    ∃ scopes, s.bindLoopVariable name value = { s with scopes := scopes } ∧
      scopes.length = s.scopes.length := by
  unfold bindLoopVariable
  split
  · exact ⟨_, rfl, length_setLocal name value s.scopes⟩
  · exact defineLocal_eq name value s

/-! ## Properties of all scopes -/

section Scopes

variable {P : Scope → Prop} {name : String} {value : Value} {scopes : List Scope}

theorem forall_setLocal (keeps : ∀ scope, P scope → P (Entries.insert name value scope))
    (h : ∀ scope ∈ scopes, P scope) : ∀ scope ∈ setLocal name value scopes, P scope := by
  induction scopes with
  | nil => exact h
  | cons scope outer ih =>
    obtain ⟨here, h⟩ := List.forall_mem_cons.mp h
    unfold setLocal
    split
    · exact List.forall_mem_cons.mpr ⟨keeps scope here, h⟩
    · exact List.forall_mem_cons.mpr ⟨here, ih h⟩

theorem forall_eraseLocal (keeps : ∀ scope, P scope → P (Entries.erase name scope))
    (h : ∀ scope ∈ scopes, P scope) : ∀ scope ∈ eraseLocal name scopes, P scope := by
  induction scopes with
  | nil => exact h
  | cons scope outer ih =>
    obtain ⟨here, h⟩ := List.forall_mem_cons.mp h
    unfold eraseLocal
    split
    · exact List.forall_mem_cons.mpr ⟨keeps scope here, h⟩
    · exact List.forall_mem_cons.mpr ⟨here, ih h⟩

theorem forall_defineInFrame (keeps : ∀ scope, P scope → P (Entries.insert name value scope))
    (h : ∀ scope ∈ scopes, P scope) : ∀ scope ∈ defineInFrame name value scopes, P scope := by
  induction scopes with
  | nil => exact h
  | cons scope outer ih =>
    obtain ⟨here, h⟩ := List.forall_mem_cons.mp h
    cases outer with
    | nil => exact List.forall_mem_cons.mpr ⟨keeps scope here, h⟩
    | cons next rest => exact List.forall_mem_cons.mpr ⟨here, ih h⟩

theorem forall_defineLocal (keeps : ∀ scope, P scope → P (Entries.insert name value scope)) {s : State}
    (h : ∀ scope ∈ s.scopes, P scope) : ∀ scope ∈ (s.defineLocal name value).scopes, P scope := by
  unfold defineLocal
  split
  · next hs =>
    rw [hs] at h
    obtain ⟨here, h⟩ := List.forall_mem_cons.mp h
    exact List.forall_mem_cons.mpr ⟨keeps _ here, h⟩
  · exact h

theorem forall_bindLoopVariable (keeps : ∀ scope, P scope → P (Entries.insert name value scope)) {s : State}
    (h : ∀ scope ∈ s.scopes, P scope) : ∀ scope ∈ (s.bindLoopVariable name value).scopes, P scope := by
  unfold bindLoopVariable
  split
  · exact forall_setLocal keeps h
  · exact forall_defineLocal keeps h

theorem forall_popScope {s : State} (h : ∀ scope ∈ s.scopes, P scope) : ∀ scope ∈ s.popScope.scopes, P scope := by
  unfold popScope
  split
  · next hs => rw [hs] at h; exact (List.forall_mem_cons.mp h).2
  · exact h

end Scopes

/-! ## Assignments -/

/-- What an assignment to a name that is no constant does: it writes to a local,
a global or a symbol, in the kind that this has, or it makes a new variable
of the frame. -/
inductive Assigned (name : String) (value : Value) (s : State) : State → Prop
  | «local» {slot stored} (found : local? name s.scopes = some slot)
      (kept : slot.overwrite value = .ok stored) :
      Assigned name value s
        { s with scopes := setLocal name stored s.scopes, registry := s.published name stored }
  | global {slot stored} (free : local? name s.scopes = none)
      (found : Entries.get? name s.globals = some slot) (kept : slot.overwrite value = .ok stored) :
      Assigned name value s { s with globals := Entries.insert name stored s.globals }
  | «symbol» {stored registry} (free : local? name s.scopes = none)
      (unshared : Entries.get? name s.globals = none)
      (kept : s.registry.modify name value = .ok (stored, registry)) :
      Assigned name value s { s with registry := registry }
  | new (free : local? name s.scopes = none) (unshared : Entries.get? name s.globals = none)
      (unknown : s.registry.contains name = false) :
      Assigned name value s { s with scopes := defineInFrame name value s.scopes }

theorem assigned_of_assignVariable {name : String} {value : Value} {line : Nat} {s t : State}
    (h : s.assignVariable name value line = .ok t) : Assigned name value s t := by
  unfold assignVariable at h
  split at h
  · cases h
  split at h
  · next slot found =>
    split at h
    · next stored kept => cases h; exact .local found kept
    · cases h
  next free =>
  split at h
  · next slot found =>
    split at h
    · next stored kept => cases h; exact .global free found kept
    · cases h
  next unshared =>
  split at h
  · split at h
    · next stored registry kept => cases h; exact .symbol free unshared kept
    · cases h
  · next unknown => cases h; exact .new free unshared (by simpa using unknown)

/-! ## Declarations -/

/-- What a declaration of one name does with the value that the name starts with. -/
inductive Declared (name : String) (s : State) : State → Prop
  /-- A variable of a function. -/
  | «local» (value : Value) (inside : s.inFunction = true) : Declared name s (s.defineLocal name value)
  /-- A variable of a program. -/
  | «variable» {value stored registry} (outside : s.inFunction = false)
      (kept : s.registry.redeclare name value = .ok (stored, registry)) :
      Declared name s ({ s with registry := registry }.defineLocal name stored)
  | global (value : Value) : Declared name s { s with globals := Entries.insert name value s.globals }
  | constant (value : Value) (free : Entries.contains name s.constants = false) :
      Declared name s { s with constants := Entries.insert name value s.constants }

theorem declared_of_declareName {scope : DeclarationScope} {type : Option TypeSpec}
    {initial : Option Value} {line : Nat} {name : String} {s t : State}
    (h : declareName scope type initial line name s = .ok t) : Declared name s t := by
  obtain ⟨value, -, h⟩ := Except.bind_eq_ok.mp h
  cases scope with
  | «variable» =>
    dsimp only at h
    split at h
    · next inside => cases h; exact .local value inside
    · next outside =>
      obtain ⟨⟨stored, registry⟩, kept, h⟩ := Except.bind_eq_ok.mp h
      have redeclared : s.registry.redeclare name value = .ok (stored, registry) := by
        cases hr : s.registry.redeclare name value with
        | error e => rw [hr] at kept; cases kept
        | ok found => rw [hr] at kept; cases kept; rfl
      cases h
      exact .variable (by simpa using outside) redeclared
  | global => cases h; exact .global value
  | constant =>
    dsimp only at h
    split at h
    · cases h
    · next free => cases h; exact .constant value (by simpa using free)

/-! ## Deletions and definitions -/

theorem delete_eq_ok {name : String} {line : Nat} {s t : State} {value : Value}
    (h : s.delete name line = .ok (value, t)) :
    t = { s with
      scopes := eraseLocal name s.scopes
      registry := { s.registry with symbols := Entries.erase name s.registry.symbols }
      globals := Entries.erase name s.globals } := by
  unfold delete at h
  split at h
  · cases h
  dsimp only at h
  split at h
  · cases h
  · cases h; rfl

theorem defineFunction_eq_ok {function : FunctionDef} {s t : State}
    (h : defineFunction function s = .ok t) :
    t = { s with functions := Entries.insert function.signature.name function s.functions } := by
  unfold defineFunction at h
  dsimp only at h
  split at h
  · cases h
  split at h
  · cases h
  · cases h; rfl

/-- A function is defined under a name that no function has, in any case of a
built-in one. -/
theorem free_of_defineFunction {function : FunctionDef} {s t : State} (h : defineFunction function s = .ok t) :
    Library.isBuiltin (Text.lowerString function.signature.name) = false ∧
      Entries.get? function.signature.name s.functions = none := by
  unfold defineFunction at h
  dsimp only at h
  split at h
  · cases h
  next unreserved =>
  split at h
  · cases h
  next unused =>
  have unused : Entries.contains function.signature.name s.functions = false := by simpa using unused
  exact ⟨by simpa using unreserved, by simpa [Entries.contains] using unused⟩

end Guion.State
