/-
What is asked of the values of a state.

A state meets a standard when every value in its stores does, in the strict
form: in the scopes, the constants, the globals and the registry. If the
standard asks for maps, the stores are maps too. Part of it is what makes values
later: the constructors of the registry, and the bodies of the functions, whose
literals are spelled.

Every read gives a value that meets the standard, and every write of such a
value leaves a state that meets it. Two writes make another value of the one
that they are given. A value that was changed in place may have lost the cells
of its matrices; assigned to a name, it is coerced to the kind of the slot, which
checks a matrix but nothing inside a list or a dictionary. And a text that is
written to a complex slot is read as a complex number, which is not checked. So
the lemmas are about any property that the values of a state may have (`Hold`).
`assigned_stored` says that the state is fine when what the name holds then is,
and `Hold.of_passes` that a state is whose complex numbers pass a check.
-/
import Guion.Proofs.Operator.Standard
import Guion.Proofs.Parse.Spelled
import Guion.Proofs.Run.Bindings

namespace Guion

open Evaluator

/-- All values of a store have a property. If the standard asks for maps, it is one. -/
structure Entries.Hold (std : Standard) (P : Value → Prop) (entries : Entries Value) : Prop where
  ascending : std.maps → entries.Ascending
  values : ∀ e ∈ entries, P e.2

structure World.Hold (std : Standard) (P : Value → Prop) (w : World) : Prop where
  globals : w.globals.Hold std P
  symbols : w.registry.symbols.Hold std P
  constructors : w.registry.Constructs std

structure Context.Hold (std : Standard) (P : Value → Prop) (c : Context) : Prop where
  scopes : ∀ scope ∈ c.scopes, Entries.Hold std P scope
  constants : c.constants.Hold std P
  functions : ∀ e ∈ c.functions, e.2.body.Spelled

/-- All values of a state have a property. -/
structure State.Hold (std : Standard) (P : Value → Prop) (s : State) : Prop where
  world : s.toWorld.Hold std P
  context : s.toContext.Hold std P

/-- All values of a store meet the standard. -/
abbrev Entries.Meet (std : Standard) (entries : Entries Value) : Prop := entries.Hold std (Value.Meets std true)

abbrev World.Meets (std : Standard) (w : World) : Prop := w.Hold std (Value.Meets std true)

abbrev Context.Meets (std : Standard) (c : Context) : Prop := c.Hold std (Value.Meets std true)

abbrev State.Meets (std : Standard) (s : State) : Prop := s.Hold std (Value.Meets std true)

variable {std : Standard} {P : Value → Prop}

namespace Entries

theorem Hold.nil : Hold std P [] := ⟨fun _ => .nil, fun _ h => nomatch h⟩

theorem Hold.singleton (name : String) {v : Value} (hv : P v) : Hold std P [(name, v)] :=
  ⟨fun _ => List.pairwise_singleton _ _, List.forall_mem_singleton.mpr hv⟩

theorem Hold.get? {entries : Entries Value} (h : entries.Hold std P) {name : String} {v : Value}
    (found : Entries.get? name entries = some v) : P v := h.values _ (mem_of_get? found)

theorem Hold.insert {entries : Entries Value} (h : entries.Hold std P) (name : String) {v : Value} (hv : P v) :
    Hold std P (Entries.insert name v entries) := by
  refine ⟨fun maps => (h.ascending maps).insert name v, fun e he => ?_⟩
  obtain rfl | he := mem_of_mem_insert he
  · exact hv
  · exact h.values e he

theorem Hold.erase {entries : Entries Value} (h : entries.Hold std P) (name : String) :
    Hold std P (Entries.erase name entries) :=
  ⟨fun maps => (h.ascending maps).erase name, fun e he => h.values e (mem_of_mem_erase he)⟩

theorem Hold.override {below above : Entries Value} (h : below.Hold std P) (ha : above.Hold std P) :
    Hold std P (Entries.override below above) :=
  ⟨fun maps => (h.ascending maps).override above,
    fun e he => (mem_of_mem_override he).elim (h.values e) (ha.values e)⟩

theorem Hold.mono {Q : Value → Prop} {entries : Entries Value} (h : entries.Hold std P)
    (weaken : ∀ e ∈ entries, P e.2 → Q e.2) : entries.Hold std Q :=
  ⟨h.ascending, fun e he => weaken e he (h.values e he)⟩

end Entries

namespace State

/-! ## Locals -/

theorem local?_holds {name : String} {v : Value} {scopes : List Scope} (h : ∀ scope ∈ scopes, ∀ e ∈ scope, P e.2)
    (found : local? name scopes = some v) : P v := by
  induction scopes with
  | nil => cases found
  | cons scope outer ih =>
    obtain ⟨here, h⟩ := List.forall_mem_cons.mp h
    unfold local? at found
    split at found
    · next hv => cases found; exact here _ (Entries.mem_of_get? hv)
    · exact ih h found

theorem local?_setLocal_self {name : String} {slot : Value} (v : Value) {scopes : List Scope}
    (found : local? name scopes = some slot) : local? name (setLocal name v scopes) = some v := by
  induction scopes with
  | nil => cases found
  | cons scope outer ih =>
    cases hs : Entries.get? name scope with
    | some w => rw [setLocal, if_pos (by simp [Entries.contains, hs]), local?, Entries.get?_insert_self]
    | none =>
      rw [local?, hs] at found
      rw [setLocal, if_neg (by simp [Entries.contains, hs]), local?, hs]
      exact ih found

theorem local?_defineInFrame_self {name : String} (v : Value) {scopes : List Scope} (opened : scopes ≠ [])
    (free : local? name scopes = none) : local? name (defineInFrame name v scopes) = some v := by
  induction scopes with
  | nil => exact absurd rfl opened
  | cons scope outer ih =>
    cases outer with
    | nil => rw [defineInFrame, local?, Entries.get?_insert_self]
    | cons next rest =>
      cases hs : Entries.get? name scope with
      | some w => rw [local?, hs] at free; cases free
      | none =>
        rw [local?, hs] at free
        rw [defineInFrame, local?, hs]
        · exact ih (List.cons_ne_nil _ _) free
        · exact List.cons_ne_nil _ _

variable {s t : State}

/-! ## Reads -/

/-- What a name holds has the property. -/
theorem Hold.lookup (h : s.Hold std P) {name : String} {v : Value} (found : s.lookup name = some v) : P v := by
  unfold State.lookup at found
  split at found
  · next hc => cases found; exact h.context.constants.get? hc
  split at found
  · next hl => cases found; exact local?_holds (fun scope hs => (h.context.scopes scope hs).values) hl
  split at found
  · next hg => cases found; exact h.world.globals.get? hg
  · exact h.world.symbols.get? found

theorem Hold.deref (h : s.Hold std (Value.Meets std true)) {v target : Value} (hv : v.Meets std true) {line : Nat}
    (found : s.deref v line = .ok target) : target.Meets std true := by
  unfold State.deref at found
  split at found
  · split at found
    · next hl => cases found; exact h.lookup hl
    · cases found
  · cases found; exact Value.meets_valuePointer.mp hv
  · cases found
  · cases found
  · cases found

theorem Hold.followWithin (h : s.Hold std (Value.Meets std true)) {line : Nat} (count : Nat) {v target : Value}
    (hv : v.Meets std true) (found : s.followWithin line count v = .ok target) : target.Meets std true := by
  induction count generalizing v with
  | zero => cases found
  | succ count ih =>
    rw [State.followWithin] at found
    split at found
    · split at found
      · next next hd => exact ih (h.deref hv hd) found
      · cases found
    · cases found; exact hv

theorem Hold.follow (h : s.Hold std (Value.Meets std true)) {v target : Value} (hv : v.Meets std true) {line : Nat}
    (found : s.follow v line = .ok target) : target.Meets std true :=
  h.followWithin maxCallDepth hv found

/-! ## All values of a state -/

/-- The maps of a state that hold values. -/
def stores (s : State) : List (Entries Value) := s.registry.symbols :: s.globals :: s.constants :: s.scopes

/-- The values that a state holds. -/
def values (s : State) : List Value := s.stores.flatMap Entries.values

theorem mem_values {v : Value} : v ∈ s.values ↔ ∃ entries ∈ s.stores, ∃ e ∈ entries, e.2 = v := by
  simp [values, Entries.values]

theorem lookup_mem_values {name : String} {v : Value} (found : s.lookup name = some v) : v ∈ s.values := by
  have held : ∀ entries ∈ s.stores, ∀ e ∈ entries, e.2 ∈ s.values :=
    fun entries hs e he => mem_values.mpr ⟨entries, hs, e, he, rfl⟩
  simp only [stores, List.forall_mem_cons] at held
  obtain ⟨symbols, globals, constants, scopes⟩ := held
  unfold State.lookup at found
  split at found
  · next hc => cases found; exact constants _ (Entries.mem_of_get? hc)
  split at found
  · next hl => cases found; exact local?_holds scopes hl
  split at found
  · next hg => cases found; exact globals _ (Entries.mem_of_get? hg)
  · exact symbols _ (Entries.mem_of_get? found)

theorem Hold.mono {Q : Value → Prop} (h : s.Hold std P) (weaken : ∀ v ∈ s.values, P v → Q v) : s.Hold std Q := by
  have held : ∀ entries ∈ s.stores, Entries.Hold std P entries → Entries.Hold std Q entries :=
    fun entries hm he => he.mono fun e hme => weaken e.2 (mem_values.mpr ⟨entries, hm, e, hme, rfl⟩)
  simp only [stores, List.forall_mem_cons] at held
  obtain ⟨symbols, globals, constants, scopes⟩ := held
  exact ⟨⟨globals h.world.globals, symbols h.world.symbols, h.world.constructors⟩,
    ⟨fun scope hs => scopes scope hs (h.context.scopes scope hs), constants h.context.constants, h.context.functions⟩⟩

/-- A state whose values owe the standard a check of their complex numbers meets it if
they pass. -/
theorem Hold.of_passes {check : Complex → Bool} (sound : ∀ z, check z = true → std.complex z)
    (h : s.Hold std (Value.Owes std true)) (passes : s.values.all (Value.passes (Value.onComplex check)) = true) :
    s.Meets std :=
  h.mono fun v hv owes => owes check sound (List.all_eq_true.mp passes v hv)

theorem Hold.owes (h : s.Meets std) : s.Hold std (Value.Owes std true) := h.mono fun _ _ meets => meets.owes

/-! ## Writes -/

theorem Hold.defineLocal (h : s.Hold std P) (name : String) {v : Value} (hv : P v) :
    (s.defineLocal name v).Hold std P := by
  have scopes : ∀ scope ∈ (s.defineLocal name v).scopes, Entries.Hold std P scope :=
    forall_defineLocal (fun _ here => here.insert name hv) h.context.scopes
  obtain ⟨_, he, -⟩ := defineLocal_eq name v s
  rw [he] at scopes ⊢
  exact ⟨h.world, { h.context with scopes := scopes }⟩

theorem Hold.bindLoopVariable (h : s.Hold std P) (name : String) {v : Value} (hv : P v) :
    (s.bindLoopVariable name v).Hold std P := by
  have scopes : ∀ scope ∈ (s.bindLoopVariable name v).scopes, Entries.Hold std P scope :=
    forall_bindLoopVariable (fun _ here => here.insert name hv) h.context.scopes
  obtain ⟨_, he, -⟩ := bindLoopVariable_eq name v s
  rw [he] at scopes ⊢
  exact ⟨h.world, { h.context with scopes := scopes }⟩

theorem Hold.put (h : s.Hold std P) (name : String) {v : Value} (hv : P v) :
    State.Hold std P { s with registry := s.registry.put name v } :=
  ⟨{ h.world with symbols := h.world.symbols.insert name hv }, h.context⟩

theorem Hold.published (h : s.Hold std P) (name : String) {v : Value} (hv : P v) :
    State.Hold std P { s with registry := s.published name v } := by
  unfold State.published
  split
  · exact h.put name hv
  · exact h

theorem Hold.delete (h : s.Hold std P) {name : String} {line : Nat} {v : Value}
    (deleted : s.delete name line = .ok (v, t)) : P v ∧ t.Hold std P := by
  refine ⟨?_, ?_⟩
  · unfold State.delete at deleted
    split at deleted
    · cases deleted
    dsimp only at deleted
    split at deleted
    · cases deleted
    next found =>
    cases deleted
    split at found
    · next hl => cases found; exact local?_holds (fun scope hs => (h.context.scopes scope hs).values) hl
    split at found
    · next hr => cases found; exact h.world.symbols.get? hr
    · exact h.world.globals.get? found
  · rw [delete_eq_ok deleted]
    exact ⟨{ h.world with symbols := h.world.symbols.erase name, globals := h.world.globals.erase name },
      { h.context with scopes := forall_eraseLocal (fun _ here => here.erase name) h.context.scopes }⟩

theorem Hold.defineFunction (h : s.Hold std P) {function : FunctionDef}
    (defined : Evaluator.defineFunction function s = .ok t) (hf : function.body.Spelled) : t.Hold std P := by
  rw [defineFunction_eq_ok defined]
  refine ⟨h.world, { h.context with functions := fun e he => ?_ }⟩
  obtain rfl | he := Entries.mem_of_mem_insert he
  · exact hf
  · exact h.context.functions e he

theorem Hold.print (h : s.Hold std P) (line : String) : (s.print line).Hold std P :=
  ⟨{ h.world with }, h.context⟩

theorem Hold.merge (h : s.Hold std P) {own : Entries Value} (ho : own.Hold std P) :
    State.Hold std P { s with globals := Entries.override s.globals own } :=
  ⟨{ h.world with globals := h.world.globals.override ho }, h.context⟩

section Coercing

variable (closed : std.Closed) {strict : Bool}
include closed

/-- **What an assignment stores.** It owes the standard as strictly as the value
assigned meets it; if it has the property of the values of the state, they all
have it behind. And the name reads it then, unless nothing was stored. -/
theorem assigned_stored (h : s.Hold std P) {name : String} {v : Value} (hv : v.Meets std strict) {line : Nat}
    (assigned : s.assignVariable name v line = .ok t) :
    ∃ stored, stored.Owes std strict ∧ (P stored → t.Hold std P) ∧
      (t.lookup name = some stored ∨ t.Hold std P) := by
  have unfixed : Entries.get? name s.constants = none := by
    unfold assignVariable at assigned
    split at assigned
    · cases assigned
    · next free => simpa [Entries.contains] using free
  cases assigned_of_assignVariable assigned with
  | @«local» slot stored found kept =>
    refine ⟨stored, Value.coerce_owes closed hv kept, fun hs => ?_, .inl ?_⟩
    · have scopes : ∀ scope ∈ setLocal name stored s.scopes, Entries.Hold std P scope :=
        forall_setLocal (fun _ here => here.insert name hs) h.context.scopes
      exact ⟨(h.published name hs).world, { h.context with scopes := scopes }⟩
    · simp only [lookup_eq_or, unfixed, local?_setLocal_self stored found, Option.none_or, Option.some_or]
  | @global slot stored free found kept =>
    refine ⟨stored, Value.coerce_owes closed hv kept, fun hs => ?_, .inl ?_⟩
    · exact ⟨{ h.world with globals := h.world.globals.insert name hs }, h.context⟩
    · simp only [lookup_eq_or, unfixed, free, Entries.get?_insert_self, Option.none_or, Option.some_or]
  | @«symbol» stored registry free unshared kept =>
    obtain ⟨rfl, slot, -, kept⟩ := Registry.modify_eq_ok kept
    refine ⟨stored, Value.coerce_owes closed hv kept, fun hs => h.put name hs, .inl ?_⟩
    simp only [lookup_eq_or, unfixed, free, unshared, Registry.get?_put_self, Option.none_or]
  | new free unshared unknown =>
    refine ⟨v, hv.owes, fun hs => ?_, ?_⟩
    · exact ⟨h.world, { h.context with
        scopes := forall_defineInFrame (fun _ here => here.insert name hs) h.context.scopes }⟩
    · by_cases opened : s.scopes = []
      · refine .inr ⟨h.world, { h.context with scopes := ?_ }⟩
        rw [opened]
        exact List.forall_mem_nil _
      · refine .inl ?_
        simp only [lookup_eq_or, unfixed, local?_defineInFrame_self v opened free, Option.none_or, Option.some_or]

/-- **A declaration from a value that meets the standard** leaves a state whose values
owe it a check of their complex numbers, if they did before. -/
theorem Hold.declareName (h : s.Hold std (Value.Owes std true)) {scope : DeclarationScope} {type : Option TypeSpec}
    {initial : Option Value} (hi : ∀ v ∈ initial, v.Meets std true) {line : Nat} {name : String}
    (declared : Evaluator.declareName scope type initial line name s = .ok t) :
    t.Hold std (Value.Owes std true) := by
  obtain ⟨value, made, declared⟩ := Except.bind_eq_ok.mp declared
  have hv : value.Owes std true := by
    unfold declaredValue at made
    split at made
    · exact Registry.constructTyped_owes h.world.constructors hi closed (Except.mapError_eq_ok.mp made)
    · cases made
      cases initial with
      | none => exact Value.Meets.owes (.simple rfl)
      | some v => exact (hi v rfl).owes
  cases scope with
  | «variable» =>
    dsimp only at declared
    split at declared
    · cases declared; exact h.defineLocal name hv
    obtain ⟨⟨stored, registry⟩, kept, ends⟩ := Except.bind_eq_ok.mp declared
    obtain ⟨rfl, rfl⟩ := Registry.redeclare_eq_ok (Except.mapError_eq_ok.mp kept)
    cases ends
    exact (h.put name hv).defineLocal name hv
  | global =>
    cases declared
    exact ⟨{ h.world with globals := h.world.globals.insert name hv }, h.context⟩
  | constant =>
    dsimp only at declared
    split at declared
    · cases declared
    · cases declared
      exact ⟨h.world, { h.context with constants := h.context.constants.insert name hv }⟩

end Coercing

/-! ## Scopes, calls and programs -/

theorem Hold.leave (h : s.Hold std P) {enter leave} (he : Encloses enter leave s) (ht : t.Hold std P) :
    (leave s t).Hold std P := by
  cases he with
  | block =>
    have scopes := forall_popScope ht.context.scopes
    obtain ⟨rest, hp, -⟩ := popScope_eq t
    show t.popScope.Hold std P
    rw [hp] at scopes ⊢
    exact ⟨ht.world, { ht.context with scopes := scopes }⟩
  | loop => exact ⟨ht.world, { ht.context with }⟩
  | stream => exact ⟨{ ht.world with }, ht.context⟩
  | reading => exact ⟨{ ht.world with }, ht.context⟩
  | call frame => exact ⟨ht.world, { ht.context with scopes := h.context.scopes }⟩

end State

/-- A program starts in a context that meets the standard. -/
theorem Context.initial_meets {arguments : List Value} (ha : ∀ v ∈ arguments, v.Meets std true) :
    (Context.initial arguments).Meets std where
  scopes := List.forall_mem_singleton.mpr (.singleton argumentsName (.list ha))
  constants := .nil
  functions := fun _ h => nomatch h

/-- What a program defined meets the standard. -/
theorem Context.Meets.bindings {context : Context} (h : context.Meets std) :
    Entries.Meet std context.bindings := by
  refine Entries.Hold.override ?_ h.constants
  unfold Context.frame
  rw [List.getLastD_eq_getLast?]
  cases hl : context.scopes.getLast? with
  | none => exact .nil
  | some frame => exact h.scopes frame (List.mem_of_getLast? hl)

/-- The frame of a call owes the standard a check of its complex numbers. -/
theorem Registry.bindParams_owes {r : Registry} (made : r.Constructs std) {line : Nat} {params : List Param}
    {arguments : List Value} {frame final : Scope} (ha : ∀ v ∈ arguments, v.Meets std true)
    (hf : Entries.Hold std (Value.Owes std true) frame) (h : r.bindParams line frame params arguments = .ok final) :
    Entries.Hold std (Value.Owes std true) final := by
  induction params generalizing arguments frame with
  | nil => cases arguments <;> (cases h; exact hf)
  | cons param params ih =>
    cases arguments with
    | nil => cases h; exact hf
    | cons argument arguments =>
      obtain ⟨here, ha⟩ := List.forall_mem_cons.mp ha
      rw [Registry.bindParams] at h
      split at h
      · obtain ⟨value, hv, h⟩ := Except.bind_eq_ok.mp h
        have owes := construct_owes made (by simpa using here) (Except.mapError_eq_ok.mp hv)
        exact ih ha (hf.insert param.name owes) h
      · exact ih ha (hf.insert param.name here.owes) h

/-- The result of a function meets the standard in the kind that it returns, which is
not complex. -/
theorem ReturnKind.convert_meets (closed : std.Closed) {returns : ReturnKind} {v w : Value} {line : Nat}
    (hv : v.Meets std true) (h : returns.convert v line = .ok w) : w.Meets std true := by
  unfold ReturnKind.convert at h
  split at h
  · cases h; exact hv
  next kind hk =>
  split at h
  · cases h; exact hv
  · have coerced := Except.mapError_eq_ok.mp h
    obtain meets | ⟨_, z, -, -, rfl⟩ := Value.coerce_meets closed hv coerced
    · exact meets
    · obtain rfl : Kind.complex = kind := Value.coerce_kind coerced
      cases returns <;> cases hk

end Guion
