/-
What a declaration leaves when it fails, and when it does not.

A declaration gives every name the value that its type makes of the initial value,
one name after the other. The first name that is refused ends it: the names before
it stay declared (`Declarer.declareNames_outcome`). A name is refused if there is no
value for it, if it is a constant that is declared again, or if it is a symbol whose
kind does not admit the value (`Declarer.Refused`).

The built-in types make the same value for all names, and one that its own kind
admits (`Declarer.uniform`). So with them `variable` and `global` refuse the first
name or none, and a declaration of either changes everything or nothing
(`declaration_outcome`). A `constante` may still refuse a later name
(`declaration_partial`).
-/
import Guion.Proofs.Run.Stores

namespace Guion

/-! ## Values of the built-in types -/

theorem Value.sound_default (kind : Kind) : (default kind).Sound := by
  cases kind with
  | text => exact Nat.zero_le _
  | matrix => exact ⟨⟨0, List.forall_mem_nil _⟩, List.forall_mem_nil _⟩
  | _ => trivial

theorem Value.construct_sound {kind : Kind} {initial : Option Value} {v : Value} (h : construct kind initial = .ok v) :
    v.Sound := by
  cases initial with
  | none => cases h; exact sound_default kind
  | some source => exact coerce_sound h

namespace Registry

variable {r : Registry} {spec : TypeSpec} {typeName name : String} {initial : Option Value} {v w : Value}

/-- The parts of a matrix become numbers, row by row. -/
theorem coerceParts_sound {element : Kind} (sound : v.Sound) (h : coerceParts element v = .ok w) : w.Sound := by
  unfold coerceParts at h
  split at h
  · obtain ⟨items, -, rfl⟩ := Except.map_eq_ok.mp h
    trivial
  · obtain ⟨entries, -, rfl⟩ := Except.map_eq_ok.mp h
    trivial
  · next rows =>
    split at h
    · next numeric =>
      obtain ⟨coerced, made, rfl⟩ := Except.map_eq_ok.mp h
      obtain ⟨⟨width, lengths⟩, -⟩ := sound
      refine ⟨⟨width, fun row hr => ?_⟩, fun row hr cell hc => ?_⟩
      · obtain ⟨source, hs, from_row⟩ := Except.of_mem_mapM made hr
        rw [Except.length_mapM from_row, lengths source hs]
      · obtain ⟨source, -, from_row⟩ := Except.of_mem_mapM made hr
        obtain ⟨part, -, from_cell⟩ := Except.of_mem_mapM from_row hc
        exact Value.isCell_of_coerce numeric from_cell
    · cases h; exact sound
  · cases h; exact sound

/-- A type of the registry is a built-in one, and takes the value to its kind. -/
theorem constructor_builtin {constructor : Constructor} (builtin : r.constructors = withBaseTypes.constructors)
    (h : Entries.get? typeName r.constructors = some constructor) : ∃ kind, constructor = fun _ => Value.construct kind := by
  rw [builtin] at h
  obtain ⟨base, -, same⟩ := List.mem_map.mp (Entries.mem_of_get? h)
  exact ⟨base.2, (congrArg Prod.snd same).symm⟩

/-- The built-in types do not look at the name. -/
theorem construct_anonymous (builtin : r.constructors = withBaseTypes.constructors) (name other : String) :
    r.construct typeName name initial = r.construct typeName other initial := by
  unfold construct
  cases h : Entries.get? typeName r.constructors with
  | none => rfl
  | some constructor =>
    obtain ⟨kind, rfl⟩ := constructor_builtin builtin h
    rfl

theorem constructTyped_anonymous (builtin : r.constructors = withBaseTypes.constructors) (name other : String) :
    r.constructTyped spec name initial = r.constructTyped spec other initial := by
  unfold constructTyped
  cases spec.container? with
  | none => exact construct_anonymous builtin name other
  | some container => rfl

/-- The built-in types make values that their kinds admit. -/
theorem constructTyped_sound (builtin : r.constructors = withBaseTypes.constructors)
    (h : r.constructTyped spec name initial = .ok v) : v.Sound := by
  unfold constructTyped at h
  split at h
  · unfold construct at h
    split at h
    · cases h
    · next found =>
      obtain ⟨kind, rfl⟩ := constructor_builtin builtin found
      exact Value.construct_sound (Except.mapError_eq_ok.mp h)
  split at h
  · cases h
  obtain ⟨value, made, h⟩ := Except.bind_eq_ok.mp h
  have whole := Value.construct_sound (Except.mapError_eq_ok.mp made)
  split at h
  · cases h; exact whole
  split at h
  · cases h; exact whole
  · exact coerceParts_sound whole (Except.mapError_eq_ok.mp h)

/-! ## Symbols -/

/-- A name is a symbol of the kind of the value. -/
def SameKind (r : Registry) (name : String) (value : Value) : Prop :=
  ∃ existing, r.get? name = some existing ∧ existing.kind = value.kind

/-- A symbol that is declared again holds the new value, or it has the kind of this
value and does not admit it. -/
theorem redeclare_cases (r : Registry) (name : String) (value : Value) :
    (r.redeclare name value = .ok (value, r.put name value) ∧
      ∀ e, ¬ (r.SameKind name value ∧ value.coerce value.kind = .error e)) ∨
    ∃ e, r.redeclare name value = .error (.conversion e) ∧ r.SameKind name value ∧ value.coerce value.kind = .error e := by
  cases found : r.get? name with
  | none =>
    refine .inl ⟨by simp only [redeclare, found], ?_⟩
    rintro e ⟨⟨_, found', -⟩, -⟩
    cases found.symm.trans found'
  | some existing =>
    by_cases same : existing.kind = value.kind
    · cases kept : value.coerce value.kind with
      | error e =>
        refine .inr ⟨e, ?_, ⟨existing, found, same⟩, rfl⟩
        simp only [redeclare, modify, Value.overwrite, found, same, if_true, kept]
      | ok stored =>
        obtain rfl := Value.coerce_own kept
        refine .inl ⟨?_, fun e failed => by cases failed.2⟩
        simp only [redeclare, modify, Value.overwrite, found, same, if_true, kept]
    · refine .inl ⟨by simp only [redeclare, found, if_neg same], ?_⟩
      rintro e ⟨⟨_, found', same'⟩, -⟩
      cases found.symm.trans found'
      exact same same'

end Registry

/-! ## One write -/

namespace State

theorem scopeOf?_of_bound_zero {name : String} {scopes : List Scope} {value : Value}
    (h : bound name 0 scopes = some value) : scopeOf? name scopes = some 0 := by
  cases scopes with
  | nil => cases h
  | cons scope outer => exact if_pos (Option.isSome_iff_exists.mpr ⟨value, h⟩)

variable {s : State} {name other : String} (place : Store) (value : Value)

theorem get?_defineLocal (opened : s.scopes ≠ []) : place.get? other (s.defineLocal name value) =
    if other = name ∧ place = .scope 0 then some value else place.get? other s := by
  obtain ⟨scopes, he, -⟩ := defineLocal_eq name value s
  cases place with
  | scope i => simpa [Store.get?] using bound_defineLocal opened value
  | _ => rw [he]; exact (if_neg fun h => by cases h.2).symm

theorem get?_putSymbol : place.get? other { s with registry := s.registry.put name value } =
    if other = name ∧ place = .symbols then some value else place.get? other s := by
  cases place with
  | symbols =>
    refine (Entries.get?_insert value).trans ?_
    simp only [and_true]
    rfl
  | _ => exact (if_neg fun h => by cases h.2).symm

theorem get?_insertGlobal : place.get? other { s with globals := Entries.insert name value s.globals } =
    if other = name ∧ place = .globals then some value else place.get? other s := by
  cases place with
  | globals => simpa [Store.get?] using Entries.get?_insert value
  | _ => exact (if_neg fun h => by cases h.2).symm

theorem get?_insertConstant : place.get? other { s with constants := Entries.insert name value s.constants } =
    if other = name ∧ place = .constants then some value else place.get? other s := by
  cases place with
  | constants => simpa [Store.get?] using Entries.get?_insert value
  | _ => exact (if_neg fun h => by cases h.2).symm

end State

namespace Evaluator

/-! ## Declaring names -/

/-- What a declaration has for each of its names. -/
structure Declarer where
  scope : DeclarationScope
  type : Option TypeSpec
  initial : Option Value
  line : Nat

namespace Declarer

variable {d : Declarer} {s t u : State} {name : String} {names done : List String}

/-- The value that a name starts with. -/
def valueOf (d : Declarer) (s : State) (name : String) : Except RuntimeError Value :=
  declaredValue s.registry d.type name d.initial d.line

/-- The state after the declaration of one name. -/
def declareName (d : Declarer) (name : String) (s : State) : Except RuntimeError State :=
  Evaluator.declareName d.scope d.type d.initial d.line name s

def declareNames (d : Declarer) (names : List String) : Eval Unit :=
  Evaluator.declareNames d.scope d.type d.initial d.line names

/-- The stores that get the value. -/
def stores (d : Declarer) (s : State) : List Store :=
  match d.scope with
  | .variable => if s.inFunction then [.scope 0] else [.scope 0, .symbols]
  | .global => [.globals]
  | .constant => [.constants]

/-- The names have their values, and nothing else has changed. -/
structure Binds (d : Declarer) (names : List String) (s t : State) : Prop where
  here : ∀ name ∈ names, ∃ value, d.valueOf s name = .ok value ∧ ∀ place ∈ d.stores s, place.get? name t = some value
  others : ∀ place other, ¬ (other ∈ names ∧ place ∈ d.stores s) → place.get? other t = place.get? other s
  rest : ∃ scopes constants globals symbols, scopes.length = s.scopes.length ∧
    t = { s with scopes, constants, globals, registry := { s.registry with symbols } }

theorem Binds.valueOf_eq (h : d.Binds names s t) (name : String) : d.valueOf t name = d.valueOf s name := by
  obtain ⟨_, _, _, _, -, rfl⟩ := h.rest
  rfl

theorem Binds.stores_eq (h : d.Binds names s t) : d.stores t = d.stores s := by
  obtain ⟨_, _, _, _, -, rfl⟩ := h.rest
  rfl

theorem Binds.inFunction_eq (h : d.Binds names s t) : t.inFunction = s.inFunction := by
  obtain ⟨_, _, _, _, -, rfl⟩ := h.rest
  rfl

theorem Binds.opened (h : d.Binds names s t) (opened : s.scopes ≠ []) : t.scopes ≠ [] := by
  obtain ⟨scopes, _, _, _, same, rfl⟩ := h.rest
  exact fun none => opened (List.length_eq_zero_iff.mp (same ▸ List.length_eq_zero_iff.mpr none))

theorem Binds.none (d : Declarer) (s : State) : d.Binds [] s s :=
  ⟨List.forall_mem_nil _, fun _ _ _ => rfl, s.scopes, s.constants, s.globals, s.registry.symbols, rfl, rfl⟩

/-- A name that is declared twice has the value that it had. -/
theorem Binds.append (first : d.Binds done s t) (second : d.Binds names t u) : d.Binds (done ++ names) s u where
  here name hn := by
    by_cases again : name ∈ names
    · obtain ⟨value, made, written⟩ := second.here name again
      rw [first.valueOf_eq] at made
      rw [first.stores_eq] at written
      exact ⟨value, made, written⟩
    · obtain ⟨value, made, written⟩ := first.here name ((List.mem_append.mp hn).resolve_right again)
      refine ⟨value, made, fun place hp => ?_⟩
      rw [second.others place name fun h => again h.1, written place hp]
  others place other h := by
    rw [List.mem_append, or_and_right, not_or] at h
    rw [second.others place other (first.stores_eq ▸ h.2), first.others place other h.1]
  rest := by
    obtain ⟨_, _, _, _, same, rfl⟩ := first.rest
    obtain ⟨scopes, constants, globals, symbols, same', rfl⟩ := second.rest
    exact ⟨scopes, constants, globals, symbols, same'.trans same, rfl⟩

/-- One name is declared by writing its value. -/
theorem Binds.of_write {value : Value} (made : d.valueOf s name = .ok value)
    (written : ∀ place other, place.get? other t =
      if other = name ∧ place ∈ d.stores s then some value else place.get? other s)
    (rest : ∃ scopes constants globals symbols, scopes.length = s.scopes.length ∧
      t = { s with scopes, constants, globals, registry := { s.registry with symbols } }) : d.Binds [name] s t where
  here := List.forall_mem_singleton.mpr ⟨value, made, fun place hp => (written place name).trans (if_pos ⟨rfl, hp⟩)⟩
  others place other h := (written place other).trans (if_neg fun same => h ⟨List.mem_singleton.mpr same.1, same.2⟩)
  rest := rest

/-- **The declaration of a name gives it its value.** -/
theorem Binds.of_declareName (opened : s.scopes ≠ []) (h : d.declareName name s = .ok t) : d.Binds [name] s t := by
  obtain ⟨value, made, h⟩ := Except.bind_eq_ok.mp h
  obtain ⟨scope, type, initial, line⟩ := d
  cases scope with
  | «variable» =>
    dsimp only at h
    split at h
    · next inside =>
      cases h
      obtain ⟨scopes, he, same⟩ := State.defineLocal_eq name value s
      refine .of_write made (fun place other => ?_) ⟨scopes, s.constants, s.globals, s.registry.symbols, same, he⟩
      rw [State.get?_defineLocal place value opened]
      simp [stores, inside]
    · next outside =>
      obtain ⟨⟨stored, registry⟩, kept, h⟩ := Except.bind_eq_ok.mp h
      have kept := Except.mapError_eq_ok.mp kept
      cases h
      obtain ⟨redeclared, -⟩ | ⟨e, refused, -⟩ := s.registry.redeclare_cases name value
      · cases redeclared.symm.trans kept
        let u : State := { s with registry := s.registry.put name value }
        obtain ⟨scopes, he, same⟩ := State.defineLocal_eq name value u
        refine .of_write made (fun place other => ?_) ⟨scopes, s.constants, s.globals, _, same, he⟩
        rw [State.get?_defineLocal (s := u) place value opened, State.get?_putSymbol]
        have both : stores ⟨.variable, type, initial, line⟩ s = [.scope 0, .symbols] := if_neg outside
        simp only [both, List.mem_pair]
        grind
      · cases refused.symm.trans kept
  | global =>
    cases h
    refine .of_write made (fun place other => ?_) ⟨s.scopes, s.constants, _, s.registry.symbols, rfl, rfl⟩
    rw [State.get?_insertGlobal]
    simp [stores]
  | constant =>
    dsimp only at h
    split at h
    · cases h
    · cases h
      refine .of_write made (fun place other => ?_) ⟨s.scopes, _, s.globals, s.registry.symbols, rfl, rfl⟩
      rw [State.get?_insertConstant]
      simp [stores]

/-! ## Names that are refused -/

/-- The declaration of a name fails, when those before it have been declared. -/
inductive Refused (d : Declarer) (s : State) (done : List String) (name : String) : RuntimeError → Prop
  /-- There is no value for it. -/
  | unmade {cause} (failed : d.valueOf s name = .error cause) : Refused d s done name cause
  /-- It is a constant. -/
  | redefined {value} (made : d.valueOf s name = .ok value) (scope : d.scope = .constant)
      (taken : name ∈ done ∨ Entries.contains name s.constants = true) :
      Refused d s done name (.constantRedefinition name d.line)
  /-- It is a symbol, and its kind does not admit the value. -/
  | unfit {value e} (made : d.valueOf s name = .ok value) (scope : d.scope = .variable) (outside : s.inFunction = false)
      (known : name ∈ done ∨ s.registry.SameKind name value) (failed : value.coerce value.kind = .error e) :
      Refused d s done name (.registry (.conversion e) d.line)

theorem Binds.taken_iff (bound : d.Binds done s u) (scope : d.scope = .constant) (name : String) :
    Entries.contains name u.constants = true ↔ name ∈ done ∨ Entries.contains name s.constants = true := by
  have writes : Store.constants ∈ d.stores s := by simp [stores, scope]
  by_cases declared : name ∈ done
  · obtain ⟨value, -, written⟩ := bound.here name declared
    have there : Entries.get? name u.constants = some value := written .constants writes
    simp [declared, Entries.contains, there]
  · have same : Entries.get? name u.constants = Entries.get? name s.constants :=
      bound.others .constants name fun h => declared h.1
    simp [declared, Entries.contains, same]

theorem Binds.sameKind_iff {value : Value} (bound : d.Binds done s u) (made : d.valueOf s name = .ok value)
    (scope : d.scope = .variable) (outside : s.inFunction = false) :
    u.registry.SameKind name value ↔ name ∈ done ∨ s.registry.SameKind name value := by
  have writes : Store.symbols ∈ d.stores s := by simp [stores, scope, outside]
  by_cases declared : name ∈ done
  · obtain ⟨value', made', written⟩ := bound.here name declared
    cases made.symm.trans made'
    exact ⟨fun _ => .inl declared, fun _ => ⟨value, written .symbols writes, rfl⟩⟩
  · have same : u.registry.get? name = s.registry.get? name :=
      bound.others .symbols name fun h => declared h.1
    simp only [declared, false_or, Registry.SameKind, same]

theorem refused_iff_of_made {value : Value} {cause : RuntimeError} (made : d.valueOf s name = .ok value) :
    d.Refused s done name cause ↔
      (d.scope = .constant ∧ (name ∈ done ∨ Entries.contains name s.constants = true) ∧
        cause = .constantRedefinition name d.line) ∨
      (d.scope = .variable ∧ s.inFunction = false ∧ (name ∈ done ∨ s.registry.SameKind name value) ∧
        ∃ e, value.coerce value.kind = .error e ∧ cause = .registry (.conversion e) d.line) := by
  constructor
  · intro h
    cases h with
    | unmade failed => cases made.symm.trans failed
    | redefined _ scope taken => exact .inl ⟨scope, taken, rfl⟩
    | unfit made' scope outside known failed =>
      cases made.symm.trans made'
      exact .inr ⟨scope, outside, known, _, failed, rfl⟩
  · rintro (⟨scope, taken, rfl⟩ | ⟨scope, outside, known, e, failed, rfl⟩)
    · exact .redefined made scope taken
    · exact .unfit made scope outside known failed

/-- **The declaration of a name fails exactly when the name is refused.** -/
theorem declareName_eq_error (bound : d.Binds done s u) {cause : RuntimeError} :
    d.declareName name u = .error cause ↔ d.Refused s done name cause := by
  cases made : d.valueOf s name with
  | error e =>
    have failed : d.declareName name u = .error e := by
      have made : declaredValue u.registry d.type name d.initial d.line = .error e := (bound.valueOf_eq name).trans made
      rw [declareName, Evaluator.declareName, made]
      rfl
    rw [failed]
    constructor
    · rintro ⟨⟩
      exact .unmade made
    · intro h
      cases h with
      | unmade failed => cases made.symm.trans failed; rfl
      | redefined made' => cases made.symm.trans made'
      | unfit made' => cases made.symm.trans made'
  | ok value =>
    have taken := fun scope => bound.taken_iff scope name
    have known := fun scope outside => bound.sameKind_iff made scope outside
    have level := bound.inFunction_eq
    rw [refused_iff_of_made made]
    have made : declaredValue u.registry d.type name d.initial d.line = .ok value := (bound.valueOf_eq name).trans made
    obtain ⟨scope, type, initial, line⟩ := d
    rw [declareName, Evaluator.declareName, made]
    dsimp only [bind, Except.bind]
    cases scope with
    | «variable» =>
      rw [level]
      cases inside : s.inFunction with
      | true => simp [pure, Except.pure]
      | false =>
        simp only [reduceCtorEq, Bool.false_eq_true, if_false, false_and, false_or, true_and]
        rw [← known rfl inside]
        obtain ⟨redeclared, fits⟩ | ⟨e, refused, same, failed⟩ := u.registry.redeclare_cases name value
        · rw [redeclared]
          constructor
          · rintro ⟨⟩
          · rintro ⟨same, e, failed, -⟩
            exact absurd ⟨same, failed⟩ (fits e)
        · rw [refused]
          constructor
          · rintro ⟨⟩
            exact ⟨same, e, failed, rfl⟩
          · rintro ⟨-, e', failed', rfl⟩
            cases failed.symm.trans failed'
            rfl
    | global => simp [pure, Except.pure]
    | constant =>
      simp only [reduceCtorEq, true_and, false_and, or_false]
      rw [← taken rfl]
      split
      · next there => simp [there, eq_comm]
      · next free => simp [free, pure, Except.pure]

/-! ## All names -/

/-- No name is refused. -/
def Admits (d : Declarer) (s : State) (done names : List String) : Prop :=
  ∀ before name after, names = before ++ name :: after → ∀ cause, ¬ d.Refused s (done ++ before) name cause

theorem Admits.cons (here : ∀ cause, ¬ d.Refused s done name cause) (h : d.Admits s (done ++ [name]) names) :
    d.Admits s done (name :: names) := by
  intro before other after split cause
  cases before with
  | nil =>
    cases split
    rw [List.append_nil]
    exact here cause
  | cons first before =>
    cases split
    have later := h before other after rfl cause
    rwa [List.append_assoc] at later

/-- **The names before the first refused one are declared.** Some names have been
declared already. -/
theorem declareNames_outcome (opened : s.scopes ≠ []) (bound : d.Binds done s u) (names : List String) :
    (∃ t, d.declareNames names u = .ok () t ∧ d.Binds (done ++ names) s t ∧ d.Admits s done names) ∨
    ∃ before name after cause t, names = before ++ name :: after ∧ d.declareNames before u = .ok () t ∧
      d.declareNames names u = .error (.failure cause) t ∧ d.Binds (done ++ before) s t ∧
      d.Refused s (done ++ before) name cause := by
  induction names generalizing done u with
  | nil => exact .inl ⟨u, rfl, (List.append_nil done).symm ▸ bound, fun before _ _ split => by cases before <;> cases split⟩
  | cons name rest ih =>
    cases declared : d.declareName name u with
    | error cause =>
      refine .inr ⟨[], name, rest, cause, u, rfl, rfl, Run.bind_error (Run.update_error declared), ?_, ?_⟩
      · rwa [List.append_nil]
      · rw [List.append_nil]
        exact (declareName_eq_error bound).mp declared
    | ok v =>
      have first (names : List String) : d.declareNames (name :: names) u = d.declareNames names v :=
        Run.bind_ok (Run.update_ok declared)
      have admitted (cause : RuntimeError) : ¬ d.Refused s done name cause := by
        intro refused
        cases declared.symm.trans ((declareName_eq_error bound).mpr refused)
      -- The name joins those that are done, so the rest is refused or not by the first state.
      obtain ⟨t, run, bound, admits⟩ | ⟨before, other, after, cause, t, rfl, run, failed, bound, refused⟩ :=
        ih (bound.append (.of_declareName (bound.opened opened) declared))
      · rw [List.append_assoc] at bound
        exact .inl ⟨t, (first rest).trans run, bound, admits.cons admitted⟩
      · rw [List.append_assoc] at bound refused
        exact .inr ⟨name :: before, other, after, cause, t, rfl, (first before).trans run, (first _).trans failed,
          bound, refused⟩

/-- All names start with one value, and a symbol of its kind admits it. -/
structure Uniform (d : Declarer) (s : State) : Prop where
  same : ∀ name other, d.valueOf s name = d.valueOf s other
  sound : d.scope = .variable → ∀ name value, d.valueOf s name = .ok value → value.Sound

/-- The built-in types do so. Without a type the initial value is taken as it is. -/
theorem uniform (builtin : s.registry.constructors = Registry.withBaseTypes.constructors)
    (untyped : d.scope = .variable → d.type = none → ∀ v ∈ d.initial, v.Sound) : d.Uniform s := by
  obtain ⟨scope, type, initial, line⟩ := d
  cases type with
  | none =>
    refine ⟨fun _ _ => rfl, fun free name value made => ?_⟩
    cases made
    cases initial with
    | none => trivial
    | some v => exact untyped free rfl v rfl
  | some spec =>
    refine ⟨fun name other => ?_, fun _ name value made => ?_⟩
    · exact congrArg (Except.mapError _) (Registry.constructTyped_anonymous builtin name other)
    · exact Registry.constructTyped_sound builtin (Except.mapError_eq_ok.mp made)

/-- Then the first name is refused, or a constant. -/
theorem Refused.eq_nil {cause : RuntimeError} (refused : d.Refused s done name cause) (bound : d.Binds done s t)
    (uniform : d.Uniform s) (scope : d.scope ≠ .constant) : done = [] := by
  cases refused with
  | unmade failed =>
    -- A name that was declared before had a value, and so would this one.
    refine List.eq_nil_iff_forall_not_mem.mpr fun other declared => ?_
    obtain ⟨value, made, -⟩ := bound.here other declared
    cases (uniform.same other name).symm.trans made ▸ failed
  | redefined _ constant => exact absurd constant scope
  | unfit made «variable» _ _ failed => cases (Value.coerce_self (uniform.sound «variable» _ _ made)).symm.trans failed

/-- A lookup of the name stops before the store that is declared in. -/
def Shadowed (d : Declarer) (name : String) (s : State) : Prop :=
  match d.scope with
  | .variable => Entries.get? name s.constants ≠ none
  | .global => Entries.get? name s.constants ≠ none ∨ State.local? name s.scopes ≠ none
  | .constant => False

theorem Binds.lookup (bound : d.Binds names s t) (declared : name ∈ names) (seen : ¬ d.Shadowed name t) :
    ∃ v, d.valueOf s name = .ok v ∧ t.lookup name = some v := by
  obtain ⟨v, made, written⟩ := bound.here name declared
  refine ⟨v, made, ?_⟩
  obtain ⟨scope, type, initial, line⟩ := d
  cases scope with
  | «variable» =>
    have inner : Store.scope 0 ∈ stores ⟨.variable, type, initial, line⟩ s := by
      dsimp only [stores]
      split <;> exact List.mem_cons_self
    have here : State.bound name 0 t.scopes = some v := written (.scope 0) inner
    exact (State.Found.local (not_not.mp seen) (State.scopeOf?_of_bound_zero here) here).lookup
  | global =>
    obtain ⟨free, outside⟩ := not_or.mp seen
    have outside := State.local?_eq_none_iff.mp (not_not.mp outside)
    exact (State.Found.global (not_not.mp free) outside (written .globals List.mem_cons_self)).lookup
  | constant => exact (State.Found.constant (written .constants List.mem_cons_self)).lookup

end Declarer

/-! ## The statement -/

/-- The initial value of a declaration, if there is one, and the state behind it. -/
inductive Initialized (ev : Evaluator) (env : Environment) : Option Expr → State → Option Value → State → Prop
  | absent {s} : Initialized ev env none s none s
  | given {e s v t} (evaluated : ev.initializer env e s = .ok v t) : Initialized ev env (some e) s (some v) t

theorem initialized_or_fails (ev : Evaluator) (env : Environment) (value : Option Expr) (s : State) :
    (∃ e halt t, value = some e ∧ ev.initializer env e s = .error halt t) ∨
      ∃ initial u, Initialized ev env value s initial u := by
  cases value with
  | none => exact .inr ⟨none, s, .absent⟩
  | some e =>
    cases evaluated : ev.initializer env e s with
    | ok v t => exact .inr ⟨some v, t, .given evaluated⟩
    | error halt t => exact .inl ⟨e, halt, t, rfl, evaluated⟩

section Statement

variable {n : Nat} {env : Environment} {scope : DeclarationScope} {type : Option TypeSpec} {value : Option Expr}
  {initial : Option Value} {line : Nat} {s u : State}

theorem Initialized.opened (h : Initialized (within n) env value s initial u) (opened : s.scopes ≠ []) : u.scopes ≠ [] := by
  cases h with
  | absent => exact opened
  | @given e _ v t evaluated =>
    have kept := State.kept_level
    have level := ((kept.within n).evalRelated kept.executable env).initializer kept.executable.toEvaluable e s
    have level : State.Level s u := Run.after_ok evaluated ▸ level
    exact level.opened opened

/-- A declaration declares its names in the state behind the initial value. -/
theorem Initialized.exec_eq (h : Initialized (within n) env value s initial u) (builtin : env.handlers = Handler.builtin)
    (names : List String) : (within (n + 1)).exec env (.declaration scope type names value line) s =
      (do Declarer.declareNames ⟨scope, type, initial, line⟩ names; return Flow.proceed : Eval Flow) u := by
  show (within n).statement env _ s = _
  rw [statement_eq (within n) builtin]
  cases h with
  | absent => rfl
  | given evaluated =>
    have declare : (within n).declare env scope type names (some _) line s = _ := Run.bind_ok evaluated
    show ((within n).declare env scope type names (some _) line >>= _) s = (Declarer.declareNames _ names >>= _) u
    simp only [bind, EStateM.bind, declare]
    rfl

/-- A declaration without an initial value, because it fails, fails in the same way. -/
theorem exec_of_initializer {e : Expr} {halt : Halt RuntimeError} (builtin : env.handlers = Handler.builtin)
    (failed : (within n).initializer env e s = .error halt u) (names : List String) :
    (within (n + 1)).exec env (.declaration scope type names (some e) line) s = .error halt u := by
  show (within n).statement env _ s = _
  rw [statement_eq (within n) builtin]
  exact Run.bind_error (Run.bind_error failed)

end Statement

/-- **A declaration that fails leaves the names before the refused one declared.**
If the initial value fails, the state is the one behind the attempt. Else the
declaration fails exactly if some name is refused, and the names before the first
such are declared as a declaration of them alone would do it. So nothing changes
where the first name is refused; with the types that make one admitted value for
all names, such as the built-in ones, `variable` and `global` refuse no other. If no
name is refused, then all names have their values, and a lookup that gets as far as
the declaration reads them. -/
theorem declaration_outcome (n : Nat) {env : Environment} (builtin : env.handlers = Handler.builtin)
    (scope : DeclarationScope) (type : Option TypeSpec) (names : List String) (value : Option Expr) (line : Nat)
    {s : State} (opened : s.scopes ≠ []) :
    let run names := (within (n + 1)).exec env (.declaration scope type names value line) s
    (∀ halt t, run names = .error halt t →
      (∃ e, value = some e ∧ (within n).initializer env e s = .error halt t) ∨
      ∃ initial u before name after cause, let d : Declarer := ⟨scope, type, initial, line⟩
        Initialized (within n) env value s initial u ∧ names = before ++ name :: after ∧ halt = .failure cause ∧
        d.Refused u before name cause ∧ run before = .ok .proceed t ∧ d.Binds before u t ∧
        (u.registry.constructors = Registry.withBaseTypes.constructors →
          (scope = .variable → type = none → ∀ v ∈ initial, v.Sound) → d.Uniform u) ∧
        (before = [] ∨ scope ≠ .constant ∧ d.Uniform u → t = u)) ∧
    ∀ flow t, run names = .ok flow t → flow = .proceed ∧
      ∃ initial u, let d : Declarer := ⟨scope, type, initial, line⟩
        Initialized (within n) env value s initial u ∧ d.Admits u [] names ∧ d.Binds names u t ∧
        ∀ name ∈ names, ¬ d.Shadowed name t → ∃ v, d.valueOf u name = .ok v ∧ t.lookup name = some v := by
  intro run
  obtain ⟨e, halt, t, rfl, failed⟩ | ⟨initial, u, ready⟩ := initialized_or_fails (within n) env value s
  · have stopped : run names = .error halt t := exec_of_initializer builtin failed names
    rw [stopped]
    refine ⟨fun halt' t' h => .inl ⟨e, rfl, ?_⟩, fun _ _ h => by cases h⟩
    cases h
    exact failed
  let d : Declarer := ⟨scope, type, initial, line⟩
  have run_eq (names : List String) :
      run names = (do d.declareNames names; return Flow.proceed : Eval Flow) u := ready.exec_eq builtin names
  obtain ⟨t, declared, bound, admits⟩ | ⟨before, name, after, cause, t, split, declared, failed, bound, refused⟩ :=
    Declarer.declareNames_outcome (ready.opened opened) (.none d u) names
  · have done : run names = .ok .proceed t := (run_eq names).trans (Run.bind_ok declared)
    rw [done]
    refine ⟨fun _ _ h => (by cases h), fun flow t' h => ?_⟩
    cases h
    exact ⟨rfl, initial, u, ready, admits, bound, fun name declared seen => bound.lookup declared seen⟩
  · have stopped : run names = .error (.failure cause) t := (run_eq names).trans (Run.bind_error failed)
    rw [stopped]
    refine ⟨fun halt t' h => .inr ?_, fun _ _ h => by cases h⟩
    cases h
    have unchanged : before = [] → t = u := by
      rintro rfl
      cases declared
      rfl
    refine ⟨initial, u, before, name, after, cause, ready, split, rfl, refused,
      (run_eq before).trans (Run.bind_ok declared), bound,
      fun builtin untyped => Declarer.uniform builtin untyped, ?_⟩
    rintro (none | ⟨free, uniform⟩)
    · exact unchanged none
    · exact unchanged (refused.eq_nil bound uniform free)

/-- The constant that is declared again is the second name. -/
theorem declaration_outcome_constant :
    let s : State := { constants := [("a", .integer 1)] }
    let two : Expr := .literal (.integer 2) 1
    ∃ t, (within 2).exec {} (.declaration .constant none ["b", "a", "c"] (some two) 1) s =
        .error (.failure (.constantRedefinition "a" 1)) t ∧
      (within 2).exec {} (.declaration .constant none ["b"] (some two) 1) s = .ok .proceed t ∧
      Declarer.Binds ⟨.constant, none, some (.integer 2), 1⟩ ["b"] s t := by
  intro s two
  have opened : s.scopes ≠ [] := List.cons_ne_nil _ _
  obtain ⟨fails, -⟩ := declaration_outcome 1 (rfl : ({} : Environment).handlers = _) .constant none ["b", "a", "c"]
    (some two) 1 opened
  refine ⟨_, rfl, ?_⟩
  obtain ⟨_, same, failed⟩ | ⟨initial, u, before, name, after, cause, ready, split, halt, refused, declared, bound, -⟩ :=
    fails _ _ rfl
  · cases same
    cases failed
  cases ready with
  | given evaluated =>
    cases evaluated
    cases halt
    cases refused with
    | unmade failed => cases failed
    | redefined =>
      obtain ⟨rfl, -⟩ : before = ["b"] ∧ after = ["c"] := by simpa [List.cons_eq_append_iff] using split
      exact ⟨declared, bound⟩

/-- A type of another program may refuse a name, and the kind of a symbol may not
admit a value that no type has made. Then `variable` and `global` refuse a later name
too. In each case the initial value leaves the state as it is. -/
theorem declaration_partial :
    let one : Expr := .literal (.integer 1) 1
    let code : Constructor := fun name _ => if name = "b" then .error ⟨"1", "code", name⟩ else .ok (.integer 1)
    let odd : Value := .matrix [[.string "x"]]
    let typed (scope : DeclarationScope) : Statement := .declaration scope (some ⟨[], 0, "code"⟩) ["a", "b"] (some one) 1
    let untyped : Statement := .declaration .variable none ["a", "b"] (some (.literal odd 1)) 1
    let fixed : State := { constants := [("a", .integer 1)] }
    let known : State := { registry := Registry.withBaseTypes.registerType "code" code }
    let symbols : State := { registry := { Registry.withBaseTypes with symbols := [("b", .matrix [])] } }
    (∀ v s, (within 1).initializer {} (.literal v 1) s = .ok v s) ∧
    (∃ t, (within 2).exec {} (.declaration .constant none ["b", "a"] (some one) 1) fixed =
        .error (.failure (.constantRedefinition "a" 1)) t ∧
      fixed.lookup "b" = none ∧ t.lookup "b" = some (.integer 1)) ∧
    (∀ scope ∈ [DeclarationScope.variable, .global], ∃ cause t,
      (within 2).exec {} (typed scope) known = .error (.failure cause) t ∧
      known.lookup "a" = none ∧ t.lookup "a" = some (.integer 1)) ∧
    ∃ cause t, (within 2).exec {} untyped symbols = .error (.failure cause) t ∧
      symbols.lookup "a" = none ∧ t.lookup "a" = some odd := by
  intro one code odd typed untyped fixed known symbols
  refine ⟨fun _ _ => rfl, ⟨_, rfl, rfl, rfl⟩, ?_, ⟨_, _, rfl, rfl, rfl⟩⟩
  exact List.forall_mem_cons.mpr ⟨⟨_, _, rfl, rfl, rfl⟩, List.forall_mem_singleton.mpr ⟨_, _, rfl, rfl, rfl⟩⟩

end Evaluator
end Guion
