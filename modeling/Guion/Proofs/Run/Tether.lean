/-
A run that stops before the copies of a program variable come apart.

A declaration and an assignment of a program write both copies, and a deletion
drops both. So the copies of a name agree between two top-level statements until
something in the run writes one of them alone. `tethered` is the evaluator of the
language that stops there, and its tests say what that is: in a function, which
has other scopes and reaches the registry only, a statement that changes the
symbol; a sub-program that changes the symbol of a name that the frame has; in an
inner block, a declaration of a name that the frame has; and a loop over the name,
which binds a local, if the copies do not agree behind it.

`Tied` is the invariant that the tether keeps. In its loose form it says nothing
of the values: a loop over the name keeps that form only. Here are the changes of
state, calls, sub-programs and declarations; the statements follow in `Coherence`.
-/
import Guion.Proofs.Run.Bindings
import Guion.Proofs.Run.Returns

namespace Guion

open Evaluator

/-! ## The tether -/

namespace State

instance (name : String) (s : State) : Decidable (s.Clear name) := inferInstanceAs (Decidable (_ ∨ _))

variable [DecidableEq Value]

instance (name : String) (s : State) : Decidable (s.Coherent name) :=
  inferInstanceAs (Decidable (∀ v ∈ Entries.get? name s.toContext.frame, ∀ w ∈ s.registry.get? name, v = w))

instance (name : String) (s t : State) : Decidable (KeepsSymbol name s t) :=
  inferInstanceAs (Decidable (∀ w ∈ t.registry.get? name, s.registry.get? name = some w))

/-- What a sub-program may do to the copies of a name: it leaves the symbol alone if
the frame has the name. A function runs none. -/
def serves (name : String) (s t : State) : Bool :=
  decide (s.inFunction = true ∨ (Entries.get? name s.toContext.frame).isSome = true → KeepsSymbol name s t)

end State

/-- What a statement may do to the copies of a name, before and behind it. -/
def Statement.ties [DecidableEq Value] (name : String) (st : Statement) (s t : State) : Bool :=
  if s.inFunction then decide (State.KeepsSymbol name s t)
  else
    match st with
    | .declaration .variable _ names _ _ => decide (name ∈ names → t.Clear name)
    | .forLoop bound _ _ _ => decide (bound = name → s.Coherent name → t.Coherent name)
    | _ => true

namespace Evaluator

/-- The evaluator of the language that stops before the copies of a name come apart. -/
def tethered [DecidableEq Value] (name : String) (stop : Halt Empty) : Nat → Evaluator
  | 0 => exhausted
  | depth + 1 =>
    { passes := depth
      eval := fun env e => (tethered name stop depth).expression env e
      exec := fun env st => Run.provided (st.ties name) stop ((tethered name stop depth).statement env st)
      invoke := fun env origin level request =>
        Run.provided (State.serves name) stop ((within depth).invocation env origin level request) }

end Evaluator

section Tether

variable [DecidableEq Value] {name : String} {stop : Halt Empty}

/-- **Until the tether stops a run it is a run of the language.** -/
theorem Evaluator.tethered_cutShort (name : String) (stop : Halt Empty) (n : Nat) :
    Related (cutShort stop) (tethered name stop n) (within n) := by
  have rules := cutShort_executable stop
  induction n with
  | zero => exact ⟨fun _ _ _ => .inr rfl, fun _ _ _ => .inr rfl, fun _ _ _ _ _ => .inr rfl, .inl rfl⟩
  | succ n ih =>
    exact {
      eval := fun env e s => (ih.evalRelated rules env).expression rules.toEvaluable e s
      exec := fun env st s => (ih.statement rules env st s).provided (st.ties name)
      invoke := fun env origin depth request s => cutShort.provided (.inr rfl) (State.serves name)
      passes := .inl rfl }

namespace State

variable {s t : State}

/-- What is kept across everything that a run does is kept when the run is stopped. -/
theorem Kept.tethered {R : State → State → Prop} (kept : Kept R) (name : String) (stop : Halt Empty) (n : Nat) :
    Related (keeping R) (tethered name stop n) (tethered name stop n) := by
  induction n with
  | zero => exact kept.within 0
  | succ n ih =>
    exact {
      eval := fun env e s => (ih.evalRelated kept.executable env).expression kept.executable.toEvaluable e s
      exec := fun env st s =>
        .provided (kept.refl s) (ih.statement kept.executable env st s) (st.ties name) stop
      invoke := fun env origin depth request s => .provided (kept.refl s)
        ((kept.within n).invocation kept.executable env origin depth request s) (serves name) stop
      passes := .inl rfl }

/-! ## In functions -/

/-- A statement in a function leaves the symbol alone. -/
theorem keepsSymbol_exec (n : Nat) (env : Environment) (st : Statement) (inside : s.inFunction = true) :
    KeepsSymbol name s (((tethered name stop n).exec env st).after s) := by
  cases n with
  | zero => exact .refl name s
  | succ n =>
    show KeepsSymbol name s ((Run.provided (st.ties name) stop ((tethered name stop n).statement env st)).after s)
    obtain same | ⟨passes, same⟩ :=
      Run.after_provided (st.ties name) stop ((tethered name stop n).statement env st) s
    · rw [same]; exact .refl name s
    · rw [same]; exact of_decide_eq_true ((if_pos inside).symm.trans passes)

theorem keepsSymbol_invoke (n : Nat) (env : Environment) (origin : Option String) (depth : Nat) (request : Invocation)
    (visible : s.inFunction = true ∨ (Entries.get? name s.toContext.frame).isSome = true) :
    KeepsSymbol name s (((tethered name stop n).invoke env origin depth request).after s) := by
  cases n with
  | zero => exact .refl name s
  | succ n =>
    show KeepsSymbol name s
      ((Run.provided (serves name) stop ((within n).invocation env origin depth request)).after s)
    obtain same | ⟨passes, same⟩ :=
      Run.after_provided (serves name) stop ((within n).invocation env origin depth request) s
    · rw [same]; exact .refl name s
    · rw [same]; exact of_decide_eq_true passes visible

/-- The body of a function leaves the symbol alone. -/
theorem keepsSymbol_statements (n : Nat) (env : Environment) (sts : List Statement) (inside : s.inFunction = true) :
    KeepsSymbol name s (((tethered name stop n).statements env sts).after s) := by
  have level := kept_level.tethered name stop n
  have trans : ∀ s t u : State, KeepsSymbol name s t → KeepsSymbol name t u → KeepsSymbol name s u :=
    fun _ _ _ => .trans
  induction sts generalizing s with
  | nil => exact .refl name s
  | cons st rest ih =>
    refine Run.after_bind_of (KeepsSymbol name) trans (keepsSymbol_exec n env st inside) fun flow t ht => ?_
    have inside' : t.inFunction = true := by
      rw [inFunction, ((level.exec env st s).of_ok ht).callDepth]
      exact inside
    cases flow with
    | proceed => exact ih inside'
    | leaveLoop => exact .refl name t
    | result v => exact .refl name t
    | invoke request =>
      have served : KeepsSymbol name t (((tethered name stop n).serve env request).after t) := by
        unfold Evaluator.serve
        cases env.invoker with
        | none => exact .refl name t
        | recorder => exact .refl name t
        | refuser => exact .refl name t
        | programs origin depth =>
          refine Run.after_bind_of (KeepsSymbol name) trans ?_ fun _ u _ => .refl name u
          rw [Run.after_mapError]
          exact keepsSymbol_invoke n env origin depth request (.inl inside')
      refine Run.after_bind_of (KeepsSymbol name) trans served fun flow u hu => ?_
      cases flow with
      | proceed =>
        refine ih ?_
        rw [inFunction, ((level.serve kept_level.executable env request t).of_ok hu).callDepth]
        exact inside'
      | _ => exact .refl name u

/-! ## The invariant -/

/-- The invariant of a program; in the strict form the copies of the name agree. -/
structure Tied (name : String) (strict : Bool) (s : State) : Prop where
  outside : s.callDepth = 0
  ascending : Entries.Ascending s.registry.symbols
  unshadowed : Unshadowed (column name s.scopes)
  agrees : strict = true → s.Coherent name

variable {strict : Bool}

omit [DecidableEq Value]

theorem Tied.inFunction (h : Tied name strict s) : s.inFunction = false := by
  simp [State.inFunction, h.outside]

theorem Tied.loose (h : Tied name strict s) : Tied name false s := { h with agrees := nofun }

/-- A change that reaches neither copy of the name. -/
theorem Tied.elsewhere (h : Tied name strict s) (outside : t.callDepth = s.callDepth)
    (ascending : Entries.Ascending t.registry.symbols) (columns : column name t.scopes = column name s.scopes)
    (here : t.registry.get? name = s.registry.get? name) : Tied name strict t where
  outside := outside.trans h.outside
  ascending := ascending
  unshadowed := columns ▸ h.unshadowed
  agrees hs := (h.agrees hs).of_keepsSymbol (by rw [get?_frame, get?_frame, columns]) fun _ hw => here ▸ hw

theorem Effect.tied (he : Effect s t) (h : Tied name strict s) : Tied name strict t := by
  cases he with
  | print line => exact { h with }
  | identity => exact { h with }
  | @delete _ other line value hd =>
    rw [delete_eq_ok hd]
    by_cases same : name = other
    · subst same
      exact { h with
        ascending := h.ascending.erase name
        unshadowed := unshadowed_eraseLocal h.unshadowed
        agrees := fun _ => coherent_of_symbol (Entries.get?_erase_self h.ascending) }
    · exact h.elsewhere rfl (h.ascending.erase other) (column_eraseLocal same _) (Entries.get?_erase_of_ne same _)
  | @assign _ other value line ha =>
    cases assigned_of_assignVariable ha with
    | global => exact { h with }
    | @«local» slot stored found kept =>
      have ascending := ascending_published h.ascending other stored
      by_cases same : name = other
      · subst same
        have unshadowed := unshadowed_setLocal h.unshadowed stored
        refine { h with ascending, unshadowed, agrees := fun _ v hv w hw => ?_ }
        rw [get?_frame] at hv
        obtain rfl := last_setLocal h.unshadowed (by rw [found]; exact Option.some_ne_none _) v hv
        have symbol := (get?_published v s).symm.trans hw
        split at symbol
        · exact Option.some.inj symbol
        · next free =>
          have there : (s.registry.get? name).isSome := by rw [symbol]; rfl
          exact absurd ⟨rfl, h.inFunction, there⟩ free
      · exact h.elsewhere rfl ascending (column_setLocal same _ _) (get?_published_of_ne same _ _)
    | @«symbol» stored registry free unshared kept =>
      obtain ⟨rfl, -⟩ := Registry.modify_eq_ok kept
      have ascending := h.ascending.insert other stored
      by_cases same : name = other
      · subst same
        have last := last_of_local?_eq_none free
        exact { h with ascending, agrees := fun _ => coherent_of_frame (by rw [get?_frame]; exact last) }
      · exact h.elsewhere rfl ascending rfl (Registry.get?_put_of_ne same _ _)
    | new free unshared unknown =>
      by_cases same : name = other
      · subst same
        exact { h with
          unshadowed := unshadowed_defineInFrame free value
          agrees := fun _ => coherent_of_symbol (Entries.contains_eq_false.mp unknown) }
      · exact h.elsewhere rfl h.ascending (column_defineInFrame same _ _) rfl

/-- A loop over another name reaches neither copy; one over this name keeps the loose
form. -/
theorem Tied.bindLoopVariable {bound : String} (h : Tied name strict s) (free : bound = name → strict = false)
    (value : Value) : Tied name strict (s.bindLoopVariable bound value) := by
  by_cases same : name = bound
  · subst same
    obtain rfl := free rfl
    have unshadowed := unshadowed_bindLoopVariable h.unshadowed value
    obtain ⟨scopes, he, -⟩ := bindLoopVariable_eq name value s
    rw [he] at unshadowed ⊢
    exact { h with unshadowed, agrees := nofun }
  · have columns := column_bindLoopVariable same value s
    obtain ⟨scopes, he, -⟩ := bindLoopVariable_eq bound value s
    rw [he] at columns ⊢
    exact h.elsewhere rfl h.ascending columns rfl

theorem Tied.pushScope (h : Tied name strict s) : Tied name strict s.pushScope := by
  have frame : Entries.get? name s.pushScope.toContext.frame = Entries.get? name s.toContext.frame := by
    rw [get?_frame, get?_frame]
    exact last_none_cons _
  exact { h with
    unshadowed := ⟨h.unshadowed, .inl rfl⟩
    agrees := fun hs => (h.agrees hs).of_keepsSymbol frame (.refl name s) }

theorem Tied.popScope (h : Tied name strict s) : Tied name strict s.popScope := by
  unfold State.popScope
  split
  · next scope outer rest hs =>
    have unshadowed := h.unshadowed
    rw [hs] at unshadowed
    refine { h with
      unshadowed := unshadowed.1
      agrees := fun strict => (h.agrees strict).of_keepsSymbol ?_ (.refl name s) }
    rw [get?_frame, get?_frame, hs]
    exact (last_cons _ (List.cons_ne_nil _ _)).symm
  · exact h

/-- What keeps the invariant. -/
def tying (name : String) (strict : Bool) : RunRelation := keeping fun s t => Tied name strict s → Tied name strict t

theorem tying_evaluable : (tying name strict).Evaluable :=
  keeping_evaluable (fun _ h => h) (fun h h' hs => h' (h hs)) Effect.tied

/-- What is entered and left keeps the invariant if both steps do. -/
theorem tying_bracket {enter : State → State} {leave : State → State → State} {x : Run ε α}
    (enters : Tied name strict s → Tied name strict (enter s))
    (leaves : ∀ t, Tied name strict t → Tied name strict (leave s t))
    (h : tying name strict (enter s) x x) :
    tying name strict s (Run.bracket enter leave x) (Run.bracket enter leave x) := by
  intro hs
  rw [Run.after_bracket]
  exact leaves _ (h (enters hs))

/-! ## Calls and sub-programs -/

/-- A sub-program runs in a context of its own. -/
theorem context_after_invocation (ev : Evaluator) (env : Environment) (origin : Option String) (depth : Nat)
    (request : Invocation) (s : State) :
    ((ev.invocation env origin depth request).after s).toContext = s.toContext := by
  have andThen : ∀ {ε α β : Type} {x : Run ε α} {f : α → Run ε β} {s : State}, (x.after s).toContext = s.toContext →
      (∀ a t, ((f a).after t).toContext = t.toContext) → ((x >>= f).after s).toContext = s.toContext :=
    fun hx hf => Run.after_bind_of (fun s t => t.toContext = s.toContext) (fun _ _ _ h h' => h'.trans h) hx
      fun a t _ => hf a t
  have same : ∀ {ε α : Type} {x : Run ε α} {s : State}, x.after s = s → (x.after s).toContext = s.toContext :=
    fun h => by rw [h]
  unfold invocation
  split
  · rfl
  refine andThen (same (env.after_locate _ _ s)) fun found t => ?_
  cases found with
  | none => rfl
  | some path =>
    refine andThen (same (env.after_readProgram path t)) fun source u => andThen ?_ fun child w => rfl
    refine andThen (same (after_parseProgram env source u)) fun program w => ?_
    show ((Run.inContext _ _).after w).toContext = w.toContext
    rw [Run.after_inContext]

section Tethered

variable [DecidableEq Value]

/-- A call of a function keeps the invariant: its body has other scopes, and leaves the
symbol alone. -/
theorem tying_callDefined (n : Nat) (env : Environment) (function : FunctionDef) (arguments : List Value) (line : Nat)
    (s : State) :
    tying name strict s ((tethered name stop n).callDefined env function arguments line)
      ((tethered name stop n).callDefined env function arguments line) := by
  intro hs
  obtain same | ⟨frame, same⟩ := after_callDefined (tethered name stop n) env function arguments line s
  · rw [same]; exact hs
  have level := (kept_level.tethered name stop n).statements kept_level.executable env function.body.statements
    (s.enterCall frame)
  have order := (kept_order.tethered name stop n).statements kept_order.executable env function.body.statements
    (s.enterCall frame)
  have keeps : KeepsSymbol name s
      (((tethered name stop n).statements env function.body.statements).after (s.enterCall frame)) :=
    keepsSymbol_statements n env _ (decide_eq_true (Nat.succ_pos _))
  have depth : (((tethered name stop n).statements env function.body.statements).after (s.enterCall frame)).callDepth =
      s.callDepth + 1 := level.callDepth
  rw [same]
  exact {
    outside := by rw [leaveCall, depth]; exact hs.outside
    ascending := order.symbols hs.ascending
    unshadowed := hs.unshadowed
    agrees := fun strict => (hs.agrees strict).of_keepsSymbol rfl keeps }

theorem tying_eval (n : Nat) (env : Environment) :
    EvalRelated (tying name strict) env (tethered name stop n) (tethered name stop n) := by
  induction n with
  | zero =>
    exact ⟨fun _ _ hs => hs, fun _ function arguments line s _ => tying_callDefined 0 env function arguments line s⟩
  | succ n ih =>
    exact ⟨fun e s => ih.expression tying_evaluable e s,
      fun _ function arguments line s _ => tying_callDefined (n + 1) env function arguments line s⟩

/-- A sub-program keeps the invariant: it leaves the symbol alone, or the frame does not
have the name. -/
theorem tying_invoke (n : Nat) (env : Environment) (origin : Option String) (depth : Nat) (request : Invocation)
    (s : State) :
    tying name strict s ((tethered name stop n).invoke env origin depth request)
      ((tethered name stop n).invoke env origin depth request) := by
  intro hs
  have context : (((tethered name stop n).invoke env origin depth request).after s).toContext = s.toContext := by
    cases n with
    | zero => rfl
    | succ n =>
      show ((Run.provided (serves name) stop ((within n).invocation env origin depth request)).after s).toContext = _
      obtain same | ⟨-, same⟩ :=
        Run.after_provided (serves name) stop ((within n).invocation env origin depth request) s
      · rw [same]
      · rw [same]; exact context_after_invocation _ env origin depth request s
  have order := (kept_order.tethered name stop n).invoke env origin depth request s
  exact {
    outside := (congrArg Context.callDepth context).trans hs.outside
    ascending := order.symbols hs.ascending
    unshadowed := congrArg Context.scopes context ▸ hs.unshadowed
    agrees := fun strict => by
      cases visible : Entries.get? name s.toContext.frame with
      | none => exact coherent_of_frame (by rw [context, visible])
      | some v =>
        have shown : (Entries.get? name s.toContext.frame).isSome = true := by rw [visible]; rfl
        exact (hs.agrees strict).of_keepsSymbol (by rw [context])
          (keepsSymbol_invoke n env origin depth request (.inr shown)) }

end Tethered

/-! ## Declarations -/

/-- Where a declaration leaves the name clear it was clear before. -/
theorem clear_of_declareName {scope : DeclarationScope} {type : Option TypeSpec} {initial : Option Value} {line : Nat}
    {other : String} (hd : declareName scope type initial line other s = .ok t) (h : t.Clear name) : s.Clear name := by
  cases declared_of_declareName hd with
  | «local» value inside => exact clear_of_defineLocal h
  | @«variable» value stored registry outside kept =>
    exact clear_of_defineLocal (s := { s with registry := registry }) h
  | global value => exact h
  | constant value free => exact h

theorem clear_of_declareNames {scope : DeclarationScope} {type : Option TypeSpec} {initial : Option Value} {line : Nat}
    {names : List String} :
    ((declareNames scope type initial line names).after s).Clear name → s.Clear name := by
  induction names generalizing s with
  | nil => exact id
  | cons other rest ih =>
    refine Run.after_bind_of (fun s t => t.Clear name → s.Clear name) (fun _ _ _ h h' ht => h (h' ht)) ?_
      fun _ t _ => ih
    cases hd : declareName scope type initial line other s with
    | ok t => rw [Run.after_ok (Run.update_ok hd)]; exact clear_of_declareName hd
    | error cause => rw [Run.after_error (Run.update_error hd)]; exact id

/-- A declaration of a program writes both copies. -/
theorem Tied.declareName {scope : DeclarationScope} {type : Option TypeSpec} {initial : Option Value} {line : Nat}
    {other : String} (h : Tied name strict s) (hd : Evaluator.declareName scope type initial line other s = .ok t)
    (clear : scope = .variable → other = name → t.Clear name) : Tied name strict t := by
  by_cases declares : scope = .variable
  case neg =>
    obtain ⟨value, -, ht⟩ := Except.bind_eq_ok.mp hd
    cases scope with
    | «variable» => exact absurd rfl declares
    | global => cases ht; exact { h with }
    | constant =>
      dsimp only at ht
      split at ht
      · cases ht
      · cases ht; exact { h with }
  have clear := clear declares
  cases declared_of_declareName hd with
  | «local» value inside => rw [h.inFunction] at inside; cases inside
  | global value => exact { h with }
  | constant value free => exact { h with }
  | @«variable» value stored registry outside kept =>
    obtain ⟨rfl, -⟩ := Registry.redeclare_eq_ok kept
    have ascending := h.ascending.insert other stored
    by_cases same : name = other
    · subst same
      have clear := clear_of_defineLocal (clear rfl)
      have unshadowed := unshadowed_defineLocal (s := { s with registry := s.registry.put name stored })
        h.unshadowed clear stored
      have last := last_defineLocal clear stored
      obtain ⟨scopes, he, -⟩ := defineLocal_eq name stored { s with registry := s.registry.put name stored }
      rw [he] at unshadowed last ⊢
      exact { h with
        ascending, unshadowed
        agrees := fun _ v hv w hw => by
          rw [last v hv]
          exact Option.some.inj ((Registry.get?_put_self name stored s.registry).symm.trans hw) }
    · have columns := column_defineLocal same stored { s with registry := s.registry.put other stored }
      obtain ⟨scopes, he, -⟩ := defineLocal_eq other stored { s with registry := s.registry.put other stored }
      rw [he] at columns ⊢
      exact h.elsewhere rfl ascending columns (Registry.get?_put_of_ne same _ _)

theorem Tied.declareNames {scope : DeclarationScope} {type : Option TypeSpec} {initial : Option Value} {line : Nat}
    {names : List String} (h : Tied name strict s)
    (clear : scope = .variable → name ∈ names →
      ((Evaluator.declareNames scope type initial line names).after s).Clear name) :
    Tied name strict ((Evaluator.declareNames scope type initial line names).after s) := by
  induction names generalizing s with
  | nil => exact h
  | cons other rest ih =>
    rw [Evaluator.declareNames] at clear ⊢
    cases hd : Evaluator.declareName scope type initial line other s with
    | error cause =>
      rw [Run.after_bind_error (Run.update_error hd)]
      exact h
    | ok t =>
      rw [Run.after_bind_ok (Run.update_ok hd)] at clear ⊢
      refine ih (h.declareName hd fun hv same => ?_) fun hv later => clear hv (List.mem_cons_of_mem other later)
      exact clear_of_declareNames (clear hv (same ▸ List.mem_cons_self))

end State
end Tether
end Guion
