/-
Where the two copies of a program variable come apart.

`between_coherent` says that the tests of `tethered` are all that there is to it.
It is about the run itself: functions may be called, print and read what they
like, and sub-programs may run, and as long as they pass the tests in this run the
copies agree. `between_incoherent` is a program in which an assignment in a
function is lost.

Every function of the rules keeps the invariant, in both forms, from the same fact
about the parts.
-/
import Guion.Proofs.Run.Tether

namespace Guion

open Evaluator

section Tether

variable {name : String} {stop : Halt Empty}

namespace State

variable {s t : State} {strict : Bool}

/-! ## Statements -/

/-- Evaluators whose parts keep the invariant. -/
structure TiedParts (name : String) (strict : Bool) (env : Environment) (ev : Evaluator) : Prop where
  exprs : EvalRelated (tying name strict) env ev ev
  exec : ∀ st s, tying name strict s (ev.exec env st) (ev.exec env st)
  invoke : ∀ origin depth request s,
    tying name strict s (ev.invoke env origin depth request) (ev.invoke env origin depth request)

namespace TiedParts

variable {env : Environment} {ev : Evaluator} (parts : TiedParts name strict env ev)
include parts

theorem serve (request : Invocation) (s : State) :
    tying name strict s (ev.serve env request) (ev.serve env request) := by
  have rules : (tying name strict).Evaluable := tying_evaluable
  unfold Evaluator.serve
  cases env.invoker with
  | none => exact rules.pure _
  | recorder => exact rules.bind (rules.print _) fun _ _ _ => rules.pure _
  | refuser => exact rules.fail _
  | programs origin depth =>
    refine rules.bind ?_ fun _ _ _ => rules.pure _
    unfold tying keeping
    rw [Run.after_mapError]
    exact parts.invoke origin depth request s

theorem statements (sts : List Statement) (s : State) :
    tying name strict s (ev.statements env sts) (ev.statements env sts) := by
  have rules : (tying name strict).Evaluable := tying_evaluable
  induction sts generalizing s with
  | nil => exact rules.pure _
  | cons st rest ih =>
    refine rules.bind (parts.exec st s) fun flow t _ => ?_
    cases flow with
    | proceed => exact ih t
    | invoke request =>
      refine rules.bind (parts.serve request t) fun served u _ => ?_
      cases served with
      | proceed => exact ih u
      | _ => exact rules.pure _
    | _ => exact rules.pure _

theorem block (body : Block) (s : State) : tying name strict s (ev.block env body) (ev.block env body) :=
  tying_bracket Tied.pushScope (fun _ => Tied.popScope) (parts.statements body.statements _)

theorem conditional (otherwise : Option Block) (branches : List (Expr × Block)) (s : State) :
    tying name strict s (ev.conditional env otherwise branches) (ev.conditional env otherwise branches) := by
  have rules : (tying name strict).Evaluable := tying_evaluable
  induction branches generalizing s with
  | nil =>
    cases otherwise with
    | some body => exact parts.block body s
    | none => exact rules.pure _
  | cons branch rest ih =>
    refine rules.bind (parts.exprs.condition rules branch.1 s) fun b t _ => ?_
    cases b with
    | true => exact parts.block branch.2 t
    | false => exact ih t

/-- A loop keeps the loose form; it keeps the strict one too if its variable is another. -/
theorem run (body : Block) (p : LoopPoint) (free : ∀ bound ∈ p.boundName?, bound = name → strict = false) (s : State) :
    tying name strict s (p.run ev env body) (p.run ev env body) := by
  have rules : (tying name strict).Evaluable := tying_evaluable
  induction hl : p.left using Nat.strongRecOn generalizing p s with
  | ind k ih =>
    rw [LoopPoint.run_eq]
    refine rules.bind (parts.exprs.begin rules p (fun bound hb value t ht => ?_) s) fun begun t begins => ?_
    · exact ht.bindLoopVariable (free bound hb) value
    cases begun with
    | none => exact rules.pure _
    | some next =>
      obtain ⟨nearer, same⟩ := LoopPoint.begin_next begins
      refine rules.bind (parts.block body t) fun flow u _ => ?_
      cases flow with
      | proceed => exact ih next.left (hl ▸ nearer) next (same ▸ free) u rfl
      | _ => exact rules.pure _

omit parts in
theorem inLoop {loop : Eval Flow} {s : State}
    (h : tying name strict { s with loopDepth := s.loopDepth + 1 } loop loop) :
    tying name strict s (inLoop loop) (Evaluator.inLoop loop) :=
  tying_bracket (fun hs => { hs with }) (fun _ ht => { ht with }) h

theorem forLoop (bound : String) (free : bound = name → strict = false) (source : ForSource) (body : Block) (line : Nat)
    (s : State) :
    tying name strict s (ev.forLoop env bound source body line) (ev.forLoop env bound source body line) := by
  have rules : (tying name strict).Evaluable := tying_evaluable
  rw [forLoop_eq]
  refine inLoop (rules.bind (parts.exprs.forStart rules bound source line _) fun found t starts => ?_)
  obtain ⟨hold, p⟩ := found
  have looped := parts.run body p fun other ho => by
    rw [forStart_boundName? starts] at ho
    cases ho
    exact free
  cases hold with
  | nothing => exact looped t
  | stream => exact tying_bracket (fun ht => { ht with }) (fun _ hu => { hu with }) (looped _)
  | reading => exact tying_bracket (fun ht => { ht with }) (fun _ hu => { hu with }) (looped _)

theorem declare {scope : DeclarationScope} {type : Option TypeSpec} {names : List String} {value : Option Expr}
    {line : Nat} (hs : Tied name strict s)
    (clear : scope = .variable → name ∈ names → ((ev.declare env scope type names value line).after s).Clear name) :
    Tied name strict ((ev.declare env scope type names value line).after s) := by
  cases value with
  | none => exact hs.declareNames clear
  | some e =>
    have ht := parts.exprs.initializer tying_evaluable e s hs
    rw [Evaluator.declare] at clear ⊢
    cases hi : ev.initializer env e s with
    | error halt t =>
      rw [Run.after_error hi] at ht
      rw [Run.after_bind_error hi]
      exact ht
    | ok v t =>
      rw [Run.after_ok hi] at ht
      rw [Run.after_bind_ok hi] at clear ⊢
      exact ht.declareNames clear

section Tested

variable [DecidableEq Value] {s : State}

/-- What a statement does keeps the invariant if it passes the test. A loop over the name
keeps the loose form, and the test says that it keeps the copies together too. -/
theorem handle (loose : TiedParts name false env ev) {handler : Handler} {st : Statement}
    (passes : st.ties name s ((ev.handle env handler st).after s) = true) (hs : Tied name strict s) :
    Tied name strict ((ev.handle env handler st).after s) := by
  have rules : (tying name strict).Evaluable := tying_evaluable
  have proceed : ∀ {α} {x : Eval α} {s}, tying name strict s x x →
      tying name strict s (do let _ ← x; return .proceed) (do let _ ← x; return Flow.proceed) :=
    fun h => rules.bind h fun _ _ _ => rules.pure _
  have kept : ∀ {x : Eval Flow}, tying name strict s x x → Tied name strict (x.after s) := fun h => h hs
  unfold Statement.ties at passes
  rw [hs.inFunction, if_neg Bool.false_ne_true] at passes
  cases handler with
  | declare =>
    cases st with
    | declaration scope type names value line =>
      refine kept (proceed fun hs => parts.declare hs fun declares here => ?_)
      subst declares
      have clear := of_decide_eq_true passes here
      rwa [Evaluator.handle, Run.after_bind_pure] at clear
    | _ => exact hs
  | assign =>
    cases st with
    | assignment target value line =>
      refine kept (rules.bind (parts.exprs.eval value s) fun v t _ => ?_)
      exact rules.bind (parts.exprs.assign rules target v line t) fun _ _ _ => rules.pure _
    | _ => exact hs
  | conditional =>
    cases st with
    | conditional branches otherwise line => exact parts.conditional otherwise branches s hs
    | _ => exact hs
  | whileLoop =>
    cases st with
    | whileLoop test body line =>
      exact inLoop (parts.run body (.repeated test ev.passes) (fun _ hn => nomatch hn) _) hs
    | _ => exact hs
  | forLoop =>
    cases st with
    | forLoop bound source body line =>
      by_cases same : bound = name
      · have behind := loose.forLoop bound (fun _ => rfl) source body line s hs.loose
        exact { behind with agrees := fun strict => of_decide_eq_true passes same (hs.agrees strict) }
      · exact parts.forLoop bound (absurd · same) source body line s hs
    | _ => exact hs
  | defineFunction =>
    cases st with
    | function signature body =>
      refine kept (proceed (RunRelation.update_of rules.quiet fun ht hx hs => ?_))
      rw [Run.after_ok hx, defineFunction_eq_ok ht]
      exact { hs with }
    | _ => exact hs
  | returnValue =>
    cases st with
    | returnValue value line =>
      cases value with
      | some e => exact kept (rules.bind (parts.exprs.eval e s) fun _ _ _ => rules.pure _)
      | none => exact hs
    | _ => exact hs
  | breakLoop => exact kept (rules.get (rules.unless fun _ => rules.pure _))
  | block =>
    cases st with
    | block body => exact parts.block body s hs
    | _ => exact hs
  | call =>
    cases st with
    | call name arguments line => exact kept (proceed (parts.exprs.call rules name arguments line _ s))
    | _ => exact hs
  | invoke =>
    cases st with
    | invoke path arguments line =>
      refine kept (rules.bind (rules.get (rules.unless fun _ => ?_)) fun _ _ _ => rules.pure _)
      exact rules.bind (parts.exprs.initializer rules path s) fun target t _ =>
        rules.bind (parts.exprs.evalAll rules arguments t) fun values _ _ => rules.pure _
    | _ => exact hs
  | expression =>
    cases st with
    | expression e line =>
      refine kept (rules.bind (parts.exprs.eval e s) fun v t _ => ?_)
      dsimp only
      split
      · exact rules.bind (rules.print _) fun _ _ _ => rules.pure _
      · exact rules.pure _
    | _ => exact hs
  | inert => exact hs
  | announce text => exact kept (proceed (rules.print text))

theorem statement (loose : TiedParts name false env ev) {st : Statement}
    (passes : st.ties name s ((ev.statement env st).after s) = true) (hs : Tied name strict s) :
    Tied name strict ((ev.statement env st).after s) := by
  unfold Evaluator.statement at passes ⊢
  cases hk : Entries.get? st.kind env.handlers with
  | some handler => rw [hk] at passes; exact parts.handle loose passes hs
  | none => exact hs

end Tested

end TiedParts

section Tethered

variable [DecidableEq Value]

/-- **The tethered evaluator keeps the invariant**, in both forms. -/
theorem tiedParts_tethered (name : String) (stop : Halt Empty) (n : Nat) (env : Environment) :
    ∀ strict, TiedParts name strict env (tethered name stop n) := by
  induction n with
  | zero => exact fun _ => ⟨tying_eval 0 env, fun _ _ hs => hs, tying_invoke 0 env⟩
  | succ n ih =>
    refine fun strict => ⟨tying_eval (n + 1) env, fun st s hs => ?_, tying_invoke (n + 1) env⟩
    show Tied name strict ((Run.provided (st.ties name) stop ((tethered name stop n).statement env st)).after s)
    obtain same | ⟨passes, same⟩ :=
      Run.after_provided (st.ties name) stop ((tethered name stop n).statement env st) s
    · rw [same]; exact hs
    · rw [same]; exact (ih strict).statement (ih false) passes hs

end Tethered

end State
end Tether

/-! ## Programs -/

namespace Evaluator

section Prefixes

variable {ev : Evaluator} {env : Environment} {origin : Option String} {depth : Nat} {sts rest : List Statement}
  {s t : State}

theorem Between.append (h : Between ev env origin depth sts s rest t) (more : List Statement) :
    Between ev env origin depth (sts ++ more) s (rest ++ more) t := by
  induction h with
  | start => exact .start
  | proceed before ends ih => exact .proceed ih ends
  | leaveLoop before ends ih => exact .leaveLoop ih ends
  | invoke before ends served ih => exact .invoke ih ends served

/-- A program that halts does so before what comes behind. -/
theorem topLevel_append_error {halt : Halt ProgramError} (h : ev.topLevel env origin depth sts s = .error halt t)
    (more : List Statement) : ev.topLevel env origin depth (sts ++ more) s = .error halt t := by
  induction sts generalizing s with
  | nil => cases h
  | cons st rest ih =>
    rw [List.cons_append]
    rw [topLevel] at h ⊢
    cases hx : Run.mapError ProgramError.ofRuntime (ev.exec env st) s with
    | error halt' u => rw [Run.bind_error hx] at h ⊢; exact h
    | ok flow u =>
      rw [Run.bind_ok hx] at h ⊢
      cases flow with
      | proceed => exact ih h
      | leaveLoop => exact ih h
      | result v => cases h
      | invoke request =>
        dsimp only at h ⊢
        cases hr : ev.invoke env origin depth request u with
        | error halt' w => rw [Run.bind_error hr] at h ⊢; exact h
        | ok served w => rw [Run.bind_ok hr] at h ⊢; exact ih h

end Prefixes

section Tether

variable [DecidableEq Value] {name : String} {stop : Halt Empty} {n : Nat} {env : Environment} {origin : Option String}
  {depth : Nat} {sts rest : List Statement} {s t u : State}

/-- The tether stops a statement, and the program there, or lets it do what it does. -/
theorem Between.exec_tethered (h : Between (tethered name stop n) env origin depth sts s [] t) {st : Statement}
    {flow : Flow} (ends : (within n).exec env st t = .ok flow u) :
    (∃ w, (tethered name stop n).topLevel env origin depth (sts ++ [st]) s = .error stop.outright w) ∨
      (tethered name stop n).exec env st t = .ok flow u := by
  obtain ⟨w, stops⟩ | same := (tethered_cutShort name stop n).exec env st t
  · refine .inl ⟨w, ?_⟩
    rw [(h.append [st]).topLevel_eq]
    exact Run.bind_error ((Run.mapError_error stops).trans (by rw [Halt.map_outright]))
  · exact .inr (same.trans ends)

/-- The tether has stopped a program among the statements before a point, or lets it
come there with the copies together. -/
theorem Between.tied (h : Between (within n) env origin depth sts s rest t) (hs : s.Tied name true) :
    ∃ done, sts = done ++ rest ∧
      ((∃ u, (tethered name stop n).topLevel env origin depth done s = .error stop.outright u) ∨
        Between (tethered name stop n) env origin depth done s [] t ∧ t.Tied name true) := by
  have parts := State.tiedParts_tethered name stop n env true
  have step : ∀ {st rest t u flow}, (∃ done, sts = done ++ st :: rest ∧
      ((∃ u, (tethered name stop n).topLevel env origin depth done s = .error stop.outright u) ∨
        Between (tethered name stop n) env origin depth done s [] t ∧ t.Tied name true)) →
      (within n).exec env st t = .ok flow u →
      ∃ done, sts = done ++ rest ∧
        ((∃ u, (tethered name stop n).topLevel env origin depth done s = .error stop.outright u) ∨
          Between (tethered name stop n) env origin depth done s [st] t ∧
            (tethered name stop n).exec env st t = .ok flow u ∧ u.Tied name true) := by
    intro st rest t u flow before ends
    obtain ⟨done, rfl, reached⟩ := before
    refine ⟨done ++ [st], by simp, ?_⟩
    obtain ⟨w, stopped⟩ | ⟨there, ht⟩ := reached
    · exact .inl ⟨w, topLevel_append_error stopped [st]⟩
    obtain stopped | same := there.exec_tethered ends
    · exact .inl stopped
    · exact .inr ⟨there.append [st], same, Run.after_ok same ▸ parts.exec st t ht⟩
  induction h with
  | start => exact ⟨[], rfl, .inr ⟨.start, hs⟩⟩
  | proceed before ends ih =>
    obtain ⟨done, same, reached⟩ := step ih ends
    exact ⟨done, same, reached.imp_right fun ⟨there, ends, hu⟩ => ⟨.proceed there ends, hu⟩⟩
  | leaveLoop before ends ih =>
    obtain ⟨done, same, reached⟩ := step ih ends
    exact ⟨done, same, reached.imp_right fun ⟨there, ends, hu⟩ => ⟨.leaveLoop there ends, hu⟩⟩
  | @invoke st rest t u w request before ends served ih =>
    obtain ⟨done, same, stopped | ⟨there, ends, hu⟩⟩ := step ih ends
    · exact ⟨done, same, .inl stopped⟩
    refine ⟨done, same, ?_⟩
    obtain ⟨x, stops⟩ | serves := (tethered_cutShort name stop n).invoke env origin depth request u
    · exact .inl ⟨x, there.topLevel_eq.trans ((Run.bind_ok (Run.mapError_ok ends)).trans (Run.bind_error stops))⟩
    · have served := serves.trans served
      exact .inr ⟨.invoke there ends served, Run.after_ok served ▸ parts.invoke origin depth request u hu⟩

end Tether

end Evaluator

namespace State

variable {name : String}

/-- A program starts with both copies together, if no symbol has the name of its
arguments. -/
theorem tied_initial {arguments : List Value} {s : State} (ascending : Entries.Ascending s.registry.symbols)
    (agrees : Coherent name { s with toContext := .initial arguments }) :
    Tied name true { s with toContext := .initial arguments } :=
  ⟨rfl, ascending, ⟨trivial, .inr rfl⟩, fun _ => agrees⟩

/-- Where the copies agree a function reads what the program reads, unless it has a
variable of its own or there is a global. -/
theorem Coherent.lookup_enterCall {t : State} (h : t.Coherent name) (one : t.scopes.length = 1) {frame : Scope}
    (free : Entries.get? name frame = none) (unshared : Entries.get? name t.globals = none) {w : Value}
    (known : t.registry.get? name = some w) : (t.enterCall frame).lookup name = t.lookup name := by
  obtain ⟨own, hs⟩ := List.length_eq_one_iff.mp one
  have outside : local? name t.scopes = Entries.get? name t.toContext.frame := by
    rw [Context.frame, hs]
    show local? name [own] = Entries.get? name own
    cases hv : Entries.get? name own <;> simp [local?, hv]
  have inside : (t.enterCall frame).lookup name = (Entries.get? name t.constants).or (some w) := by
    rw [lookup_eq_or]
    show (Entries.get? name t.constants).or ((local? name [frame]).or
      ((Entries.get? name t.globals).or (t.registry.get? name))) = _
    simp [local?, free, unshared, known]
  rw [inside, lookup_eq_or, outside, unshared, known]
  cases hv : Entries.get? name t.toContext.frame with
  | none => rfl
  | some v =>
    obtain rfl := h v hv w known
    rfl

end State

/-- **The copies of a variable agree between two top-level statements**, or the tether
has stopped the run of the statements before. Until it does that the run is the one of
the language. And where the copies agree, functions read what the program reads. -/
theorem Evaluator.between_coherent [DecidableEq Value] (name : String) (stop : Halt Empty) {n : Nat} {env : Environment}
    {origin : Option String} {depth : Nat} {done rest : List Statement} {arguments : List Value} {s t : State}
    (ascending : Entries.Ascending s.registry.symbols)
    (agrees : State.Coherent name { s with toContext := .initial arguments })
    (h : Between (within n) env origin depth (done ++ rest) { s with toContext := .initial arguments } rest t) :
    let start : State := { s with toContext := .initial arguments }
    cutShort stop start ((tethered name stop n).topLevel env origin depth done)
      ((within n).topLevel env origin depth done) ∧
    ((∃ u, (tethered name stop n).topLevel env origin depth done start = .error stop.outright u) ∨
      t.Coherent name ∧ ∀ (frame : Scope) (w : Value), Entries.get? name frame = none →
        Entries.get? name t.globals = none → t.registry.get? name = some w →
        (t.enterCall frame).lookup name = t.lookup name) := by
  intro start
  have cut := (tethered_cutShort name stop n).topLevel (cutShort_executable stop) env origin depth done start
  refine ⟨cut, ?_⟩
  obtain ⟨_, same, reached⟩ := h.tied (State.tied_initial ascending agrees)
  obtain rfl := List.append_cancel_right same
  refine reached.imp_right fun ⟨_, ht⟩ => ⟨ht.agrees rfl, fun frame w free unshared known => ?_⟩
  have one : t.scopes.length = 1 := h.level.scopes (List.cons_ne_nil _ _)
  exact (ht.agrees rfl).lookup_enterCall one free unshared known

/-- Equality of values, which is computed for integers. -/
noncomputable def Value.integersDecEq : DecidableEq Value
  | .integer i, .integer j => decidable_of_iff (i = j) ⟨congrArg Value.integer, Value.integer.inj⟩
  | _, _ => Classical.propDecidable _

/-- A function under a name that is free. -/
theorem Evaluator.exec_function (n : Nat) (name : String) {env : Environment} {signature : Signature} {body : Block}
    {s : State} (builtin : env.handlers = Handler.builtin) (hn : signature.name = name)
    (free : (Library.functions ++ Library.conversions ++ Library.methods).any (·.1 == Text.lowerString name) = false)
    (unused : Entries.contains name s.functions = false) :
    (within (n + 1)).exec env (.function signature body) s =
      .ok .proceed { s with functions := Entries.insert name ⟨signature, body⟩ s.functions } := by
  subst hn
  have unknown : Library.isBuiltin (Text.lowerString signature.name) = false := by
    rw [Library.isBuiltin, Library.table, Entries.contains_ofList, free]
  show (within n).statement env _ s = _
  rw [statement_eq _ builtin]
  refine Run.bind_ok (Run.update_ok ?_)
  simp [defineFunction, unknown, unused]

/-- A loop that assigns to a variable of the program, and calls a function that prints
and reads it. -/
theorem Evaluator.between_coherent_loop :
    let pair : Expr := .list [.variable "a" 3, .literal (.integer 5) 3] 3
    let body : Block := .mk [.call "imprimir" [.call "longitud" [pair] 3] 3] 3
    let sts : List Statement :=
      [.declaration .variable (some ⟨[], 0, "entero"⟩) ["a"] (some (.literal (.integer 1) 1)) 1,
        .function ⟨"f", [], .integer, 2⟩ body,
        .forLoop "i" (.collection (.list [.literal (.integer 5) 4, .literal (.integer 6) 4] 4))
          (.mk [.assignment (.variable "a") (.variable "i" 5) 5, .call "f" [] 6] 5) 4]
    let start : State := { toWorld := {}, toContext := .initial [] }
    (Entries.Ascending start.registry.symbols ∧ start.Coherent "a") ∧
      ∃ t, Between (within 9) {} none 0 sts start [] t ∧ t.Coherent "a" ∧
        t.lookup "a" = some (.integer 6) ∧ (t.enterCall []).lookup "a" = some (.integer 6) ∧ t.output = ["2", "2"] := by
  intro pair body sts start
  let _ := Value.integersDecEq
  have ascending : Entries.Ascending start.registry.symbols := .nil
  have agrees : start.Coherent "a" := State.coherent_of_symbol rfl
  have kept :
      ¬ ∃ u, (tethered "a" .outOfFuel 9).topLevel {} none 0 sts start = .error (Halt.outright .outOfFuel) u := by
    intro stopped
    obtain ⟨u, stopped⟩ := stopped
    obtain ⟨_, w, ends, -⟩ := Run.exists_of_yields (show Run.yields (fun _ => true)
      ((tethered "a" .outOfFuel 9).topLevel {} none 0 sts) start = true by decide +kernel)
    rw [stopped] at ends
    cases ends
  have between : ∃ t, Between (within 9) {} none 0 sts start [] t ∧
      t.lookup "a" = some (.integer 6) ∧ (t.enterCall []).lookup "a" = some (.integer 6) ∧ t.output = ["2", "2"] :=
    ⟨_, .proceed (.proceed (.proceed .start rfl) (exec_function 8 "f" rfl rfl rfl rfl)) rfl, rfl, rfl, rfl⟩
  obtain ⟨t, between, reads, called, printed⟩ := between
  obtain ⟨-, reached⟩ := between_coherent "a" .outOfFuel (s := start) ascending agrees
    (show Between (within 9) {} none 0 (sts ++ []) start [] t from between)
  exact ⟨⟨ascending, agrees⟩, t, between, (reached.resolve_left kept).1, reads, called, printed⟩

/-- The copies are apart behind a call of a function that assigns to a variable
of the program: the registry has the new value, the frame the old one. -/
theorem Evaluator.between_incoherent :
    let lost : List Statement :=
      [.declaration .variable (some ⟨[], 0, "entero"⟩) ["a"] (some (.literal (.integer 1) 1)) 1,
        .function ⟨"f", [], .integer, 2⟩ (.mk [.assignment (.variable "a") (.literal (.integer 2) 3) 3] 3),
        .call "f" [] 4]
    ∃ t, Between (within 5) {} none 0 lost { toWorld := {}, toContext := .initial [] } [] t ∧
      t.lookup "a" = some (.integer 1) ∧ t.registry.get? "a" = some (.integer 2) ∧ ¬ t.Coherent "a" := by
  intro lost
  refine ⟨_, .proceed (.proceed (.proceed .start rfl) (exec_function 4 "f" rfl rfl rfl rfl)) rfl, rfl, rfl,
    fun coherent => ?_⟩
  cases coherent (.integer 1) rfl (.integer 2) rfl

end Guion
