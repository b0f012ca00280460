/-
Lines in error do nothing.

A tolerated line that could not be read stays in its program as an `error`
statement. Without these statements a run goes as before: it ends the same
way, in the same state but for the bodies of the functions that are stored.

The proof follows a run statement by statement (`Pruned.statement`). The two
runs store other bodies under the same names, so they are compared from a
state and from the state with pruned bodies, and a call of a stored body is
followed like any other statement. A statement that does nothing costs some
depth all the same, which the pruned run does not need; `skipping` is the
evaluator without that cost, and gives the same answers.
-/
import Guion.Proofs.Run.Loops
import Guion.Proofs.Run.Recast
import Guion.Proofs.Syntax.WithoutErrors

namespace Guion

open Evaluator

/-- The context with the bodies of its functions pruned. -/
def Context.withoutErrors (c : Context) : Context :=
  { c with functions := Entries.mapValues FunctionDef.withoutErrors c.functions }

/-- The state with the bodies of its functions pruned, and all else as it is. -/
def State.withoutErrors (s : State) : State := s.recast Context.withoutErrors

/-! ## What pruned bodies leave alone -/

theorem Context.withoutErrors_transparent : Transparent withoutErrors where
  constants _ := rfl
  callDepth _ := rfl
  functions c name := by
    show Entries.contains name (Entries.mapValues FunctionDef.withoutErrors c.functions) = _
    unfold Entries.contains
    rw [Entries.get?_mapValues, Option.isSome_map]
  reads _ _ := rfl
  sets _ _ _ := rfl
  erases _ _ := rfl
  defines _ _ _ := rfl

namespace State

theorem errorFree_withoutErrors (s : State) (name : String) (function : FunctionDef)
    (h : Entries.get? name s.withoutErrors.functions = some function) : ErrorFree function.body.statements := by
  have stored : (Entries.get? name s.functions).map FunctionDef.withoutErrors = some function :=
    (Entries.get?_mapValues _ name s.functions).symm.trans h
  obtain ⟨original, -, rfl⟩ := Option.map_eq_some_iff.mp stored
  show ErrorFree original.body.withoutErrors.statements
  rw [original.body.statements_withoutErrors]
  exact errorFree_withoutErrorsIn _

theorem defineLocal_withoutErrors (name : String) (value : Value) (s : State) :
    s.withoutErrors.defineLocal name value = (s.defineLocal name value).withoutErrors := by
  unfold defineLocal
  rw [show s.withoutErrors.scopes = s.scopes from rfl]
  cases s.scopes <;> rfl

theorem bindLoopVariable_withoutErrors (name : String) (value : Value) (s : State) :
    s.withoutErrors.bindLoopVariable name value = (s.bindLoopVariable name value).withoutErrors := by
  unfold bindLoopVariable
  rw [show s.withoutErrors.scopes = s.scopes from rfl]
  cases local? name s.scopes with
  | some _ => rfl
  | none => exact defineLocal_withoutErrors name value s

theorem popScope_withoutErrors (s : State) : s.withoutErrors.popScope = s.popScope.withoutErrors := by
  unfold popScope
  rw [show s.withoutErrors.scopes = s.scopes from rfl]
  match s.scopes with
  | [] | [_] => rfl
  | _ :: _ :: _ => rfl

theorem declareName_withoutErrors (scope : DeclarationScope) (type : Option TypeSpec) (initial : Option Value)
    (line : Nat) (name : String) (s : State) :
    declareName scope type initial line name s.withoutErrors =
      (declareName scope type initial line name s).map withoutErrors := by
  unfold declareName
  rw [show s.withoutErrors.registry = s.registry from rfl]
  cases declaredValue s.registry type name initial line with
  | error cause => rfl
  | ok value =>
    cases scope with
    | «variable» =>
      dsimp only [bind, Except.bind]
      rw [show s.withoutErrors.inFunction = s.inFunction from rfl]
      split
      · exact congrArg Except.ok (defineLocal_withoutErrors name value s)
      · cases (s.registry.redeclare name value).mapError (RuntimeError.registry · line) with
        | error cause => rfl
        | ok found =>
          exact congrArg Except.ok (defineLocal_withoutErrors name found.1 { s with registry := found.2 })
    | global => rfl
    | constant =>
      dsimp only [bind, Except.bind]
      rw [show s.withoutErrors.constants = s.constants from rfl]
      split <;> rfl

theorem defineFunction_withoutErrors (function : FunctionDef) (s : State) :
    defineFunction function.withoutErrors s.withoutErrors = (defineFunction function s).map withoutErrors := by
  have known : Entries.contains function.signature.name s.withoutErrors.functions =
      Entries.contains function.signature.name s.functions :=
    Context.withoutErrors_transparent.functions s.toContext _
  unfold defineFunction
  rw [show function.withoutErrors.signature = function.signature from rfl]
  dsimp only
  rw [known]
  split
  · rfl
  split
  · rfl
  · refine congrArg (fun functions => Except.ok { s with functions := functions }) ?_
    exact (Entries.mapValues_insert FunctionDef.withoutErrors _ function s.functions).symm

end State

/-- A run, and the run of a pruned program from the state with pruned bodies. -/
abbrev Run.Prunes (s : State) (x y : Run ε α) : Prop := Follows Context.withoutErrors s x y

/-! ## Runs of pruned programs -/

namespace Evaluator

open Run

/-- An evaluator that does for pruned parts what it does for the parts, and
passes over lines in error. -/
structure Pruned (env : Environment) (ev : Evaluator) : Prop where
  eval : ∀ e s, Prunes s (ev.eval env e) (ev.eval env e)
  exec : ∀ st s, Prunes s (ev.exec env st) (ev.exec env st.withoutErrors)
  skip : ∀ message line s, ev.exec env (.error message line) s = .ok .proceed s
  invoke : ∀ origin depth request s,
    Prunes s (ev.invoke env origin depth request) (ev.invoke env origin depth request)

namespace Pruned

variable {env : Environment} {ev : Evaluator} (parts : Pruned env ev)
include parts

theorem serve (request : Invocation) (s : State) : Prunes s (ev.serve env request) (ev.serve env request) := by
  unfold Evaluator.serve
  cases env.invoker with
  | none => exact .pure _
  | recorder => exact .bind (.print _) fun _ _ _ => .pure _
  | refuser => exact .fail _
  | programs origin depth =>
    exact .bind (.mapError _ (parts.invoke origin depth request s)) fun _ _ _ => .pure _

/-- A sequence goes on behind a line in error in the state before it. -/
theorem statements (sts : List Statement) (s : State) :
    Prunes s (ev.statements env sts) (ev.statements env (withoutErrorsIn sts)) := by
  induction sts generalizing s with
  | nil => exact .pure _
  | cons st rest ih =>
    unfold withoutErrorsIn
    split
    · next h =>
      obtain ⟨message, line, rfl⟩ := st.eq_error h
      have skipped : ev.statements env (.error message line :: rest) s = ev.statements env rest s :=
        bind_ok (parts.skip message line s)
      unfold Prunes Follows
      rw [skipped]
      exact ih s
    · refine .bind (parts.exec st s) fun flow t _ => ?_
      cases flow with
      | proceed => exact ih t
      | invoke request =>
        refine .bind (parts.serve request t) fun served u _ => ?_
        cases served with
        | proceed => exact ih u
        | _ => exact .pure _
      | _ => exact .pure _

theorem block (body : Block) (s : State) : Prunes s (ev.block env body) (ev.block env body.withoutErrors) := by
  unfold Evaluator.block
  rw [body.statements_withoutErrors]
  exact .bracket rfl State.popScope_withoutErrors (parts.statements body.statements _)

/-- A call of a pruned body. -/
theorem callDefined (function : FunctionDef) (arguments : List Value) (line : Nat) (s : State) :
    Prunes s (ev.callDefined env function arguments line) (ev.callDefined env function.withoutErrors arguments line) := by
  have body := function.body.statements_withoutErrors
  refine .get (.unless Iff.rfl fun _ => .unless Iff.rfl fun _ => .bind (.ofExcept _) fun frame t _ => ?_)
  refine .bind (.bracket rfl (fun _ => rfl) ?_) fun flow u _ => ?_
  · show Prunes _ _ (ev.statements env function.body.withoutErrors.statements)
    rw [body]
    exact parts.statements function.body.statements _
  · cases flow with
    | result v => exact .ofExcept _
    | invoke _ => exact .fail _
    | _ => exact .pure _

theorem exprs : EvalFollows Context.withoutErrors env ev where
  eval := parts.eval
  calls name function arguments line s known := by
    refine ⟨function.withoutErrors, ?_, parts.callDefined function arguments line s⟩
    show Entries.get? name (Entries.mapValues _ s.functions) = _
    rw [Entries.get?_mapValues, known]
    rfl

theorem condition (e : Expr) (s : State) : Prunes s (ev.condition env e) (ev.condition env e) :=
  parts.exprs.condition e s

theorem conditional (otherwise : Option Block) (branches : List (Expr × Block)) (s : State) :
    Prunes s (ev.conditional env otherwise branches)
      (ev.conditional env (withoutErrorsInOption otherwise) (withoutErrorsInBranches branches)) := by
  induction branches generalizing s with
  | nil =>
    cases otherwise with
    | none => exact .pure _
    | some body => exact parts.block body s
  | cons branch rest ih =>
    obtain ⟨test, body⟩ := branch
    refine .bind (parts.condition test s) fun b t _ => ?_
    cases b with
    | true => exact parts.block body t
    | false => exact ih t

/-! ### Loops -/

theorem begin (p : LoopPoint) (s : State) : Prunes s (p.begin ev env) (p.begin ev env) := by
  have bound : ∀ name value (next : LoopPoint) (t : State),
      Prunes t (do modify (·.bindLoopVariable name value); return some next : Eval (Option LoopPoint))
        (do modify (·.bindLoopVariable name value); return some next) :=
    fun name value next t => .bind (.change (t.bindLoopVariable_withoutErrors name value)) fun _ _ _ => .pure _
  cases p with
  | repeated test passes =>
    cases passes with
    | zero => exact .throw _
    | succ passes =>
      refine .bind (parts.condition test s) fun b t _ => ?_
      cases b <;> exact .pure _
  | overItems name rest =>
    cases rest with
    | nil => exact .pure _
    | cons item rest => exact bound name item _ s
  | drawn name failure rest =>
    cases rest with
    | nil =>
      cases failure with
      | none => exact .pure _
      | some cause => exact .fail cause
    | cons item rest => cases failure <;> exact bound name item _ s
  | pulled name pull failed passes given =>
    cases passes with
    | zero => exact .throw _
    | succ passes =>
      simp only [LoopPoint.begin]
      cases pull given with
      | finished => exact .pure _
      | failed reason => exact .fail _
      | item value => exact bound name value _ s
  | counted name stop step line integral passes current direction =>
    cases passes with
    | zero => exact .throw _
    | succ passes =>
      refine .bind (parts.eval stop s) fun _ t _ => .bind (.ofExcept _) fun last u _ =>
        .bind (parts.exprs.rangeStep step direction current last line u) fun found w _ => .unless Iff.rfl fun _ => ?_
      split
      · exact .pure _
      · exact bound name _ _ w

/-- Every pass of a loop goes as before, so the loop does. -/
theorem run (body : Block) (p : LoopPoint) (s : State) :
    Prunes s (p.run ev env body) (p.run ev env body.withoutErrors) := by
  induction hl : p.left using Nat.strongRecOn generalizing p s with
  | ind k ih =>
    rw [LoopPoint.run_eq, LoopPoint.run_eq]
    refine .bind (parts.begin p s) fun begun t begins => ?_
    cases begun with
    | none => exact .pure _
    | some next =>
      refine .bind (parts.block body t) fun flow u _ => ?_
      cases flow with
      | proceed => exact ih next.left (hl ▸ (LoopPoint.begin_next begins).1) next u rfl
      | _ => exact .pure _

omit parts in
theorem inLoop {x y : Eval Flow} {s : State} (h : Prunes { s with loopDepth := s.loopDepth + 1 } x y) :
    Prunes s (inLoop x) (Evaluator.inLoop y) :=
  .bracket rfl (fun _ => rfl) h

theorem forStart (name : String) (source : ForSource) (line : Nat) (s : State) :
    Prunes s (ev.forStart env name source line) (ev.forStart env name source line) := by
  have clear := Context.withoutErrors_transparent
  cases source with
  | range start stop step =>
    exact .bind (parts.eval start s) fun first t _ => .bind (.ofExcept _) fun current u _ => .pure _
  | collection e =>
    refine .bind (parts.eval e s) fun v t _ => .bind (.read (clear.follow t v line)) fun collection u _ => ?_
    cases collection with
    | object identity type description contents =>
      cases contents with
      | refused reason => exact .fail _
      | file path =>
        refine .bind (.findFile env path) fun answer w _ => ?_
        cases answer with
        | error e => exact .fail _
        | ok node => exact .pure _
      | _ => exact .pure _
    | _ => exact .pure _

theorem forLoop (name : String) (source : ForSource) (body : Block) (line : Nat) (s : State) :
    Prunes s (ev.forLoop env name source body line) (ev.forLoop env name source body.withoutErrors line) := by
  rw [forLoop_eq, forLoop_eq]
  refine inLoop (.bind (parts.forStart name source line _) fun found t _ => ?_)
  obtain ⟨hold, p⟩ := found
  cases hold with
  | nothing => exact parts.run body p t
  | stream => exact .bracket rfl (fun _ => rfl) (parts.run body p _)
  | reading => exact .bracket rfl (fun _ => rfl) (parts.run body p _)

/-! ### Statements -/

theorem declare (scope : DeclarationScope) (type : Option TypeSpec) (names : List String) (value : Option Expr)
    (line : Nat) (s : State) :
    Prunes s (ev.declare env scope type names value line) (ev.declare env scope type names value line) := by
  have clear := Context.withoutErrors_transparent
  have declares : ∀ initial (s : State), Prunes s (declareNames scope type initial line names)
      (declareNames scope type initial line names) := by
    intro initial
    induction names with
    | nil => exact fun _ => .pure ()
    | cons name rest ih =>
      exact fun s => .bind (.update (s.declareName_withoutErrors scope type initial line name)) fun _ t _ => ih t
  cases value with
  | none => exact declares none s
  | some e => exact .bind (parts.exprs.initializer clear e s) fun v t _ => declares (some v) t

/-- A handler does for a statement with pruned blocks what it does for the
statement; one that is not meant for the statement fails in both cases. -/
theorem handle (handler : Handler) (st : Statement) (s : State) :
    Prunes s (ev.handle env handler st) (ev.handle env handler st.withoutErrors) := by
  have clear := Context.withoutErrors_transparent
  have proceed : ∀ {α} {x y : Eval α}, Prunes s x y →
      Prunes s (do let _ ← x; return .proceed) (do let _ ← y; return Flow.proceed) :=
    fun h => .bind h fun _ _ _ => .pure _
  have unmeant : ∀ {x y : Eval Flow}, x = Run.fail (.unrecognizedInstruction st.kind st.line) →
      y = Run.fail (.unrecognizedInstruction st.withoutErrors.kind st.withoutErrors.line) → Prunes s x y := by
    intro x y hx hy
    rw [hx, hy, st.kind_withoutErrors, st.line_withoutErrors]
    exact .fail _
  cases handler with
  | declare =>
    cases st with
    | declaration scope type names value line => exact proceed (parts.declare scope type names value line s)
    | _ => exact unmeant rfl rfl
  | assign =>
    cases st with
    | assignment target value line =>
      exact .bind (parts.eval value s) fun v t _ =>
        .bind (parts.exprs.assign clear target v line t) fun _ _ _ => .pure _
    | _ => exact unmeant rfl rfl
  | conditional =>
    cases st with
    | conditional branches otherwise line => exact parts.conditional otherwise branches s
    | _ => exact unmeant rfl rfl
  | whileLoop =>
    cases st with
    | whileLoop test body line => exact inLoop (parts.run body (.repeated test ev.passes) _)
    | _ => exact unmeant rfl rfl
  | forLoop =>
    cases st with
    | forLoop name source body line => exact parts.forLoop name source body line s
    | _ => exact unmeant rfl rfl
  | defineFunction =>
    cases st with
    | function signature body => exact proceed (.update (s.defineFunction_withoutErrors ⟨signature, body⟩))
    | _ => exact unmeant rfl rfl
  | returnValue =>
    cases st with
    | returnValue value line =>
      cases value with
      | some e => exact .bind (parts.eval e s) fun _ _ _ => .pure _
      | none => exact .pure _
    | _ => exact unmeant rfl rfl
  | breakLoop =>
    show Prunes s _ (do
      if (← get).loopDepth = 0 then Run.fail (RuntimeError.breakOutsideLoop st.withoutErrors.line)
      return Flow.leaveLoop)
    rw [st.line_withoutErrors]
    exact .get (.unless Iff.rfl fun _ => .pure _)
  | block =>
    cases st with
    | block body => exact parts.block body s
    | _ => exact unmeant rfl rfl
  | call =>
    cases st with
    | call name arguments line => exact proceed (parts.exprs.call clear name arguments line _ s)
    | _ => exact unmeant rfl rfl
  | invoke =>
    cases st with
    | invoke path arguments line =>
      exact .bind (parts.exprs.request clear path arguments line s) fun _ _ _ => .pure _
    | _ => exact unmeant rfl rfl
  | expression =>
    cases st with
    | expression e line =>
      refine .bind (parts.eval e s) fun v t _ => ?_
      dsimp only
      split
      · exact .bind (.print _) fun _ _ _ => .pure _
      · exact .pure _
    | _ => exact unmeant rfl rfl
  | inert => exact .pure _
  | announce text => exact proceed (.print text)

/-- The effect of a statement with pruned blocks. -/
theorem statement (st : Statement) (s : State) :
    Prunes s (ev.statement env st) (ev.statement env st.withoutErrors) := by
  unfold Evaluator.statement
  rw [st.kind_withoutErrors, st.line_withoutErrors]
  cases Entries.get? st.kind env.handlers with
  | some handler => exact parts.handle handler st s
  | none => exact .fail _

theorem topLevel (origin : Option String) (depth : Nat) (sts : List Statement) (s : State) :
    Prunes s (ev.topLevel env origin depth sts) (ev.topLevel env origin depth (withoutErrorsIn sts)) := by
  induction sts generalizing s with
  | nil => exact .pure ()
  | cons st rest ih =>
    unfold withoutErrorsIn
    split
    · next h =>
      obtain ⟨message, line, rfl⟩ := st.eq_error h
      have skipped : ev.topLevel env origin depth (.error message line :: rest) s = ev.topLevel env origin depth rest s :=
        bind_ok (mapError_ok (parts.skip message line s))
      unfold Prunes Follows
      rw [skipped]
      exact ih s
    · refine .bind (.mapError _ (parts.exec st s)) fun flow t _ => ?_
      cases flow with
      | proceed => exact ih t
      | leaveLoop => exact ih t
      | result _ => exact .pure ()
      | invoke request => exact .bind (parts.invoke origin depth request t) fun _ u _ => ih u

end Pruned

/-! ## The depth of lines in error -/

/-- The evaluator of the language, but that it passes over lines in error without
any depth, where they are tolerated. -/
def skipping : Nat → Evaluator
  | 0 =>
    { exhausted with
      exec := fun env st =>
        if st.isError = true ∧ Entries.get? "error" env.handlers = some .inert then pure .proceed
        else throw .outOfFuel }
  | depth + 1 => (skipping depth).deepen depth

theorem statement_error (ev : Evaluator) {env : Environment} (inert : Entries.get? "error" env.handlers = some .inert)
    (message : String) (line : Nat) (s : State) : ev.statement env (.error message line) s = .ok .proceed s := by
  unfold statement
  rw [show Statement.kind (.error message line) = "error" from rfl, inert]
  rfl

/-- Where lines in error are tolerated, a run of the pruned program goes as the
run of the program. -/
theorem pruned_skipping {env : Environment} (inert : Entries.get? "error" env.handlers = some .inert) (n : Nat) :
    Pruned env (skipping n) := by
  induction n with
  | zero =>
    refine ⟨fun _ _ => .throw _, fun st s => ?_, fun message line s => ?_, fun _ _ _ _ => .throw _⟩
    · dsimp only [skipping]
      rw [st.isError_withoutErrors]
      split
      · exact .pure _
      · exact .throw _
    · dsimp only [skipping]
      rw [if_pos ⟨rfl, inert⟩]
      rfl
  | succ n ih =>
    exact {
      eval := fun e s => ih.exprs.expression Context.withoutErrors_transparent e s
      exec := fun st s => ih.statement st s
      skip := fun message line s => statement_error _ inert message line s
      invoke := fun origin depth request s => Evaluator.follows_invocation env s _ origin depth request }

theorem within_skipping (n : Nat) : Related outlasting (within n) (skipping n) := by
  induction n with
  | zero => exact ⟨fun _ _ s => .inl ⟨s, rfl⟩, fun _ _ s => .inl ⟨s, rfl⟩, fun _ _ _ _ s => .inl ⟨s, rfl⟩, .inl rfl⟩
  | succ n ih => exact Related.succ outlasting_executable ih (.inl rfl)

/-- One more level of depth makes up for all lines in error. -/
theorem skipping_within (n : Nat) : Related outlasting (skipping n) (within (n + 1)) := by
  induction n with
  | zero =>
    refine ⟨fun _ _ s => .inl ⟨s, rfl⟩, fun env st s => ?_, fun _ _ _ _ s => .inl ⟨s, rfl⟩, .inl rfl⟩
    by_cases h : st.isError = true ∧ Entries.get? "error" env.handlers = some .inert
    · obtain ⟨message, line, rfl⟩ := st.eq_error h.1
      refine .inr ?_
      dsimp only [skipping]
      rw [if_pos h]
      exact (statement_error (within 0) h.2 message line s).symm
    · refine .inl ⟨s, ?_⟩
      dsimp only [skipping]
      rw [if_neg h]
      rfl
  | succ n ih => exact Related.succ outlasting_executable ih (.inr ⟨Nat.le_succ n, fun s _ => .inl ⟨s, rfl⟩⟩)

/-! ## The same answers -/

/-- A computation that more depth does not change, with lines in error or
without. -/
structure Lasts (x : Evaluator → Run ε α) : Prop where
  skips : ∀ n s, outlasting s (x (within n)) (x (skipping n))
  executes : ∀ n s, outlasting s (x (skipping n)) (x (within (n + 1)))

theorem Lasts.ends_iff {x : Evaluator → Run ε α} (h : Lasts x) {s : State}
    {r : EStateM.Result (Halt ε) State α} :
    Ends x s r ↔ (∀ t, r ≠ .error .outOfFuel t) ∧ ∃ n, x (skipping n) s = r := by
  constructor
  · rintro ⟨enough, n, hn⟩
    obtain ⟨t, short⟩ | same := h.skips n s
    · exact absurd (hn.symm.trans short) (enough t)
    · exact ⟨enough, n, same.symm.trans hn⟩
  · rintro ⟨enough, n, hn⟩
    obtain ⟨t, short⟩ | same := h.executes n s
    · exact absurd (hn.symm.trans short) (enough t)
    · exact ⟨enough, n + 1, same.symm.trans hn⟩

theorem lasts_statements (env : Environment) (sts : List Statement) : Lasts (·.statements env sts) where
  skips n s := (within_skipping n).statements outlasting_executable env sts s
  executes n s := (skipping_within n).statements outlasting_executable env sts s

theorem lasts_topLevel (env : Environment) (origin : Option String) (depth : Nat) (sts : List Statement) :
    Lasts (·.topLevel env origin depth sts) where
  skips n s := (within_skipping n).topLevel outlasting_executable env origin depth sts s
  executes n s := (skipping_within n).topLevel outlasting_executable env origin depth sts s

/-- Two computations, of which one starts in the image of a state: its answers
are the images of the answers of the other. So is what the evaluator of the
language gives, unless it runs out of depth. -/
structure Reflects (f : State → State) (x y : Evaluator → Run ε α) (s : State) : Prop where
  ends : ∀ r', Ends y (f s) r' ↔ ∃ r, Ends x s r ∧ r' = endIn f r
  standard : (∃ t, x standard s = .error .outOfFuel t) ∨ (∃ t, y standard (f s) = .error .outOfFuel t) ∨
    y standard (f s) = endIn f (x standard s)

theorem reflects_of_prunes {x y : Evaluator → Run ε α} (hx : Lasts x) (hy : Lasts y) {s : State}
    (h : ∀ n, Prunes s (x (skipping n)) (y (skipping n))) : Reflects State.withoutErrors x y s where
  ends r' := by
    rw [hy.ends_iff]
    constructor
    · rintro ⟨enough, n, hn⟩
      have image : r' = endIn State.withoutErrors (x (skipping n) s) := hn.symm.trans (h n)
      refine ⟨x (skipping n) s, hx.ends_iff.mpr ⟨fun t short => ?_, n, rfl⟩, image⟩
      rw [short] at image
      exact enough _ image
    · rintro ⟨r, ends, rfl⟩
      obtain ⟨enough, n, rfl⟩ := hx.ends_iff.mp ends
      refine ⟨fun t short => ?_, n, h n⟩
      cases hr : x (skipping n) s with
      | ok a u => rw [hr] at short; cases short
      | error halt u =>
        rw [hr] at short
        cases short
        exact enough u hr
  standard := by
    obtain short | sx := hx.skips _ s
    · exact .inl short
    obtain short | sy := hy.skips _ s.withoutErrors
    · exact .inr (.inl short)
    · exact .inr (.inr ((sy.trans (h _)).trans (congrArg (endIn State.withoutErrors) sx.symm)))

/-- **Tolerated lines in error are inert.** Where they are handled as such, the
statements of a program and the statements without lines in error, at any
depth and in stored functions too, end the same way: with the same flow or
the same failure, and in the same state but for the lines in error of stored
functions. -/
theorem errors_inert {env : Environment} (inert : Entries.get? "error" env.handlers = some .inert)
    (sts : List Statement) (s : State) :
    (ErrorFree (withoutErrorsIn sts) ∧
      ∀ name function, Entries.get? name s.withoutErrors.functions = some function →
        ErrorFree function.body.statements) ∧
    Reflects State.withoutErrors (·.statements env sts) (·.statements env (withoutErrorsIn sts)) s ∧
    ∀ origin depth, Reflects State.withoutErrors (·.topLevel env origin depth sts)
      (·.topLevel env origin depth (withoutErrorsIn sts)) s := by
  have pruned := pruned_skipping inert
  exact ⟨⟨errorFree_withoutErrorsIn sts, s.errorFree_withoutErrors⟩,
    reflects_of_prunes (lasts_statements env sts) (lasts_statements env _) fun n => (pruned n).statements sts s,
    fun origin depth => reflects_of_prunes (lasts_topLevel env origin depth sts) (lasts_topLevel env origin depth _)
      fun n => (pruned n).topLevel origin depth sts s⟩

/-- A loop with a line in error, and in it a call of a stored function with one. -/
theorem errors_inert_loop :
    let signature : Signature := { name := "f", params := [], returns := .integer, line := 1 }
    let stored : FunctionDef := ⟨signature, .mk [.error "??" 2, .returnValue (some (.literal (.integer 5) 3)) 3] 1⟩
    let s : State := { toWorld := {}, toContext := { functions := [("f", stored)] } }
    let sts : List Statement :=
      [.whileLoop (.literal (.boolean true) 1) (.mk [.error "??" 2, .expression (.call "f" [] 3) 3, .breakLoop 4] 1) 1]
    let t : State := s.print "5"
    Entries.get? "error" ({} : Environment).handlers = some .inert ∧
      Ends (·.statements {} sts) s (.ok .proceed t) ∧
      Ends (·.statements {} (withoutErrorsIn sts)) s.withoutErrors (.ok .proceed t.withoutErrors) := by
  intro signature stored s sts t
  have inert : Entries.get? "error" ({} : Environment).handlers = some .inert := rfl
  have ends : Ends (·.statements {} sts) s (.ok .proceed t) := ⟨nofun, 9, rfl⟩
  exact ⟨inert, ends, ((errors_inert inert sts s).2.1.ends _).mpr ⟨_, ends, rfl⟩⟩

end Evaluator
end Guion
