/-
Runs in another context.

A computation may be started in the context of its program, or in the image
of that context under a map: with one more scope open, say, or with other
bodies under the same names of functions. `Run.Follows` says that the run in
the image ends like the run in the context itself, in the image of the state.

Expressions reach a context in few ways: they read and write variables, count
open calls, ask whether there is a function, and call it. A map that these
ways do not notice is `Transparent`, and then the value of every expression
follows if calls do (`EvalFollows.expression`). A sub-program sees nothing of
its caller's context, so it follows under every map (`follows_invocation`).

What is proved for a depth is a fact about the answers of a computation
(`Ends`): those it gives within some depth.
-/
import Guion.Proofs.Run.Bindings

namespace Guion

open Evaluator

/-- The same world with another context. -/
def State.recast (κ : Context → Context) (s : State) : State := { s with toContext := κ s.toContext }

namespace Run

/-- The computation `y` in the image of a state ends like `x` in the state
itself, in the image of the final state. -/
def Follows (κ : Context → Context) (s : State) (x y : Run ε α) : Prop :=
  y (s.recast κ) = endIn (State.recast κ) (x s)

variable {κ : Context → Context} {s : State}

theorem Follows.pure (a : α) : Follows κ s (pure a : Run ε α) (pure a) := rfl

theorem Follows.fail (cause : ε) : Follows κ s (Run.fail cause : Run ε α) (Run.fail cause) := rfl

theorem Follows.throw (halt : Halt ε) : Follows κ s (throw halt : Run ε α) (throw halt) := rfl

theorem Follows.ofExcept (r : Except ε α) : Follows κ s (Run.ofExcept r) (Run.ofExcept r) := by
  cases r <;> rfl

theorem Follows.bind {x y : Run ε α} {f g : α → Run ε β} (h : Follows κ s x y)
    (hf : ∀ a t, x s = .ok a t → Follows κ t (f a) (g a)) : Follows κ s (x >>= f) (y >>= g) := by
  unfold Follows at h ⊢
  cases hx : x s with
  | error halt t =>
    rw [hx] at h
    rw [bind_error h, bind_error hx]
    rfl
  | ok a t =>
    rw [hx] at h
    rw [bind_ok h, bind_ok hx]
    exact hf a t hx

theorem Follows.get {f g : State → Run ε α} (h : Follows κ s (f s) (g (s.recast κ))) :
    Follows κ s (get >>= f) (get >>= g) :=
  h

/-- What is read off both states alike. -/
theorem Follows.read {f : State → Except ε α} (h : f (s.recast κ) = f s) : Follows κ s (Run.read f) (Run.read f) := by
  unfold Follows
  cases hf : f s with
  | ok a => rw [read_ok hf, read_ok (h.trans hf)]; rfl
  | error cause => rw [read_error hf, read_error (h.trans hf)]; rfl

theorem Follows.findFile (env : Environment) (path : String) :
    Follows κ s (findFile env path : Run ε FileAnswer) (findFile env path) := by
  unfold Run.findFile
  cases env.files.find? path <;> rfl

/-- A change that goes the same way in the image. -/
theorem Follows.update {f g : State → Except ε State} (h : g (s.recast κ) = (f s).map (State.recast κ)) :
    Follows κ s (Run.update f) (Run.update g) := by
  unfold Follows
  cases hf : f s with
  | ok t => rw [hf] at h; rw [update_ok hf, update_ok h]; rfl
  | error cause => rw [hf] at h; rw [update_error hf, update_error h]; rfl

theorem Follows.change {f : State → State} (h : f (s.recast κ) = (f s).recast κ) :
    Follows κ s (modify f : Run ε Unit) (modify f) :=
  congrArg (EStateM.Result.ok ()) h

theorem Follows.print (line : String) : Follows κ s (modify (·.print line) : Run ε Unit) (modify (·.print line)) :=
  .change rfl

/-- A failure ahead of everything else, under a condition that both states meet
or neither. -/
theorem Follows.unless {c c' : Prop} [Decidable c] [Decidable c'] {cause : ε} {f g : Unit → Run ε α} (hc : c' ↔ c)
    (hf : ¬ c → Follows κ s (f ()) (g ())) :
    Follows κ s (if c then Run.fail cause >>= f else f ()) (if c' then Run.fail cause >>= g else g ()) := by
  by_cases h : c
  · rw [if_pos h, if_pos (hc.mpr h)]
    rfl
  · rw [if_neg h, if_neg (mt hc.mp h)]
    exact hf h

theorem Follows.mapError {x y : Run ε α} (f : ε → δ) (h : Follows κ s x y) :
    Follows κ s (Run.mapError f x) (Run.mapError f y) := by
  unfold Follows Run.mapError at *
  rw [h]
  cases x s <;> rfl

/-- What is entered and left goes the same way in the image. -/
theorem Follows.bracket {enter : State → State} {leave : State → State → State} {x y : Run ε α}
    (entered : enter (s.recast κ) = (enter s).recast κ)
    (left : ∀ t, leave (s.recast κ) (t.recast κ) = (leave s t).recast κ) (h : Follows κ (enter s) x y) :
    Follows κ s (Run.bracket enter leave x) (Run.bracket enter leave y) := by
  unfold Follows Run.bracket at *
  rw [entered, h]
  cases x (enter s) with
  | ok a t => exact congrArg (EStateM.Result.ok a) (left t)
  | error halt t => exact congrArg (EStateM.Result.error halt) (left t)

end Run

/-! ## What expressions reach -/

/-- Maps of contexts that the evaluation of an expression does not notice, calls
apart. -/
structure Context.Transparent (κ : Context → Context) : Prop where
  constants : ∀ c, (κ c).constants = c.constants
  callDepth : ∀ c, (κ c).callDepth = c.callDepth
  functions : ∀ c name, Entries.contains name (κ c).functions = Entries.contains name c.functions
  reads : ∀ c name, State.local? name (κ c).scopes = State.local? name c.scopes
  sets : ∀ c name value, κ { c with scopes := State.setLocal name value c.scopes } =
    { κ c with scopes := State.setLocal name value (κ c).scopes }
  erases : ∀ c name, κ { c with scopes := State.eraseLocal name c.scopes } =
    { κ c with scopes := State.eraseLocal name (κ c).scopes }
  defines : ∀ c name value, κ { c with scopes := State.defineInFrame name value c.scopes } =
    { κ c with scopes := State.defineInFrame name value (κ c).scopes }

namespace Context.Transparent

variable {κ : Context → Context} (h : Transparent κ) (s : State)
include h

theorem inFunction : (s.recast κ).inFunction = s.inFunction := by
  unfold State.inFunction
  rw [show (s.recast κ).callDepth = s.callDepth from h.callDepth _]

theorem lookup (name : String) : (s.recast κ).lookup name = s.lookup name := by
  rw [State.lookup_eq_or, State.lookup_eq_or, show (s.recast κ).constants = s.constants from h.constants _,
    show State.local? name (s.recast κ).scopes = State.local? name s.scopes from h.reads _ name]
  rfl

theorem deref (v : Value) (line : Nat) : (s.recast κ).deref v line = s.deref v line := by
  cases v with
  | namedPointer name => simp only [State.deref, h.lookup s name]
  | _ => rfl

theorem follow (v : Value) (line : Nat) : (s.recast κ).follow v line = s.follow v line := by
  unfold State.follow
  induction State.maxCallDepth generalizing v with
  | zero => rfl
  | succ count ih =>
    simp only [State.followWithin, h.deref s v line]
    split
    · cases s.deref v line with
      | ok target => exact ih target
      | error e => rfl
    · rfl

theorem assignVariable (name : String) (value : Value) (line : Nat) :
    (s.recast κ).assignVariable name value line = (s.assignVariable name value line).map (State.recast κ) := by
  have constants : Entries.contains name (s.recast κ).constants = Entries.contains name s.constants :=
    congrArg _ (h.constants _)
  have reads : State.local? name (s.recast κ).scopes = State.local? name s.scopes := h.reads _ name
  have same : (s.recast κ).registry = s.registry ∧ (s.recast κ).globals = s.globals := ⟨rfl, rfl⟩
  simp only [State.assignVariable, constants, reads, same]
  split
  · rfl
  split
  · split
    · next stored _ =>
      have published : (s.recast κ).published name stored = s.published name stored := by
        simp only [State.published, h.inFunction, same]
      rw [published]
      exact congrArg (fun c : Context => Except.ok ({ s with registry := s.published name stored, toContext := c } : State))
        (h.sets s.toContext name stored).symm
    · rfl
  split
  · split <;> rfl
  split
  · split <;> rfl
  · exact congrArg (fun c : Context => Except.ok ({ s with toContext := c } : State))
      (h.defines s.toContext name value).symm

theorem delete (name : String) (line : Nat) :
    (s.recast κ).delete name line = (s.delete name line).map (Prod.map id (State.recast κ)) := by
  have constants : Entries.contains name (s.recast κ).constants = Entries.contains name s.constants :=
    congrArg _ (h.constants _)
  have reads : State.local? name (s.recast κ).scopes = State.local? name s.scopes := h.reads _ name
  have same : (s.recast κ).registry = s.registry ∧ (s.recast κ).globals = s.globals := ⟨rfl, rfl⟩
  simp only [State.delete, constants, reads, same]
  split
  · rfl
  split
  · rfl
  · next found _ =>
    exact congrArg (fun c : Context => Except.ok (found, ({ s with
        registry := { s.registry with symbols := Entries.erase name s.registry.symbols }
        globals := Entries.erase name s.globals, toContext := c } : State)))
      (h.erases s.toContext name).symm

end Context.Transparent

/-! ## Expressions -/

/-- Evaluators that follow as far as expressions go: the parts of an expression,
and the calls of functions that a state knows under a name. The function
that the image knows may be another one. -/
structure Evaluator.EvalFollows (κ : Context → Context) (env : Environment) (ev : Evaluator) :
    Prop where
  eval : ∀ e s, Run.Follows κ s (ev.eval env e) (ev.eval env e)
  calls : ∀ name function arguments line s, Entries.get? name s.functions = some function →
    ∃ function', Entries.get? name (s.recast κ).functions = some function' ∧
      Run.Follows κ s (ev.callDefined env function arguments line) (ev.callDefined env function' arguments line)

namespace Evaluator.EvalFollows

open Run

variable {κ : Context → Context} (clear : Context.Transparent κ) {env : Environment}
  {ev : Evaluator} (parts : EvalFollows κ env ev)
include parts

theorem evalAll (es : List Expr) (s : State) : Follows κ s (ev.evalAll env es) (ev.evalAll env es) := by
  induction es generalizing s with
  | nil => exact .pure []
  | cons e rest ih => exact .bind (parts.eval e s) fun v t _ => .bind (ih t) fun vs _ _ => .pure (v :: vs)

theorem evalEntries (pairs : List (Expr × Expr)) (entries : Entries Value) (s : State) :
    Follows κ s (ev.evalEntries env entries pairs) (ev.evalEntries env entries pairs) := by
  induction pairs generalizing entries s with
  | nil => exact .pure entries
  | cons pair rest ih =>
    exact .bind (parts.eval pair.1 s) fun k t _ => .bind (parts.eval pair.2 t) fun v u _ => ih _ u

theorem evalKeys (steps : List Accessor) (s : State) :
    Follows κ s (ev.evalKeys env steps) (ev.evalKeys env steps) := by
  induction steps generalizing s with
  | nil => exact .pure []
  | cons step rest ih =>
    cases step with
    | index e => exact .bind (parts.eval e s) fun v t _ => .bind (ih t) fun keys _ _ => .pure _
    | field name => exact .bind (ih s) fun keys _ _ => .pure _

theorem condition (e : Expr) (s : State) : Follows κ s (ev.condition env e) (ev.condition env e) := by
  refine .bind (parts.eval e s) fun v t _ => ?_
  cases v.toBoolean with
  | ok b => exact .pure b
  | error _ => exact .fail _

theorem rangeStep (step : Option Expr) (direction : Option Binary64) (current stop : Binary64) (line : Nat)
    (s : State) : Follows κ s (ev.rangeStep env step direction current stop line)
      (ev.rangeStep env step direction current stop line) := by
  cases step with
  | none => exact .pure _
  | some e => exact .bind (parts.eval e s) fun v t _ => .bind (.ofExcept _) fun _ _ _ => .pure _

theorem evalBinary (left : Expr) (op : BinaryOperator) (right : Expr) (line : Nat) (s : State) :
    Follows κ s (ev.evalBinary env left op right line) (ev.evalBinary env left op right line) := by
  refine .bind (parts.eval left s) fun a t _ => ?_
  -- The right operand of `&&` and `||` is left alone when the left one decides.
  have shortCircuit : ∀ decides : Bool, Follows κ t
      (do
        let decided ← Run.ofExcept (Operator.booleanOf line a)
        if decided == decides then return Value.boolean decided
        let b ← ev.eval env right
        return Value.boolean (← Run.ofExcept (Operator.booleanOf line b)))
      (do
        let decided ← Run.ofExcept (Operator.booleanOf line a)
        if decided == decides then return Value.boolean decided
        let b ← ev.eval env right
        return Value.boolean (← Run.ofExcept (Operator.booleanOf line b))) := by
    intro decides
    refine .bind (.ofExcept _) fun decided u _ => ?_
    split
    · exact .pure _
    · exact .bind (parts.eval right u) fun b _ _ => .bind (.ofExcept _) fun _ _ _ => .pure _
  cases op with
  | and => exact shortCircuit _
  | or => exact shortCircuit _
  | _ => exact .bind (parts.eval right t) fun b u _ => .ofExcept _

include clear

theorem initializer (e : Expr) (s : State) :
    Follows κ s (ev.initializer env e) (ev.initializer env e) := by
  cases e with
  | «variable» name line =>
    refine .get ?_
    rw [clear.lookup s name]
    cases s.lookup name <;> exact .pure _
  | _ => exact parts.eval _ s

theorem assign (target : AssignTarget) (value : Value) (line : Nat) (s : State) :
    Follows κ s (ev.assign env target value line) (ev.assign env target value line) := by
  have write : ∀ name stored t, Follows κ t (Run.update (·.assignVariable name stored line) : Eval Unit)
      (Run.update (·.assignVariable name stored line)) :=
    fun name stored t => .update (clear.assignVariable t name stored line)
  cases target with
  | «variable» name => exact write name value s
  | path root steps =>
    refine .get (.unless ?_ fun _ => ?_)
    · rw [show (s.recast κ).constants = s.constants from clear.constants _]
    · rw [clear.lookup s root]
      cases s.lookup root with
      | none => exact .fail _
      | some current =>
        exact .bind (parts.evalKeys steps s) fun keys t _ => .bind (.ofExcept _) fun stored u _ => write root stored u
  | deref pointer =>
    refine .bind (parts.eval pointer s) fun v t _ => ?_
    cases v with
    | namedPointer name => exact write name value t
    | _ => exact .fail _

theorem writeBack (place : Option AssignTarget) (result : Value) (line : Nat) (s : State) :
    Follows κ s (ev.writeBack env place result line) (ev.writeBack env place result line) := by
  cases place with
  | none => exact .pure ()
  | some target => exact parts.assign clear target result line s

omit parts in
theorem callBuiltin (builtin : Builtin) (name : String) (arguments : List Value) (line : Nat) (s : State) :
    Follows κ s (callBuiltin env builtin name arguments line) (callBuiltin env builtin name arguments line) := by
  unfold Evaluator.callBuiltin
  split
  · exact .ofExcept _
  · exact .bind (.print _) fun _ _ _ => .pure _
  · refine .bind (.ofExcept _) fun wanted t _ => .get ?_
    rw [clear.lookup t wanted,
      show Entries.contains wanted (t.recast κ).functions = _ from clear.functions t.toContext wanted]
    exact .pure _
  · refine .bind (.ofExcept _) fun wanted t _ => ?_
    have same := clear.delete t wanted line
    unfold Follows
    cases h : t.delete wanted line with
    | error cause => rw [h] at same; rw [bind_error (read_error h), bind_error (read_error same)]; rfl
    | ok found => rw [h] at same; rw [bind_ok (read_ok h), bind_ok (read_ok same)]; rfl
  · refine .bind (.ofExcept _) fun path t _ => .bind (.findFile env path) fun answer u _ => ?_
    cases answer with
    | error e => exact .fail _
    | ok node =>
      cases node with
      | directory => exact .fail _
      | file _ => rfl
  · exact .read rfl
  · exact .fail _

theorem callNamed (name : String) (arguments : List Value) (line : Nat) (s : State) :
    Follows κ s (ev.callNamed env name arguments line) (ev.callNamed env name arguments line) := by
  refine .get ?_
  cases hf : Entries.get? name s.functions with
  | some function =>
    obtain ⟨function', hf', call⟩ := parts.calls name function arguments line s hf
    rw [hf']
    exact .bind call fun _ _ _ => .pure _
  | none =>
    have unknown : Entries.get? name (s.recast κ).functions = none :=
      Entries.contains_eq_false.mp ((clear.functions s.toContext name).trans (Entries.contains_eq_false.mpr hf))
    rw [unknown]
    cases Entries.get? (Text.lowerString name) Library.table with
    | none => exact .pure _
    | some builtin =>
      dsimp only
      split
      · exact .bind (callBuiltin clear builtin name arguments line s) fun _ _ _ => .pure _
      · exact .fail _

theorem callKnown (name : String) (arguments : List Value) (line : Nat) (unknown : RuntimeError)
    (s : State) : Follows κ s (ev.callKnown env name arguments line unknown)
      (ev.callKnown env name arguments line unknown) := by
  refine .bind (parts.callNamed clear name arguments line s) fun result t _ => ?_
  cases result with
  | some v => exact .pure v
  | none => exact .fail _

theorem call (name : String) (arguments : List Expr) (line : Nat) (unknown : RuntimeError) (s : State) :
    Follows κ s (ev.call env name arguments line unknown) (ev.call env name arguments line unknown) := by
  refine .bind (parts.evalAll arguments s) fun values t _ =>
    .bind (parts.callKnown clear name values line unknown t) fun result u _ => ?_
  dsimp only
  split
  · exact .bind (parts.writeBack clear _ result line u) fun _ _ _ => .pure _
  · exact .pure _

theorem callMethod (receiver : Expr) (method : String) (arguments : List Expr) (line : Nat) (s : State) :
    Follows κ s (ev.callMethod env receiver method arguments line)
      (ev.callMethod env receiver method arguments line) := by
  refine .bind (parts.eval receiver s) fun v t _ => .bind (.read (clear.follow t v line)) fun target u _ =>
    .bind (parts.evalAll arguments u) fun values w _ =>
    .bind (parts.callKnown clear _ _ line _ w) fun result x _ => ?_
  dsimp only
  split
  · exact .bind (parts.writeBack clear _ result line x) fun _ _ _ => .pure _
  · exact .pure _

theorem evalReference (operand : Expr) (line : Nat) (s : State) :
    Follows κ s (ev.evalReference env operand line) (ev.evalReference env operand line) := by
  cases operand with
  | «variable» name _ =>
    refine .get ?_
    rw [clear.lookup s name]
    cases s.lookup name with
    | some _ => exact .pure _
    | none => exact .fail _
  | _ => exact .bind (parts.eval _ s) fun _ _ _ => .pure _

theorem evalCast (typeName : String) (pointer : Bool) (operand : Expr) (line : Nat) (s : State) :
    Follows κ s (ev.evalCast env typeName pointer operand line)
      (ev.evalCast env typeName pointer operand line) := by
  refine .bind (parts.eval operand s) fun v t _ => ?_
  cases pointer with
  | true =>
    exact .bind (.read (clear.follow t v line)) fun target u _ =>
      .bind (parts.callKnown clear _ _ line _ u) fun _ _ _ => .pure _
  | false => exact parts.callKnown clear _ _ line _ t

/-- The value of an expression follows when its parts do. -/
theorem expression (e : Expr) (s : State) : Follows κ s (ev.expression env e) (ev.expression env e) := by
  cases e with
  | literal value line => exact .pure value
  | «variable» name line =>
    refine .get ?_
    rw [clear.lookup s name]
    cases s.lookup name with
    | some value => exact .pure value
    | none => exact .fail _
  | unary op operand line => exact .bind (parts.eval operand s) fun _ _ _ => .ofExcept _
  | binary left op right line => exact parts.evalBinary left op right line s
  | call name arguments line => exact parts.call clear name arguments line _ s
  | methodCall receiver method arguments line => exact parts.callMethod clear receiver method arguments line s
  | index target index line =>
    exact .bind (parts.eval target s) fun v t _ => .bind (parts.eval index t) fun i u _ =>
      .bind (.read (clear.follow u v line)) fun container _ _ => .ofExcept _
  | field target field line =>
    exact .bind (parts.eval target s) fun v t _ =>
      .bind (.read (clear.follow t v line)) fun container _ _ => .ofExcept _
  | reference operand line => exact parts.evalReference clear operand line s
  | deref operand line => exact .bind (parts.eval operand s) fun v t _ => .read (clear.deref t v line)
  | cast typeName pointer operand line => exact parts.evalCast clear typeName pointer operand line s
  | list elements line => exact .bind (parts.evalAll elements s) fun _ _ _ => .pure _
  | dictionary entries line => exact .bind (parts.evalEntries entries [] s) fun _ _ _ => .pure _
  | raw text line => exact .pure _

/-- A request to run another program follows. -/
theorem request (path : Expr) (arguments : List Expr) (line : Nat) (s : State) :
    Follows κ s (ev.request env path arguments line) (ev.request env path arguments line) := by
  refine .get (.unless ?_ fun _ => ?_)
  · rw [clear.inFunction s]
  · exact .bind (parts.initializer clear path s) fun target t _ =>
      .bind (parts.evalAll arguments t) fun values _ _ => .pure _

end Evaluator.EvalFollows

/-! ## Sub-programs -/

section Programs

variable {κ : Context → Context} (env : Environment) (s : State)

theorem Environment.follows_locate (origin : Option String) (requested : String) :
    Run.Follows κ s (env.locate origin requested : Run ε (Option String)) (env.locate origin requested) := by
  have first : ∀ paths (s : State),
      Run.Follows κ s (env.firstFile paths : Run ε (Option String)) (env.firstFile paths) := by
    intro paths
    induction paths with
    | nil => exact fun _ => .pure none
    | cons path rest ih =>
      refine fun s => .bind (.findFile env path) fun answer t _ => ?_
      cases answer.isFile with
      | true => exact .pure _
      | false => exact ih t
  unfold locate
  split <;> exact first _ s

theorem Environment.follows_readProgram (path : String) :
    Run.Follows κ s (env.readProgram path) (env.readProgram path) := by
  refine .bind (.findFile env path) fun answer t _ => ?_
  cases answer.text with
  | ok source => exact .pure source
  | error e => exact .fail _

theorem Evaluator.follows_program (ev : Evaluator) (source : String) (origin : Option String)
    (arguments : List Value) (depth : Nat) : Run.Follows κ s (ev.program env source origin arguments depth)
      (ev.program env source origin arguments depth) := by
  have parsed : Run.Follows κ s (parseProgram env source) (parseProgram env source) := by
    refine .get ?_
    rw [show (s.recast κ).registry = s.registry from rfl]
    dsimp only
    split
    · exact .pure _
    · exact .fail _
  refine .bind parsed fun program t _ => ?_
  -- The context of the caller is put aside as a whole, and is what comes back.
  show Run.inContext _ _ (t.recast κ) = Run.endIn (State.recast κ) (Run.inContext _ _ t)
  unfold Run.inContext
  rw [show ({ t.recast κ with toContext := .initial arguments } : State) =
    { t with toContext := .initial arguments } from rfl]
  cases ev.topLevel _ origin depth program.statements { t with toContext := .initial arguments } <;> rfl

/-- A sub-program sees nothing of its caller's context. -/
theorem Evaluator.follows_invocation (ev : Evaluator) (origin : Option String) (depth : Nat) (request : Invocation) :
    Run.Follows κ s (ev.invocation env origin depth request) (ev.invocation env origin depth request) := by
  unfold invocation
  refine .unless Iff.rfl fun _ => .bind (env.follows_locate s origin request.path) fun found t _ => ?_
  cases found with
  | none => exact .fail _
  | some path =>
    exact .bind (env.follows_readProgram t path) fun source u _ =>
      .bind (follows_program env u ev source _ _ _) fun child w _ => .change rfl

end Programs

/-! ## Answers -/

/-- An answer that a computation gives within some depth; that the depth was not
enough is no answer. -/
def Evaluator.Ends (run : Evaluator → Run ε α) (s : State) (r : EStateM.Result (Halt ε) State α) : Prop :=
  (∀ t, r ≠ .error .outOfFuel t) ∧ ∃ n, run (within n) s = r

namespace Evaluator.Ends

variable {x y : Evaluator → Run ε α} {s : State} {r : EStateM.Result (Halt ε) State α}

theorem of_outlasting (h : ∀ n, ∃ m, outlasting s (x (within n)) (y (within m))) (ended : Ends x s r) :
    Ends y s r := by
  obtain ⟨enough, n, hn⟩ := ended
  obtain ⟨m, ⟨t, short⟩ | same⟩ := h n
  · exact absurd (hn.symm.trans short) (enough t)
  · exact ⟨enough, m, same.symm.trans hn⟩

end Evaluator.Ends
end Guion
