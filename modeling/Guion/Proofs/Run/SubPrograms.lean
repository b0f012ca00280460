/-
Sub-programs, wherever their invocation stands.

A request at the top level of a program is served by the program itself, a
request of an inner block by the invoker that the program installed. The
invoker wraps the error of a sub-program and the program unwraps it, so both
serve a request alike (`topLevel_cons`).

A block opens a scope, and an invocation alone in it leaves that scope empty.
An empty scope is not noticed by what the request evaluates, and a sub-program
sees no scope of its caller, so the block may as well not be there
(`statements_sheltered`). One more level of depth is all that it costs.
-/
import Guion.Proofs.Run.Recast
import Guion.Proofs.Run.Returns

namespace Guion

open Evaluator

/-- The environment of a program that serves the requests of its own blocks. -/
def Environment.serving (env : Environment) (origin : Option String) (depth : Nat) : Environment :=
  { env with invoker := .programs origin depth }

/-! ## One more empty scope -/

/-- One more empty scope inside the others, if there are any. -/
def Context.nest (c : Context) : Context :=
  { c with scopes := if c.scopes = [] then [] else [] :: c.scopes }

namespace State

theorem recast_nest {s : State} (opened : s.scopes ≠ []) : s.recast Context.nest = s.pushScope := by
  unfold recast Context.nest pushScope
  rw [if_neg opened]

theorem popScope_pushScope {s : State} (opened : s.scopes ≠ []) : s.pushScope.popScope = s := by
  obtain ⟨scope, outer, hs⟩ := List.exists_cons_of_ne_nil opened
  unfold popScope pushScope
  simp only [hs]
  rw [← hs]

end State

namespace Context

/-- A change of the scopes that passes over an empty one is the same change
inside it. -/
theorem nest_scopes {f : List Scope → List Scope} (length : ∀ scopes, (f scopes).length = scopes.length)
    (inside : ∀ scopes, scopes ≠ [] → f ([] :: scopes) = [] :: f scopes) (c : Context) :
    nest { c with scopes := f c.scopes } = { nest c with scopes := f (nest c).scopes } := by
  unfold nest
  by_cases h : c.scopes = []
  · have : f [] = [] := List.length_eq_zero_iff.mp (length [])
    simp [h, this]
  · have : f c.scopes ≠ [] := fun he => h (List.length_eq_zero_iff.mp (by rw [← length, he]; rfl))
    simp [h, this, inside c.scopes h]

theorem nest_transparent : Transparent nest where
  constants _ := rfl
  callDepth _ := rfl
  functions _ _ := rfl
  reads c name := by
    unfold nest
    split
    · next h => rw [h]
    · rfl
  sets c name value := nest_scopes (State.length_setLocal name value) (fun _ _ => rfl) c
  erases c name := nest_scopes (State.length_eraseLocal name) (fun _ _ => rfl) c
  defines c name value :=
    nest_scopes (State.length_defineInFrame name value)
      (fun scopes h => by obtain ⟨scope, outer, rfl⟩ := List.exists_cons_of_ne_nil h; rfl) c

end Context

namespace Evaluator

open Run

/-- A call puts the scopes of its caller aside, and one more is put aside too. -/
theorem callDefined_nest (ev : Evaluator) (env : Environment) (function : FunctionDef) (arguments : List Value)
    (line : Nat) (s : State) :
    Follows Context.nest s (ev.callDefined env function arguments line) (ev.callDefined env function arguments line) := by
  have outer := callDefined_of_caller ev env function arguments line s (s.recast Context.nest).scopes s.loopDepth
  have own := callDefined_of_caller ev env function arguments line s s.scopes s.loopDepth
  refine outer.trans (.trans ?_ (congrArg (endIn (State.recast Context.nest)) own.symm))
  cases ev.callDefined env function arguments line s <;> rfl

/-- Expressions do not notice an empty scope. -/
theorem evalFollows_nest (env : Environment) (n : Nat) : EvalFollows Context.nest env (within n) := by
  have calls : ∀ m name function arguments line (s : State), Entries.get? name s.functions = some function →
      ∃ function', Entries.get? name (s.recast Context.nest).functions = some function' ∧
        Follows Context.nest s ((within m).callDefined env function arguments line)
          ((within m).callDefined env function' arguments line) :=
    fun m name function arguments line s known =>
      ⟨function, known, callDefined_nest (within m) env function arguments line s⟩
  induction n with
  | zero => exact ⟨fun _ _ => .throw _, calls 0⟩
  | succ n ih => exact ⟨fun e s => ih.expression Context.nest_transparent e s, calls (n + 1)⟩

end Evaluator

/-! ## Two ways to serve a request -/

theorem Halt.unwrap_subProgram (halt : Halt ProgramError) (line : Nat) :
    (halt.map (RuntimeError.subProgram · line)).map ProgramError.ofRuntime = halt := by
  cases halt <;> rfl

/-- Whether a program goes on behind a top-level statement. -/
def Flow.goesOn : Flow → Bool
  | .result _ => false
  | _ => true

namespace Evaluator

open Run

section Serving

variable {ev : Evaluator} {env : Environment} {st : Statement} {s t : State}

/-- A statement by itself, if it makes no request. -/
theorem statements_singleton (h : ∀ request t, ev.exec env st s ≠ .ok (.invoke request) t) :
    ev.statements env [st] s = ev.exec env st s := by
  cases hr : ev.exec env st s with
  | error halt t => exact bind_error hr
  | ok flow t =>
    refine (bind_ok hr).trans ?_
    cases flow with
    | invoke request => exact absurd hr (h request t)
    | _ => rfl

/-- A statement by itself, if it makes a request. -/
theorem statements_singleton_of_request {request : Invocation} (h : ev.exec env st s = .ok (.invoke request) t) :
    ev.statements env [st] s = ev.serve env request t := by
  refine (bind_ok h).trans ?_
  cases hs : ev.serve env request t with
  | error halt u => exact bind_error hs
  | ok flow u =>
    refine (bind_ok hs).trans ?_
    cases flow <;> rfl

/-- **A program serves a request as its invoker does**: a top-level statement
does what it does inside a block, and a sub-program fails with its own
error. -/
theorem topLevel_cons (ev : Evaluator) {env : Environment} {origin : Option String} {depth : Nat}
    (installed : env.invoker = .programs origin depth) (st : Statement) (rest : List Statement) :
    ev.topLevel env origin depth (st :: rest) = (do
      let flow ← Run.mapError ProgramError.ofRuntime (ev.statements env [st])
      if flow.goesOn then ev.topLevel env origin depth rest else pure ()) := by
  funext s
  cases hr : ev.exec env st s with
  | error halt t =>
    exact (bind_error (mapError_error hr)).trans (bind_error (mapError_error (bind_error hr))).symm
  | ok flow t =>
    refine (bind_ok (mapError_ok hr)).trans ?_
    cases flow with
    | invoke request =>
      have served : ev.statements env [st] s =
          (Run.mapError (.subProgram · request.line) (ev.invoke env origin depth request) >>=
            fun _ => pure Flow.proceed) t := by
        rw [statements_singleton_of_request hr, serve, installed]
      cases hi : ev.invoke env origin depth request t with
      | ok _ u =>
        rw [bind_ok (mapError_ok hi)] at served
        refine (bind_ok hi).trans ?_
        rw [bind_ok (mapError_ok served)]
        rfl
      | error halt u =>
        rw [bind_error (mapError_error hi)] at served
        refine (bind_error hi).trans ?_
        rw [bind_error (mapError_error served), halt.unwrap_subProgram]
    | _ =>
      have alone := (statements_singleton fun request t h => by rw [hr] at h; cases h).trans hr
      rw [bind_ok (mapError_ok alone)]
      rfl

end Serving

/-- The same program but for one statement, which may cost more depth. -/
theorem outlasting_topLevel {n m : Nat} (le : n ≤ m) {env : Environment} {origin : Option String} {depth : Nat}
    (installed : env.invoker = .programs origin depth) {a b : Statement}
    (agree : ∀ s : State, s.scopes ≠ [] → outlasting s ((within n).statements env [a]) ((within m).statements env [b]))
    (before after : List Statement) (s : State) (opened : s.scopes ≠ []) :
    outlasting s ((within n).topLevel env origin depth (before ++ a :: after))
      ((within m).topLevel env origin depth (before ++ b :: after)) := by
  have rules := outlasting_executable
  have more := within_outlasting le
  induction before generalizing s with
  | nil =>
    rw [List.nil_append, List.nil_append, topLevel_cons _ installed, topLevel_cons _ installed]
    refine rules.bind (rules.mapError _ (agree s opened)) fun flow t _ => ?_
    split
    · exact more.topLevel rules env origin depth after t
    · exact rules.pure ()
  | cons st before ih =>
    rw [List.cons_append, List.cons_append, topLevel_cons _ installed, topLevel_cons _ installed]
    refine rules.bind (rules.mapError _ (more.statements rules env [st] s)) fun flow t ht => ?_
    split
    · have level := State.keeping.of_ok (State.kept_level.executable.mapError ProgramError.ofRuntime
        ((State.kept_level.within n).statements State.kept_level.executable env [st] s)) ht
      exact ih t (level.opened opened)
    · exact rules.pure ()

end Evaluator

/-! ## Shelter -/

/-- A statement by itself, or alone in a block or in a branch that is taken, to
any depth. -/
inductive Statement.ShelteredIn (st : Statement) : Statement → Prop
  | itself : ShelteredIn st st
  | block {inner line} (h : ShelteredIn st inner) : ShelteredIn st (.block (.mk [inner] line))
  | branch {inner testLine bodyLine rest otherwise line} (h : ShelteredIn st inner) :
      ShelteredIn st (.conditional ((.literal (.boolean true) testLine, .mk [inner] bodyLine) :: rest) otherwise line)

namespace Evaluator

open Run

/-- A branch under a condition that holds. -/
theorem conditional_true (n : Nat) (env : Environment) (testLine : Nat) (inner : Statement) (bodyLine : Nat)
    (rest : List (Expr × Block)) (otherwise : Option Block) {s : State} (opened : s.scopes ≠ []) :
    (within n).conditional env otherwise ((.literal (.boolean true) testLine, .mk [inner] bodyLine) :: rest) s =
      (within n).block env (.mk [inner] bodyLine) s := by
  cases n with
  | succ n => rfl
  | zero =>
    -- Without any depth neither the condition nor the statement is reached.
    show EStateM.Result.error Halt.outOfFuel s = .error .outOfFuel s.pushScope.popScope
    rw [State.popScope_pushScope opened]

section Shelter

variable {env : Environment} (builtin : env.handlers = Handler.builtin) {origin : Option String} {depth : Nat}
  (installed : env.invoker = .programs origin depth) (path : Expr) (arguments : List Expr) (line : Nat)
include builtin installed

/-- An invocation does not notice an empty scope. -/
theorem follows_request (n : Nat) (s : State) :
    Follows Context.nest s ((within n).statements env [.invoke path arguments line])
      ((within n).statements env [.invoke path arguments line]) := by
  have exec : Follows Context.nest s ((within n).exec env (.invoke path arguments line))
      ((within n).exec env (.invoke path arguments line)) := by
    cases n with
    | zero => exact .throw _
    | succ n =>
      show Follows _ _ ((within n).statement env _) ((within n).statement env _)
      rw [statement_eq _ builtin]
      exact .bind ((evalFollows_nest env n).request Context.nest_transparent path arguments line s) fun _ _ _ => .pure _
  have serve : ∀ request t, Follows Context.nest t ((within n).serve env request) ((within n).serve env request) := by
    intro request t
    rw [serve, installed]
    refine .bind (.mapError _ ?_) fun _ _ _ => .pure _
    cases n with
    | zero => exact .throw _
    | succ n => exact Evaluator.follows_invocation env t (within n) origin depth request
  refine .bind exec fun flow t _ => ?_
  cases flow with
  | proceed => exact .pure _
  | leaveLoop => exact .pure _
  | result v => exact .pure _
  | invoke request =>
    refine .bind (serve request t) fun served u _ => ?_
    cases served <;> exact .pure _

/-- A block around an invocation is as good as none. -/
theorem block_invocation (n : Nat) {s : State} (opened : s.scopes ≠ []) {m : Nat} {sts : List Statement}
    (same : (within m).statements env sts s.pushScope =
      (within n).statements env [.invoke path arguments line] s.pushScope) (bodyLine : Nat) :
    (within m).block env (.mk sts bodyLine) s = (within n).statements env [.invoke path arguments line] s := by
  have follows := follows_request builtin installed path arguments line n s
  have level := (State.kept_level.within n).statements State.kept_level.executable env [.invoke path arguments line] s
  unfold Follows at follows
  rw [State.recast_nest opened] at follows
  have closed : ∀ t : State, t.scopes ≠ [] → (t.recast Context.nest).popScope = t := fun t ht => by
    rw [State.recast_nest ht, State.popScope_pushScope ht]
  rw [Evaluator.block, Run.bracket, Block.statements, same, follows]
  unfold State.keeping Run.after at level
  cases hr : (within n).statements env [.invoke path arguments line] s with
  | ok flow t =>
    rw [hr] at level
    exact congrArg (EStateM.Result.ok flow) (closed t (level.opened opened))
  | error halt t =>
    rw [hr] at level
    exact congrArg (EStateM.Result.error halt) (closed t (level.opened opened))

/-- **An invocation in a shelter is the invocation itself**, within a depth that
has one more level for each block around it. -/
theorem statements_sheltered {st : Statement} (h : (Statement.invoke path arguments line).ShelteredIn st) :
    ∃ k, ∀ n (s : State), s.scopes ≠ [] →
      (within (n + k)).statements env [st] s = (within n).statements env [.invoke path arguments line] s := by
  -- A statement that runs a block of one statement makes no request itself.
  have alone : ∀ {n m : Nat} {st inner : Statement} (l : Nat) {s : State}, s.scopes ≠ [] →
      (within (m + 1)).exec env st s = (within m).block env (.mk [inner] l) s →
      (within m).statements env [inner] s.pushScope =
        (within n).statements env [.invoke path arguments line] s.pushScope →
      (within (m + 1)).statements env [st] s = (within n).statements env [.invoke path arguments line] s := by
    intro n m st inner l s opened enters same
    have body := block_invocation builtin installed path arguments line n opened same l
    rw [← body, ← enters]
    refine statements_singleton fun request t hr => ?_
    rw [enters, body] at hr
    exact statements_ne_invoke _ (by rw [installed]; exact Invoker.noConfusion) _ s request t hr
  induction h with
  | itself => exact ⟨0, fun _ _ _ => rfl⟩
  | @block inner bodyLine _ ih =>
    obtain ⟨k, ih⟩ := ih
    refine ⟨k + 1, fun n s opened => alone bodyLine opened ?_ (ih n s.pushScope (List.cons_ne_nil _ _))⟩
    show (within (n + k)).statement env _ s = _
    rw [statement_eq _ builtin]
    rfl
  | @branch inner testLine bodyLine rest otherwise _ _ ih =>
    obtain ⟨k, ih⟩ := ih
    refine ⟨k + 1, fun n s opened => alone bodyLine opened ?_ (ih n s.pushScope (List.cons_ne_nil _ _))⟩
    show (within (n + k)).statement env _ s = _
    rw [statement_eq _ builtin]
    exact conditional_true (n + k) env testLine inner bodyLine rest otherwise opened

end Shelter

/-! ## What an invocation means -/

/-- The statements of a program, executed in a context of its own and with an
invoker of its own. -/
def execute (ev : Evaluator) (env : Environment) (origin : Option String) (arguments : List Value) (depth : Nat)
    (sts : List Statement) : Run ProgramError Context :=
  Run.inContext (.initial arguments) (ev.topLevel (env.serving origin depth) origin depth sts)

/-- A program text that can be read is executed. -/
theorem ends_program {env : Environment} {source : String} {program : Block} {s : State}
    (parsed : parseProgram env source s = .ok program s) (origin : Option String) (arguments : List Value)
    (depth : Nat) (r : EStateM.Result (Halt ProgramError) State Context) :
    Ends (·.program env source origin arguments depth) s r ↔
      Ends (·.execute env origin arguments depth program.statements) s r := by
  have same : ∀ ev : Evaluator, ev.program env source origin arguments depth s =
      ev.execute env origin arguments depth program.statements s := fun ev => bind_ok parsed
  unfold Ends
  simp only [same]

/-- Makes a request and does what it asks for. A sub-program fails with its own
error. -/
def fulfil (ev : Evaluator) (env : Environment) (origin : Option String) (depth : Nat) (path : Expr)
    (arguments : List Expr) (line : Nat) : Run ProgramError Unit := do
  let request ← Run.mapError ProgramError.ofRuntime (ev.request env path arguments line)
  ev.invoke env origin depth request

/-- A request was served: a program was found and ran to its end, in the world of
its caller and in a context of its own. What it defined is global behind it,
constants over variables and both over what was global, but for the name of
its arguments. -/
structure Served (env : Environment) (origin : Option String) (depth : Nat) (request : Invocation) (s t : State)
    (child : Context) (u : State) : Prop where
  ran : ∃ file source, (env.locate origin request.path : Run ProgramError _) s = .ok (some file) s ∧
    env.readProgram file s = .ok source s ∧
    Ends (·.program env source (some file) request.arguments (depth + 1)) s (.ok child u)
  frame : child.scopes = [child.frame]
  context : t.toContext = s.toContext
  world : t = { u with globals := t.globals }
  globals : ∀ name, Entries.get? name t.globals =
    if name = argumentsName then Entries.get? name u.globals
    else (Entries.get? name child.constants).or ((Entries.get? name child.frame).or (Entries.get? name u.globals))

/-- A request that succeeds was served. -/
theorem served_of_invoke {n : Nat} {env : Environment} {origin : Option String} {depth : Nat} {request : Invocation}
    {s t : State} (h : (within n).invoke env origin depth request s = .ok () t) :
    ∃ child u, Served env origin depth request s t child u := by
  cases n with
  | zero => cases h
  | succ n =>
    replace h : (within n).invocation env origin depth request s = .ok () t := h
    unfold invocation at h
    split at h
    · cases h
    obtain ⟨found, s', located, h⟩ := bind_eq_ok.mp h
    obtain rfl : s = s' := by rw [← after_ok located, env.after_locate]
    cases found with
    | none => cases h
    | some file =>
      obtain ⟨source, s', read, h⟩ := bind_eq_ok.mp h
      obtain rfl : s = s' := by rw [← after_ok read, env.after_readProgram]
      obtain ⟨child, u, ran, h⟩ := bind_eq_ok.mp h
      cases h
      obtain ⟨finished, -⟩ := finished_of_program ran
      obtain ⟨sts, w, -, -, rfl⟩ := program_eq_ok ran
      have bindings : Entries.Ascending child.bindings := finished.frame.override child.constants
      refine ⟨child, _, ⟨⟨file, source, located, read, nofun, n, ran⟩, finished.scopes, rfl, rfl,
        fun name => ?_⟩⟩
      show Entries.get? name (Entries.override _ (Entries.erase argumentsName child.bindings)) = _
      rw [Entries.get?_override name _ (bindings.erase argumentsName)]
      split
      · next h => rw [h, Entries.get?_erase_self bindings]; rfl
      · next h => rw [Entries.get?_erase_of_ne h, finished.get?_bindings, Option.or_assoc]

/-- At the top level a request is made and fulfilled. -/
theorem topLevel_invocation {env : Environment} (builtin : env.handlers = Handler.builtin) (origin : Option String)
    (depth : Nat) (path : Expr) (arguments : List Expr) (line n : Nat) :
    (within (n + 1)).topLevel env origin depth [.invoke path arguments line] = (do
      let request ← Run.mapError ProgramError.ofRuntime ((within n).request env path arguments line)
      (within (n + 1)).invoke env origin depth request) := by
  funext s
  have exec : (within (n + 1)).exec env (.invoke path arguments line) = (do
      return .invoke (← (within n).request env path arguments line)) :=
    statement_eq (within n) builtin _
  cases hr : (within n).request env path arguments line s with
  | error halt t =>
    have hx := (congrFun exec s).trans (bind_error hr)
    exact (bind_error (mapError_error hx)).trans (bind_error (mapError_error hr)).symm
  | ok request t =>
    have hx := (congrFun exec s).trans (bind_ok hr)
    refine (bind_ok (mapError_ok hx)).trans (.trans ?_ (bind_ok (mapError_ok hr)).symm)
    cases hi : (within (n + 1)).invoke env origin depth request t with
    | error halt u => exact bind_error hi
    | ok _ u => exact bind_ok hi

theorem ends_fulfil {env : Environment} (builtin : env.handlers = Handler.builtin) (origin : Option String)
    (depth : Nat) (path : Expr) (arguments : List Expr) (line : Nat) {s : State}
    {r : EStateM.Result (Halt ProgramError) State Unit} :
    Ends (·.topLevel env origin depth [.invoke path arguments line]) s r ↔
      Ends (·.fulfil env origin depth path arguments line) s r := by
  have rules := outlasting_executable
  have more : ∀ n, Related outlasting (within n) (within (n + 1)) := fun n => within_outlasting (Nat.le_succ n)
  have plain := topLevel_invocation builtin origin depth path arguments line
  constructor
  · refine .of_outlasting fun n => ⟨n, ?_⟩
    cases n with
    | zero => exact .inl ⟨s, rfl⟩
    | succ n =>
      rw [plain n]
      exact rules.bind (rules.mapError _ ((more n).request rules env path arguments line s)) fun request t _ => .inr rfl
  · refine .of_outlasting fun n => ⟨n + 1, ?_⟩
    rw [plain n]
    exact rules.bind (.inr rfl) fun request t _ => (more n).invoke env origin depth request t

/-- Two programs that are the same but for the shelter of an invocation: each
outlasts the other. -/
theorem outlasting_sheltered {env : Environment} (builtin : env.handlers = Handler.builtin) {origin : Option String}
    {depth : Nat} (installed : env.invoker = .programs origin depth) {path : Expr} {arguments : List Expr}
    {line : Nat} {st : Statement} (shelter : (Statement.invoke path arguments line).ShelteredIn st) :
    ∃ k, ∀ n before after (s : State), s.scopes ≠ [] →
      outlasting s ((within n).topLevel env origin depth (before ++ .invoke path arguments line :: after))
        ((within (n + k)).topLevel env origin depth (before ++ st :: after)) ∧
      outlasting s ((within n).topLevel env origin depth (before ++ st :: after))
        ((within n).topLevel env origin depth (before ++ .invoke path arguments line :: after)) := by
  obtain ⟨k, same⟩ := statements_sheltered builtin installed path arguments line shelter
  refine ⟨k, fun n before after s opened => ⟨?_, ?_⟩⟩
  · exact outlasting_topLevel (Nat.le_add_right n k) installed (fun t ht => .inr (same n t ht).symm) before after s opened
  · refine outlasting_topLevel (Nat.le_refl n) installed (fun t ht => ?_) before after s opened
    have more := (within_outlasting (Nat.le_add_right n k)).statements outlasting_executable env [st] t
    rwa [outlasting, same n t ht] at more

/-- **An invocation means the same wherever it stands outside functions.** A
program ends the same way, with the same context and in the same state or
with the same error, whether an invocation stands at its top level or in a
shelter there, and so do two texts that are read as such programs. In either
place the request is made and fulfilled, and what goes wrong with a
sub-program is the sub-program's own error; when nothing does, the caller's
context is untouched and what the sub-program defined is global. -/
theorem invocation_anywhere {env : Environment} (builtin : env.handlers = Handler.builtin) (origin : Option String)
    (depth : Nat) {path : Expr} {arguments : List Expr} {line : Nat} {st : Statement}
    (shelter : (Statement.invoke path arguments line).ShelteredIn st) :
    (∀ values before after s,
      (∀ r, Ends (·.execute env origin values depth (before ++ .invoke path arguments line :: after)) s r ↔
        Ends (·.execute env origin values depth (before ++ st :: after)) s r) ∧
      ((∃ t, standard.execute env origin values depth (before ++ st :: after) s = .error .outOfFuel t) ∨
        standard.execute env origin values depth (before ++ st :: after) s =
          standard.execute env origin values depth (before ++ .invoke path arguments line :: after) s)) ∧
    (∀ values before after start start' source source' s,
      parseProgram env source s = .ok (.mk (before ++ .invoke path arguments line :: after) start) s →
      parseProgram env source' s = .ok (.mk (before ++ st :: after) start') s →
      ∀ r, Ends (·.program env source origin values depth) s r ↔
        Ends (·.program env source' origin values depth) s r) ∧
    (∀ s r, s.scopes ≠ [] →
      (Ends (·.topLevel (env.serving origin depth) origin depth [st]) s r ↔
        Ends (·.fulfil (env.serving origin depth) origin depth path arguments line) s r)) ∧
    ∀ request s t, Ends (·.invoke (env.serving origin depth) origin depth request) s (.ok () t) →
      ∃ child u, Served (env.serving origin depth) origin depth request s t child u := by
  have rules := outlasting_executable
  have installed : (env.serving origin depth).invoker = .programs origin depth := rfl
  have handlers : (env.serving origin depth).handlers = Handler.builtin := builtin
  obtain ⟨k, outlasts⟩ := outlasting_sheltered handlers installed shelter
  have executed : ∀ values before after s r,
      Ends (·.execute env origin values depth (before ++ .invoke path arguments line :: after)) s r ↔
        Ends (·.execute env origin values depth (before ++ st :: after)) s r := by
    intro values before after s r
    have opened : Context.scopes (.initial values) ≠ [] := List.cons_ne_nil _ _
    constructor
    · exact .of_outlasting fun n => ⟨n + k, rules.inContext values (outlasts n before after _ opened).1⟩
    · exact .of_outlasting fun n => ⟨n, rules.inContext values (outlasts n before after _ opened).2⟩
  refine ⟨fun values before after s => ⟨executed values before after s, ?_⟩,
    fun values before after start start' source source' s bare wrapped r => ?_, fun s r opened => ?_,
    fun request s t ⟨_, n, h⟩ => served_of_invoke h⟩
  · exact rules.inContext values (outlasts _ before after _ (List.cons_ne_nil _ _)).2
  · rw [ends_program bare, ends_program wrapped]
    exact executed values before after s r
  · rw [← ends_fulfil handlers origin depth path arguments line]
    constructor
    · exact .of_outlasting fun n => ⟨n, (outlasts n [] [] s opened).2⟩
    · exact .of_outlasting fun n => ⟨n + k, (outlasts n [] [] s opened).1⟩

/-- A sub-program that defines a variable, invoked from a block in a branch. -/
theorem invocation_anywhere_branch :
    let env : Environment := { files := .ofList [("hijo", "x := 5".toUTF8)] }
    let s : State := { toWorld := {}, toContext := {} }
    let invocation : Statement := .invoke (.literal (.string "hijo") 2) [] 2
    let st : Statement :=
      .conditional [(.literal (.boolean true) 1, .mk [.block (.mk [invocation] 2)] 2)] none 1
    (env.handlers = Handler.builtin ∧ invocation.ShelteredIn st) ∧
    ∃ context t, Ends (·.execute env none [] 0 [invocation]) s (.ok context t) ∧
      Ends (·.execute env none [] 0 [st]) s (.ok context t) ∧
      (Entries.get? "x" t.globals).map Value.display = some "5" := by
  intro env s invocation st
  have shelter : invocation.ShelteredIn st := .branch (.block .itself)
  have computed : (match (within 20).execute env none [] 0 [invocation] s with
      | .ok _ t => (Entries.get? "x" t.globals).map Value.display == some "5"
      | .error _ _ => false) = true := by decide +kernel
  cases hr : (within 20).execute env none [] 0 [invocation] s with
  | error halt t => rw [hr] at computed; cases computed
  | ok context t =>
    rw [hr] at computed
    have ends : Ends (·.execute env none [] 0 [invocation]) s (.ok context t) := ⟨nofun, 20, hr⟩
    exact ⟨⟨rfl, shelter⟩, context, t, ends,
      (((invocation_anywhere rfl none 0 shelter).1 [] [] [] s).1 (.ok context t)).mp ends, eq_of_beq computed⟩

end Evaluator
end Guion
