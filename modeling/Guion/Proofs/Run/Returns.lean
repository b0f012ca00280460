/-
Where a result comes from, and where it goes.

`Enters` says which block a statement runs, and in which state: a block
itself, the branch that a conditional picks, the body of a loop at some pass.
`Reaches` follows an execution through such blocks, to a statement at any
depth of nesting. A result that is raised there is the result of the whole
(`Reaches.statements_eq_result`), and every result was raised by a `regresa`
that was reached (`raises_of_statements`). On its way out a result closes
scopes and loops, and nothing else changes (`Unwound`).

The last theorem puts together who may see which end of a statement.
-/
import Guion.Proofs.Run.Flows

namespace Guion

/-! ## On the way out -/

namespace State

/-- What is left of a state when scopes are closed and loops are left: the outer
scopes, and all that is not a scope or a count. -/
structure Unwound (s t : State) : Prop where
  scopes : t.scopes <:+ s.scopes
  constants : t.constants = s.constants
  functions : t.functions = s.functions
  registry : t.registry = s.registry
  globals : t.globals = s.globals
  output : t.output = s.output

theorem Unwound.refl (s : State) : Unwound s s :=
  ⟨List.suffix_refl _, rfl, rfl, rfl, rfl, rfl⟩

theorem Unwound.trans {s t u : State} (h : Unwound s t) (h' : Unwound t u) : Unwound s u where
  scopes := h'.scopes.trans h.scopes
  constants := h'.constants.trans h.constants
  functions := h'.functions.trans h.functions
  registry := h'.registry.trans h.registry
  globals := h'.globals.trans h.globals
  output := h'.output.trans h.output

theorem unwound_popScope (s : State) : Unwound s s.popScope := by
  unfold popScope
  split
  · next scope outer rest hs => exact ⟨hs ▸ List.suffix_cons _ _, rfl, rfl, rfl, rfl, rfl⟩
  · exact .refl s

theorem unwound_loop (s : State) : Unwound s { s with loopDepth := s.loopDepth - 1 } :=
  ⟨List.suffix_refl _, rfl, rfl, rfl, rfl, rfl⟩

theorem unwound_hold (hold : Evaluator.Hold) (s : State) : Unwound s (hold.leave s) := by
  cases hold <;> exact ⟨List.suffix_refl _, rfl, rfl, rfl, rfl, rfl⟩

end State

open State (Unwound)

/-! ## The handlers of the language -/

/-- The handler of the language for a statement. -/
def Handler.of : Statement → Handler
  | .declaration .. => .declare
  | .assignment .. => .assign
  | .conditional .. => .conditional
  | .whileLoop .. => .whileLoop
  | .forLoop .. => .forLoop
  | .function .. => .defineFunction
  | .returnValue .. => .returnValue
  | .breakLoop .. => .breakLoop
  | .block .. => .block
  | .call .. => .call
  | .invoke .. => .invoke
  | .expression .. => .expression
  | .error .. => .inert

theorem Handler.get?_builtin (st : Statement) : Entries.get? st.kind builtin = some (.of st) := by
  cases st with
  | declaration scope => cases scope <;> rfl
  | _ => rfl

namespace Evaluator

theorem statement_eq (ev : Evaluator) {env : Environment} (builtin : env.handlers = Handler.builtin)
    (st : Statement) : ev.statement env st = ev.handle env (.of st) st := by
  rw [statement, builtin, Handler.get?_builtin]

/-! ## The block that a statement runs -/

/-- A conditional runs a block, in a state. -/
inductive Picks (ev : Evaluator) (env : Environment) (otherwise : Option Block) :
    List (Expr × Block) → State → Block → State → Prop
  | here {test body rest s t} (holds : ev.condition env test s = .ok true t) :
      Picks ev env otherwise ((test, body) :: rest) s body t
  | later {test other rest s t body u} (fails : ev.condition env test s = .ok false t)
      (next : Picks ev env otherwise rest t body u) :
      Picks ev env otherwise ((test, other) :: rest) s body u
  | otherwise {body s} (h : otherwise = some body) : Picks ev env otherwise [] s body s

theorem Picks.conditional_eq {ev : Evaluator} {env : Environment} {otherwise : Option Block}
    {branches : List (Expr × Block)} {s t : State} {body : Block}
    (h : Picks ev env otherwise branches s body t) :
    ev.conditional env otherwise branches s = ev.block env body t := by
  induction h with
  | here holds => exact Run.bind_ok holds
  | later fails next ih => exact (Run.bind_ok fails).trans ih
  | otherwise h => rw [h]; rfl

theorem picks_of_conditional {ev : Evaluator} {env : Environment} {otherwise : Option Block}
    {branches : List (Expr × Block)} {s u : State} {v : Value}
    (h : ev.conditional env otherwise branches s = .ok (.result v) u) :
    ∃ body t, Picks ev env otherwise branches s body t ∧ ev.block env body t = .ok (.result v) u := by
  induction branches generalizing s with
  | nil =>
    cases otherwise with
    | some body => exact ⟨body, s, .otherwise rfl, h⟩
    | none => cases h
  | cons branch rest ih =>
    obtain ⟨b, t, hc, h⟩ := Run.bind_eq_ok.mp h
    cases b with
    | true => exact ⟨branch.2, t, .here hc, h⟩
    | false =>
      obtain ⟨body, w, picked, hb⟩ := ih h
      exact ⟨body, w, .later hc picked, hb⟩

/-- A statement runs a block, in a state. -/
inductive Enters (ev : Evaluator) (env : Environment) : Statement → State → Block → State → Prop
  | block {body s} : Enters ev env (.block body) s body s
  | branch {branches otherwise line s body t} (picked : Picks ev env otherwise branches s body t) :
      Enters ev env (.conditional branches otherwise line) s body t
  | whileLoop {test body line s t}
      (turn : Turns ev env body (.repeated test ev.passes) { s with loopDepth := s.loopDepth + 1 } t) :
      Enters ev env (.whileLoop test body line) s body t
  | forLoop {name source body line s hold p t u}
      (starts : ev.forStart env name source line { s with loopDepth := s.loopDepth + 1 } = .ok (hold, p) t)
      (turn : Turns ev env body p (hold.enter t) u) : Enters ev env (.forLoop name source body line) s body u

/-- The result of the block is the result of the statement. -/
theorem Enters.statement_eq_result {ev : Evaluator} {env : Environment} (builtin : env.handlers = Handler.builtin)
    {st : Statement} {s t u : State} {body : Block} {v : Value} (enters : Enters ev env st s body t)
    (h : ev.block env body t = .ok (.result v) u) :
    ∃ w, ev.statement env st s = .ok (.result v) w ∧ Unwound u w := by
  rw [statement_eq ev builtin]
  cases enters with
  | block => exact ⟨u, h, .refl u⟩
  | branch picked => exact ⟨u, picked.conditional_eq.trans h, .refl u⟩
  | whileLoop turn =>
    exact ⟨_, inLoop_eq_ok.mpr ⟨u, turn.run_eq_result h, rfl⟩, State.unwound_loop u⟩
  | @forLoop name source body line _ hold p t _ starts turn =>
    have looped := Hold.around_eq_ok.mpr ⟨u, turn.run_eq_result h, rfl⟩
    refine ⟨_, ?_, (State.unwound_hold hold u).trans (State.unwound_loop _)⟩
    show ev.forLoop env name source body line s = _
    rw [forLoop_eq]
    exact inLoop_eq_ok.mpr ⟨_, (Run.bind_ok starts).trans looped, rfl⟩

/-- A statement has no result but that of a `regresa` or of a block that it runs. -/
theorem enters_of_statement {ev : Evaluator} {env : Environment} (builtin : env.handlers = Handler.builtin)
    {st : Statement} {s w : State} {v : Value} (h : ev.statement env st s = .ok (.result v) w) :
    (∃ value line, st = .returnValue value line) ∨
    ∃ body t u, Enters ev env st s body t ∧ ev.block env body t = .ok (.result v) u ∧ Unwound u w := by
  rw [statement_eq ev builtin] at h
  cases st with
  | returnValue value line => exact .inl ⟨value, line, rfl⟩
  | block body => exact .inr ⟨body, s, w, .block, h, .refl w⟩
  | conditional branches otherwise line =>
    obtain ⟨body, t, picked, hb⟩ := picks_of_conditional h
    exact .inr ⟨body, t, w, .branch picked, hb, .refl w⟩
  | whileLoop test body line =>
    obtain ⟨u, hx, rfl⟩ := inLoop_eq_ok.mp h
    obtain ⟨t, turn, hb⟩ := turns_of_run (p := .repeated test ev.passes) hx
    exact .inr ⟨body, t, u, .whileLoop turn, hb, State.unwound_loop u⟩
  | forLoop name source body line =>
    have h : ev.forLoop env name source body line s = _ := h
    rw [forLoop_eq] at h
    obtain ⟨_, hx, rfl⟩ := inLoop_eq_ok.mp h
    obtain ⟨⟨hold, p⟩, t, starts, hx⟩ := Run.bind_eq_ok.mp hx
    obtain ⟨u, hp, rfl⟩ := Hold.around_eq_ok.mp hx
    obtain ⟨x, turn, hb⟩ := turns_of_run hp
    exact .inr ⟨body, x, u, .forLoop starts turn, hb,
      (State.unwound_hold hold u).trans (State.unwound_loop _)⟩
  | breakLoop line =>
    obtain ⟨_, _, hg, h⟩ := Run.bind_eq_ok.mp h
    cases hg
    dsimp only at h
    split at h <;> cases h
  | expression e line =>
    obtain ⟨_, _, _, h⟩ := Run.bind_eq_ok.mp h
    dsimp only at h
    split at h <;> cases h
  | assignment target value line =>
    obtain ⟨_, _, _, h⟩ := Run.bind_eq_ok.mp h
    obtain ⟨_, _, _, h⟩ := Run.bind_eq_ok.mp h
    cases h
  | error message line => cases h
  | _ =>
    obtain ⟨_, _, _, h⟩ := Run.bind_eq_ok.mp h
    cases h

/-! ## The statements that are reached -/

/-- A statement ends with the next one, by itself or when its request is served. -/
inductive Proceeds (ev : Evaluator) (env : Environment) (st : Statement) (s : State) : State → Prop
  | plain {t} (h : ev.exec env st s = .ok .proceed t) : Proceeds ev env st s t
  | served {request t u} (h : ev.exec env st s = .ok (.invoke request) t)
      (hs : ev.serve env request t = .ok .proceed u) : Proceeds ev env st s u

theorem Proceeds.statements_eq {ev : Evaluator} {env : Environment} {st : Statement} {s t : State}
    (h : Proceeds ev env st s t) (rest : List Statement) :
    ev.statements env (st :: rest) s = ev.statements env rest t := by
  cases h with
  | plain h => exact Run.bind_ok h
  | served h hs => exact (Run.bind_ok h).trans (Run.bind_ok hs)

/-- Statements, executed within a depth from a state, come to execute a
statement, within a depth from a state: one of their own, or one inside the
blocks that they run. -/
inductive Reaches (env : Environment) : Nat → List Statement → State → Nat → Statement → State → Prop
  | here {n st rest s} : Reaches env n (st :: rest) s n st s
  | next {n st rest s t m goal u} (proceeds : Proceeds (within n) env st s t)
      (reaches : Reaches env n rest t m goal u) : Reaches env n (st :: rest) s m goal u
  | inside {n st rest s body t m goal u} (enters : Enters (within n) env st s body t)
      (reaches : Reaches env n body.statements t.pushScope m goal u) :
      Reaches env (n + 1) (st :: rest) s m goal u

/-- A result that is raised at any depth is the result of the whole. -/
theorem Reaches.statements_eq_result {env : Environment} (builtin : env.handlers = Handler.builtin) {n m : Nat}
    {sts : List Statement} {s t u : State} {st : Statement} {v : Value} (reaches : Reaches env n sts s m st t)
    (h : (within m).exec env st t = .ok (.result v) u) :
    ∃ w, (within n).statements env sts s = .ok (.result v) w ∧ Unwound u w := by
  induction reaches with
  | here => exact ⟨u, Run.bind_ok h, .refl u⟩
  | next proceeds _ ih =>
    obtain ⟨w, hw, unwound⟩ := ih h
    exact ⟨w, (proceeds.statements_eq _).trans hw, unwound⟩
  | @inside n st _ _ body t _ _ _ enters _ ih =>
    obtain ⟨w, hw, unwound⟩ := ih h
    have blocked : (within n).block env body t = .ok (.result v) w.popScope :=
      Run.bracket_eq_ok.mpr ⟨w, hw, rfl⟩
    obtain ⟨x, hx, unwound'⟩ := enters.statement_eq_result builtin blocked
    exact ⟨x, Run.bind_ok hx, (unwound.trans (State.unwound_popScope w)).trans unwound'⟩

/-- Statements reach a `regresa` that raises a value, and the rest is unwinding. -/
def Raises (env : Environment) (n : Nat) (sts : List Statement) (s : State) (v : Value) (w : State) : Prop :=
  ∃ m value line t u, Reaches env n sts s m (.returnValue value line) t ∧
    (within m).exec env (.returnValue value line) t = .ok (.result v) u ∧ Unwound u w

/-- A result of statements was raised by a `regresa` that they reach. -/
theorem raises_of_statements {env : Environment} (builtin : env.handlers = Handler.builtin) {n : Nat}
    {sts : List Statement} {s w : State} {v : Value} (h : (within n).statements env sts s = .ok (.result v) w) :
    Raises env n sts s v w := by
  induction n generalizing sts s w with
  | zero =>
    cases sts with
    | nil => cases h
    | cons st rest => cases h
  | succ n deeper =>
    induction sts generalizing s with
    | nil => cases h
    | cons st rest ih =>
      have onward : ∀ {t}, Proceeds (within (n + 1)) env st s t →
          (within (n + 1)).statements env rest t = .ok (.result v) w → Raises env (n + 1) (st :: rest) s v w := by
        intro t proceeds hr
        obtain ⟨m, value, line, x, u, reaches, hu⟩ := ih hr
        exact ⟨m, value, line, x, u, Reaches.next proceeds reaches, hu⟩
      obtain ⟨flow, t, hx, h⟩ := Run.bind_eq_ok.mp h
      cases flow with
      | proceed => exact onward (.plain hx) h
      | leaveLoop => cases h
      | invoke request =>
        obtain ⟨served, y, hs, h⟩ := Run.bind_eq_ok.mp h
        obtain rfl | ⟨-, rfl⟩ := serve_eq_ok hs
        · exact onward (.served hx hs) h
        · cases h
      | result v =>
        cases h
        obtain ⟨value, line, rfl⟩ | ⟨body, y, u, enters, hb, unwound⟩ := enters_of_statement builtin hx
        · exact ⟨_, value, line, s, _, .here, hx, .refl _⟩
        · obtain ⟨z, hz, rfl⟩ := Run.bracket_eq_ok.mp hb
          obtain ⟨m, value, line, x, y, reaches, hy, inner⟩ := deeper hz
          exact ⟨m, value, line, x, y, .inside enters reaches, hy,
            (inner.trans (State.unwound_popScope z)).trans unwound⟩

/-! ## Functions and programs -/

/-- The result of the body of a function is what the call converts and gives. -/
theorem callDefined_eq_result {ev : Evaluator} {env : Environment} {function : FunctionDef}
    {arguments : List Value} {line : Nat} {s w : State} {frame : Scope} {v : Value}
    (below : s.callDepth < State.maxCallDepth) (fits : arguments.length = function.signature.params.length)
    (bound : s.registry.bindParams line [] function.signature.params arguments = .ok frame)
    (h : ev.statements env function.body.statements (s.enterCall frame) = .ok (.result v) w) :
    ev.callDefined env function arguments line s =
      Run.ofExcept (function.signature.returns.convert v line) (s.leaveCall w) := by
  rw [callDefined_eq, if_neg (Nat.not_le.mpr below), if_neg (not_not_intro fits), bound]
  dsimp only
  rw [h]
  rfl

/-- A result at the top level ends the program. -/
theorem Between.topLevel_eq_result {ev : Evaluator} {env : Environment} {origin : Option String} {depth : Nat}
    {sts rest : List Statement} {st : Statement} {s t w : State} {v : Value}
    (between : Between ev env origin depth sts s (st :: rest) t)
    (h : ev.statements env [st] t = .ok (.result v) w) :
    ev.topLevel env origin depth sts s = .ok () w := by
  rw [between.topLevel_eq]
  obtain ⟨flow, u, hx, h⟩ := Run.bind_eq_ok.mp h
  cases flow with
  | proceed => cases h
  | leaveLoop => cases h
  | result _ => cases h; exact Run.bind_ok (Run.mapError_ok hx)
  | invoke request =>
    obtain ⟨served, y, hs, h⟩ := Run.bind_eq_ok.mp h
    obtain rfl | ⟨-, rfl⟩ := serve_eq_ok hs <;> cases h

/-! ## The discipline -/

/-- Each end of a statement has its owner: `leaveLoop` the loop, `result` the
function or program, `invoke` the invoker or the driver. -/
structure Disciplined (n : Nat) (env : Environment) : Prop where
  /-- Outside loops no sequence ends with the end of a loop, -/
  never_leaveLoop : ∀ {sts s t}, s.loopDepth = 0 → (within n).statements env sts s ≠ .ok .leaveLoop t
  /-- because `rompe` fails there. -/
  breakLoop_fails : ∀ {line rest s}, s.loopDepth = 0 →
    (within (n + 1)).statements env (.breakLoop line :: rest) s = .error (.failure (.breakOutsideLoop line)) s
  /-- A loop keeps the end of a loop for itself. -/
  whileLoop_ends : ∀ {test body line s t}, (within n).exec env (.whileLoop test body line) s ≠ .ok .leaveLoop t
  forLoop_ends : ∀ {name source body line s t},
    (within n).exec env (.forLoop name source body line) s ≠ .ok .leaveLoop t
  /-- A result that is raised at any depth of nesting is the result of the
  sequence, and nothing but unwinding comes behind it; -/
  result_carried : ∀ {sts s m st t v u}, Reaches env n sts s m st t →
    (within m).exec env st t = .ok (.result v) u →
    ∃ w, (within n).statements env sts s = .ok (.result v) w ∧ Unwound u w
  /-- a sequence has no other results; -/
  result_raised : ∀ {sts s v w}, (within n).statements env sts s = .ok (.result v) w → Raises env n sts s v w
  /-- a function converts the result that its body raises, and gives it; -/
  result_of_function : ∀ {function arguments line frame m st t v u} {s : State}, s.callDepth < State.maxCallDepth →
    arguments.length = function.signature.params.length →
    s.registry.bindParams line [] function.signature.params arguments = .ok frame →
    Reaches env n function.body.statements (s.enterCall frame) m st t →
    (within m).exec env st t = .ok (.result v) u →
    ∃ w, Unwound u w ∧ (within n).callDefined env function arguments line s =
      Run.ofExcept (function.signature.returns.convert v line) (s.leaveCall w)
  /-- and a program ends. -/
  result_of_program : ∀ {origin depth sts s st rest t m goal x v u},
    Between (within n) env origin depth sts s (st :: rest) t → Reaches env n [st] t m goal x →
    (within m).exec env goal x = .ok (.result v) u →
    ∃ w, Unwound u w ∧ (within n).topLevel env origin depth sts s = .ok () w
  /-- An invoker serves every request of a sequence, -/
  invoker_serves : ∀ {sts s request t}, env.invoker ≠ .none →
    (within n).statements env sts s ≠ .ok (.invoke request) t
  /-- and inside a function there are none. -/
  function_invokes_nothing : ∀ {s request t}, 0 < s.callDepth →
    (∀ st, (within n).exec env st s ≠ .ok (.invoke request) t) ∧
    ∀ sts, (within n).statements env sts s ≠ .ok (.invoke request) t
  /-- So a body ends with a result or with its last statement, whatever loops
  the caller has open, -/
  body_ends : ∀ {body frame flow t} {s : State}, (within n).statements env body (s.enterCall frame) = .ok flow t →
    flow = .proceed ∨ ∃ v, flow = .result v
  /-- and no top-level statement of a program ends with the end of a loop. -/
  topLevel_ends : ∀ {origin depth sts s st rest t u}, s.loopDepth = 0 →
    Between (within n) env origin depth sts s (st :: rest) t → (within n).exec env st t ≠ .ok .leaveLoop u

/-- **Every end of a statement comes to its owner**, and to nobody else. -/
theorem within_disciplined (n : Nat) {env : Environment} (builtin : env.handlers = Handler.builtin) :
    Disciplined n env where
  never_leaveLoop outside h := by
    have fits := (within_fitting n).statements h
    rw [outside] at fits
    cases fits
  breakLoop_fails {line rest s} outside := by
    refine Run.bind_error ?_
    show (within n).statement env (.breakLoop line) s = _
    rw [statement_eq _ builtin]
    refine (Run.bind_ok (x := get) rfl).trans ?_
    rw [if_pos outside]
    rfl
  whileLoop_ends h := by
    cases n with
    | zero => cases h
    | succ n =>
      have h : (within n).statement env _ _ = _ := h
      rw [statement_eq _ builtin] at h
      cases (within_fitting n).whileLoop h
  forLoop_ends h := by
    cases n with
    | zero => cases h
    | succ n =>
      have h : (within n).statement env _ _ = _ := h
      rw [statement_eq _ builtin] at h
      cases (within_fitting n).forLoop h
  result_carried reaches h := reaches.statements_eq_result builtin h
  result_raised h := raises_of_statements builtin h
  result_of_function below fits bound reaches h := by
    obtain ⟨w, hw, unwound⟩ := reaches.statements_eq_result builtin h
    exact ⟨w, unwound, callDefined_eq_result below fits bound hw⟩
  result_of_program between reaches h := by
    obtain ⟨w, hw, unwound⟩ := reaches.statements_eq_result builtin h
    exact ⟨w, unwound, between.topLevel_eq_result hw⟩
  invoker_serves installed := statements_ne_invoke _ installed _ _ _ _
  function_invokes_nothing inside :=
    ⟨fun _ h => Nat.ne_of_gt inside ((within_fitting n).exec h),
      fun _ h => Nat.ne_of_gt inside ((within_fitting n).statements h)⟩
  body_ends {_ _ flow _ _} h := by
    have fits := (within_fitting n).statements h
    cases flow with
    | proceed => exact .inl rfl
    | result v => exact .inr ⟨v, rfl⟩
    | leaveLoop => cases fits
    | invoke request => cases fits
  topLevel_ends outside between h := by
    have fits := (within_fitting n).exec h
    rw [between.level.loopDepth, outside] at fits
    cases fits

/-- A `regresa` in a branch in a loop in a function, called from inside three
other loops. -/
theorem within_disciplined_nested :
    let body : Block := .mk [.whileLoop (.literal (.boolean true) 2)
      (.mk [.conditional [(.literal (.boolean true) 3, .mk [.returnValue (some (.literal (.integer 7) 4)) 4] 4)]
        none 3] 3) 2, .breakLoop 5] 2
    let function : FunctionDef := ⟨{ name := "f", params := [], returns := .dynamic, line := 1 }, body⟩
    let s : State := { toWorld := {}, toContext := { loopDepth := 3 } }
    (({} : Environment).handlers = Handler.builtin ∧ s.callDepth < State.maxCallDepth) ∧
      ∃ w, (within 5).callDefined {} function [] 6 s = .ok (.integer 7) w := by
  intro body function s
  have below : s.callDepth < State.maxCallDepth := by decide
  have reaches : Reaches {} 5 body.statements (s.enterCall []) 3 (.returnValue (some (.literal (.integer 7) 4)) 4) _ :=
    .inside (.whileLoop (.now rfl)) (.inside (.branch (.here rfl)) .here)
  have disciplined : Disciplined 5 {} := within_disciplined 5 rfl
  obtain ⟨w, -, h⟩ : ∃ w, State.Unwound _ w ∧ (within 5).callDefined {} function [] 6 s = _ :=
    disciplined.result_of_function below rfl rfl reaches rfl
  exact ⟨⟨rfl, below⟩, _, h⟩

end Evaluator
end Guion
