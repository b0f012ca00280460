/-
The stack discipline of runs.

Scopes, calls and loops are entered and left in pairs, on every path: behind
a statement or an expression there are as many of each as before, whatever
happened inside (`kept_level`), and no more calls are ever open than are
allowed (`lasting_callDepth`). Most of the work is done by `Run.bracket`,
which leaves what it entered however the computation ends; what is left to
say is that no change in between touches the counts, and that a scope pushed
onto at least one other is the one that is popped.

A call puts the caller's scopes and loops aside as a whole and reads neither,
so a call from another caller is the same call (`callDefined_of_caller`).
-/
import Guion.Proofs.Run.Invariants
import Guion.Proofs.Run.Writes

namespace Guion

open Evaluator

namespace State

/-- As many open scopes, calls and loops. -/
structure Balanced (s t : State) : Prop where
  scopes : t.scopes.length = s.scopes.length
  callDepth : t.callDepth = s.callDepth
  loopDepth : t.loopDepth = s.loopDepth

theorem Balanced.of_scopes {s : State} {scopes : List Scope} (h : scopes.length = s.scopes.length) :
    s.Balanced { s with scopes := scopes } :=
  ⟨h, rfl, rfl⟩

theorem Effect.balanced {s t : State} (h : Effect s t) : s.Balanced t := by
  cases h with
  | print line => exact ⟨rfl, rfl, rfl⟩
  | identity => exact ⟨rfl, rfl, rfl⟩
  | delete h => rw [delete_eq_ok h]; exact ⟨length_eraseLocal _ _, rfl, rfl⟩
  | assign h =>
    cases assigned_of_assignVariable h with
    | «local» => exact ⟨length_setLocal _ _ _, rfl, rfl⟩
    | global => exact ⟨rfl, rfl, rfl⟩
    | «symbol» => exact ⟨rfl, rfl, rfl⟩
    | new => exact ⟨length_defineInFrame _ _ _, rfl, rfl⟩

theorem Change.balanced {s t : State} (h : Change s t) : s.Balanced t := by
  cases h with
  | effect h => exact h.balanced
  | define h => rw [defineFunction_eq_ok h]; exact ⟨rfl, rfl, rfl⟩
  | merge own => exact ⟨rfl, rfl, rfl⟩
  | bindLoop name value =>
    obtain ⟨scopes, he, hl⟩ := bindLoopVariable_eq name value s
    rw [he]
    exact .of_scopes hl
  | declare h =>
    cases declared_of_declareName h with
    | «local» value =>
      obtain ⟨scopes, he, hl⟩ := defineLocal_eq _ value s
      rw [he]
      exact .of_scopes hl
    | @«variable» _ stored registry =>
      obtain ⟨scopes, he, hl⟩ := defineLocal_eq _ stored { s with registry := registry }
      rw [he]
      exact ⟨hl, rfl, rfl⟩
    | global value => exact ⟨rfl, rfl, rfl⟩
    | constant value => exact ⟨rfl, rfl, rfl⟩

/-- Closing a scope changes nothing but the scopes, and there is one less if
there were two. -/
theorem popScope_eq (s : State) : ∃ scopes, s.popScope = { s with scopes := scopes } ∧
    (1 < s.scopes.length → scopes.length + 1 = s.scopes.length) := by
  unfold popScope
  split
  · next hs => exact ⟨_, rfl, fun _ => by simp [hs]⟩
  · next hs =>
    refine ⟨s.scopes, rfl, fun h => ?_⟩
    match hm : s.scopes with
    | [] | [_] => rw [hm] at h; simp at h
    | a :: b :: rest => exact absurd hm (hs a b rest)

/-- As many open calls and loops, and as many open scopes if there is one. -/
structure Level (s t : State) : Prop where
  callDepth : t.callDepth = s.callDepth
  loopDepth : t.loopDepth = s.loopDepth
  scopes : s.scopes ≠ [] → t.scopes.length = s.scopes.length

theorem Level.balanced {s t : State} (h : Level s t) (opened : s.scopes ≠ []) : s.Balanced t :=
  ⟨h.scopes opened, h.callDepth, h.loopDepth⟩

theorem Level.opened {s t : State} (h : Level s t) (opened : s.scopes ≠ []) : t.scopes ≠ [] := by
  intro he
  have hl := h.scopes opened
  rw [he] at hl
  exact opened (List.length_eq_zero_iff.mp hl.symm)

theorem kept_level : Kept Level where
  refl s := ⟨rfl, rfl, fun _ => rfl⟩
  trans {s t u} hst htu :=
    ⟨htu.callDepth.trans hst.callDepth, htu.loopDepth.trans hst.loopDepth,
      fun hs => (htu.scopes (hst.opened hs)).trans (hst.scopes hs)⟩
  change h := ⟨h.balanced.callDepth, h.balanced.loopDepth, fun _ => h.balanced.scopes⟩
  enclose {s t _ _} he h := by
    cases he with
    | block =>
      have hl : t.scopes.length = s.scopes.length + 1 := h.scopes (List.cons_ne_nil _ _)
      obtain ⟨scopes, hp, hone⟩ := popScope_eq t
      show s.Level t.popScope
      rw [hp]
      refine ⟨h.callDepth, h.loopDepth, fun hs => ?_⟩
      have : 0 < s.scopes.length := List.length_pos_iff.mpr hs
      have := hone (by omega)
      show scopes.length = _
      omega
    | loop => exact ⟨h.callDepth, by simp [h.loopDepth], h.scopes⟩
    | stream => exact ⟨h.callDepth, h.loopDepth, h.scopes⟩
    | reading => exact ⟨h.callDepth, h.loopDepth, h.scopes⟩
    | call frame => exact ⟨by simp [leaveCall, h.callDepth, enterCall], rfl, fun _ => rfl⟩
  program _ _ := ⟨rfl, rfl, fun _ => rfl⟩

/-- No call is entered at the limit, so the limit holds at every point. -/
theorem lasting_callDepth : Lasting (·.callDepth ≤ maxCallDepth) where
  change h hs := by rwa [h.balanced.callDepth]
  enter he hs := by
    cases he with
    | call frame below => exact decide_eq_true (Nat.succ_le_of_lt below)
    | _ => exact hs
  leave {s t _ _} he _ ht := by
    have ht := of_decide_eq_true ht
    cases he with
    | block =>
      obtain ⟨scopes, hp, -⟩ := popScope_eq t
      show decide (t.popScope.callDepth ≤ maxCallDepth) = true
      rw [hp]
      exact decide_eq_true ht
    | call frame below =>
      exact decide_eq_true (Nat.le_trans (Nat.sub_le _ _) ht)
    | _ => exact decide_eq_true ht
  start _ _ := rfl
  finish hs _ := hs

end State

/-! ## Calls -/

/-- The same end of a computation, in another state. -/
def Run.endIn (f : State → State) :
    EStateM.Result (Halt ε) State α → EStateM.Result (Halt ε) State α
  | .ok a t => .ok a (f t)
  | .error halt t => .error halt (f t)

namespace Evaluator

/-- What a call makes of the way its body ends. -/
def callResult (function : FunctionDef) (line : Nat) : Flow → Except RuntimeError Value
  | .result v => function.signature.returns.convert v line
  | .proceed | .leaveLoop => .ok (.integer 0)
  | .invoke _ => .error (.nestedInvocation line)

/-- A call in one piece: what is checked before the body, and what becomes of
the end of the body. -/
theorem callDefined_eq (ev : Evaluator) (env : Environment) (function : FunctionDef)
    (arguments : List Value) (line : Nat) (s : State) :
    ev.callDefined env function arguments line s =
      if State.maxCallDepth ≤ s.callDepth then
        .error (.failure (.recursionLimit State.maxCallDepth line)) s
      else if arguments.length ≠ function.signature.params.length then
        .error (.failure (.argumentCountMismatch function.signature.name
          (toString function.signature.params.length) arguments.length line)) s
      else
        match s.registry.bindParams line [] function.signature.params arguments with
        | .error cause => .error (.failure cause) s
        | .ok frame =>
          match ev.statements env function.body.statements (s.enterCall frame) with
          | .error halt t => .error halt (s.leaveCall t)
          | .ok flow t => Run.ofExcept (callResult function line flow) (s.leaveCall t) := by
  refine (Run.bind_ok (x := get) rfl).trans ?_
  dsimp only
  split
  · rfl
  split
  · rfl
  cases hf : s.registry.bindParams line [] function.signature.params arguments with
  | error cause => rfl
  | ok frame =>
    refine (Run.bind_ok (x := Run.ofExcept (.ok frame)) rfl).trans ?_
    dsimp only
    cases hr : ev.statements env function.body.statements (s.enterCall frame) with
    | error halt t => exact Run.bind_error (by rw [Run.bracket, hr])
    | ok flow t =>
      refine (Run.bind_ok (by rw [Run.bracket, hr])).trans ?_
      cases flow <;> rfl

/-- At the limit no frame is entered. -/
theorem callDefined_at_limit (ev : Evaluator) (env : Environment) (function : FunctionDef)
    (arguments : List Value) (line : Nat) {s : State} (h : State.maxCallDepth ≤ s.callDepth) :
    ev.callDefined env function arguments line s =
      .error (.failure (.recursionLimit State.maxCallDepth line)) s := by
  rw [callDefined_eq, if_pos h]

/-- The scopes and loops of the caller only come back: the same call from
another caller ends the same way, in the same state but for them. -/
theorem callDefined_of_caller (ev : Evaluator) (env : Environment) (function : FunctionDef)
    (arguments : List Value) (line : Nat) (s : State) (scopes : List Scope) (loops : Nat) :
    ev.callDefined env function arguments line { s with scopes := scopes, loopDepth := loops } =
      Run.endIn (fun t => { t with scopes := scopes, loopDepth := loops })
        (ev.callDefined env function arguments line s) := by
  rw [callDefined_eq, callDefined_eq]
  split
  · rfl
  split
  · rfl
  dsimp only
  cases s.registry.bindParams line [] function.signature.params arguments with
  | error cause => rfl
  | ok frame =>
    -- Both callers enter the same state: the frame and nothing of the caller.
    have entered : State.enterCall frame { s with scopes := scopes, loopDepth := loops } =
        s.enterCall frame := rfl
    dsimp only
    rw [entered]
    cases ev.statements env function.body.statements (s.enterCall frame) with
    | error halt t => rfl
    | ok flow t =>
      dsimp only
      cases callResult function line flow <;> rfl

/-- A call leaves the state alone, or what its body does with the scopes of the
caller. -/
theorem after_callDefined (ev : Evaluator) (env : Environment) (function : FunctionDef) (arguments : List Value)
    (line : Nat) (s : State) :
    (ev.callDefined env function arguments line).after s = s ∨
      ∃ frame, (ev.callDefined env function arguments line).after s =
        s.leaveCall ((ev.statements env function.body.statements).after (s.enterCall frame)) := by
  unfold Run.after
  rw [callDefined_eq]
  by_cases limit : State.maxCallDepth ≤ s.callDepth
  · rw [if_pos limit]; exact .inl rfl
  by_cases count : arguments.length ≠ function.signature.params.length
  · rw [if_neg limit, if_pos count]; exact .inl rfl
  rw [if_neg limit, if_neg count]
  cases s.registry.bindParams line [] function.signature.params arguments with
  | error cause => exact .inl rfl
  | ok frame =>
    refine .inr ⟨frame, ?_⟩
    dsimp only
    cases ev.statements env function.body.statements (s.enterCall frame) with
    | error halt t => rfl
    | ok flow t => dsimp only; cases callResult function line flow <;> rfl

/-- A call leaves the scopes of the caller as they were. -/
theorem scopes_after_callDefined (ev : Evaluator) (env : Environment) (function : FunctionDef)
    (arguments : List Value) (line : Nat) (s : State) :
    ((ev.callDefined env function arguments line).after s).scopes = s.scopes := by
  obtain same | ⟨frame, same⟩ := after_callDefined ev env function arguments line s
  · rw [same]
  · rw [same]; rfl

/-! ## The discipline -/

/-- **Every run gives back the stack that it took.** From a state with an open
scope and no more calls than allowed, a statement and an expression end with
as many scopes, calls and loops as before, however they end, and an alarm
that goes off at more calls than allowed is never heard. A call leaves the
scopes of its caller untouched and depends neither on them nor on the
caller's loops. -/
theorem within_balanced (n : Nat) (env : Environment) (s : State) (opened : s.scopes ≠ [])
    (limit : s.callDepth ≤ State.maxCallDepth) :
    (∀ st, s.Balanced (((within n).exec env st).after s)) ∧
    (∀ e, s.Balanced (((within n).eval env e).after s)) ∧
    (∀ alarm,
      (∀ st, (watched (·.callDepth ≤ State.maxCallDepth) alarm n).exec env st s =
        (within n).exec env st s) ∧
      ∀ e, (watched (·.callDepth ≤ State.maxCallDepth) alarm n).eval env e s =
        (within n).eval env e s) ∧
    ∀ function arguments line,
      (State.maxCallDepth ≤ s.callDepth → (within n).callDefined env function arguments line s =
        .error (.failure (.recursionLimit State.maxCallDepth line)) s) ∧
      (((within n).callDefined env function arguments line).after s).scopes = s.scopes ∧
      ∀ scopes loops,
        (within n).callDefined env function arguments line
            { s with scopes := scopes, loopDepth := loops } =
          Run.endIn (fun t => { t with scopes := scopes, loopDepth := loops })
            ((within n).callDefined env function arguments line s) := by
  have kept := State.kept_level.within n
  refine ⟨fun st => (kept.exec env st s).balanced opened, fun e => (kept.eval env e s).balanced opened,
    fun alarm => ?_, fun function arguments line => ⟨fun h => ?_, ?_, fun scopes loops => ?_⟩⟩
  · have watch := State.lasting_callDepth.watched alarm n
    have start := decide_eq_true limit
    exact ⟨fun st => ((watch.exec env st s) start).1.symm, fun e => ((watch.eval env e s) start).1.symm⟩
  · exact callDefined_at_limit _ env function arguments line h
  · exact scopes_after_callDefined _ env function arguments line s
  · exact callDefined_of_caller _ env function arguments line s scopes loops

/-- At the start of a program, a loop that fails inside: there is no function of
that name. -/
theorem within_balanced_start :
    let s : State := { toWorld := {}, toContext := .initial [] }
    let st : Statement := .whileLoop (.literal (.boolean true) 1) (.mk [.call "f" [] 2, .breakLoop 3] 1) 1
    (s.scopes ≠ [] ∧ s.callDepth ≤ State.maxCallDepth) ∧
      s.Balanced (((within 9).exec {} st).after s) := by
  intro s st
  have opened : s.scopes ≠ [] := List.cons_ne_nil _ _
  have limit : s.callDepth ≤ State.maxCallDepth := Nat.zero_le _
  exact ⟨⟨opened, limit⟩, (within_balanced 9 {} s opened limit).1 st⟩

end Evaluator
end Guion
