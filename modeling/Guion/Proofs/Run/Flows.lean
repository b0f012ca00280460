/-
How statements end.

`rompe` ends the loop around it and nothing else, and a request to run a
program goes to the invoker or to the driver, never to a function. So a
statement ends with `leaveLoop` only where a loop is open, and with `invoke`
only outside functions (`within_fitting`): each rule keeps this, from the
same fact about the parts. A loop takes the `leaveLoop` of its body for
itself, so it ends as if no loop were open around it (`Fitting.run`).

`Between` follows a program from one top-level statement to the next.
-/
import Guion.Proofs.Run.Loops
import Guion.Proofs.Run.Stack

namespace Guion

open State (Level keeping kept_level)

/-- What may end a statement, with so many loops and calls open. -/
def Flow.Fits (loops calls : Nat) : Flow → Prop
  | .leaveLoop => 0 < loops
  | .invoke _ => calls = 0
  | _ => True

theorem Flow.Fits.of_zero {calls : Nat} {flow : Flow} (h : flow.Fits 0 calls) (loops : Nat) :
    flow.Fits loops calls := by
  cases flow with
  | leaveLoop => cases h
  | _ => exact h

/-- A computation that keeps a relation, and ended with a result. -/
theorem State.keeping.of_ok {R : State → State → Prop} {x y : Run ε α} {s t : State} {a : α}
    (h : keeping R s x y) (hx : x s = .ok a t) : R s t := by
  unfold keeping at h
  rwa [Run.after_ok hx] at h

namespace Evaluator

/-- An evaluator whose statements end as they may and leave the level as it was. -/
structure Fitting (ev : Evaluator) : Prop where
  exec : ∀ {env st s flow t}, ev.exec env st s = .ok flow t → flow.Fits s.loopDepth s.callDepth
  level : Related (keeping Level) ev ev

/-! ## Sequences and blocks -/

/-- A request is given back only where there is no invoker. -/
theorem serve_eq_ok {ev : Evaluator} {env : Environment} {request : Invocation} {s t : State} {flow : Flow}
    (h : ev.serve env request s = .ok flow t) :
    flow = .proceed ∨ env.invoker = .none ∧ flow = .invoke request := by
  unfold serve at h
  cases hi : env.invoker with
  | none => rw [hi] at h; cases h; exact .inr ⟨rfl, rfl⟩
  | recorder => rw [hi] at h; cases h; exact .inl rfl
  | refuser => rw [hi] at h; cases h
  | programs origin depth =>
    rw [hi] at h
    obtain ⟨_, _, _, h⟩ := Run.bind_eq_ok.mp h
    cases h
    exact .inl rfl

/-- With an invoker no sequence of statements ends with a request. -/
theorem statements_ne_invoke (ev : Evaluator) {env : Environment} (installed : env.invoker ≠ .none)
    (sts : List Statement) (s : State) (request : Invocation) (t : State) :
    ev.statements env sts s ≠ .ok (.invoke request) t := by
  induction sts generalizing s with
  | nil => intro h; cases h
  | cons st rest ih =>
    intro h
    obtain ⟨flow, u, -, h⟩ := Run.bind_eq_ok.mp h
    cases flow with
    | proceed => exact ih u h
    | leaveLoop => cases h
    | result v => cases h
    | invoke request =>
      obtain ⟨served, w, hs, h⟩ := Run.bind_eq_ok.mp h
      obtain rfl | ⟨hn, -⟩ := serve_eq_ok hs
      · exact ih w h
      · exact installed hn

namespace Fitting

variable {ev : Evaluator} (parts : Fitting ev) {env : Environment} {s t : State} {flow : Flow}
include parts

theorem statements {sts : List Statement} (h : ev.statements env sts s = .ok flow t) :
    flow.Fits s.loopDepth s.callDepth := by
  induction sts generalizing s with
  | nil => cases h; trivial
  | cons st rest ih =>
    obtain ⟨first, u, hx, h⟩ := Run.bind_eq_ok.mp h
    have here := parts.exec hx
    have level := (parts.level.exec env st s).of_ok hx
    have onward : ∀ {w}, Level s w → ev.statements env rest w = .ok flow t →
        flow.Fits s.loopDepth s.callDepth := by
      intro w hw hr
      rw [← hw.loopDepth, ← hw.callDepth]
      exact ih hr
    cases first with
    | proceed => exact onward level h
    | leaveLoop => cases h; exact here
    | result v => cases h; trivial
    | invoke request =>
      obtain ⟨served, w, hs, h⟩ := Run.bind_eq_ok.mp h
      have reached := kept_level.trans level
        ((Related.serve kept_level.executable parts.level env request u).of_ok hs)
      obtain rfl | ⟨-, rfl⟩ := serve_eq_ok hs
      · exact onward reached h
      · cases h; exact here

theorem block {body : Block} (h : ev.block env body s = .ok flow t) :
    flow.Fits s.loopDepth s.callDepth := by
  obtain ⟨u, hx, -⟩ := Run.bracket_eq_ok.mp h
  have fits := parts.statements hx
  exact fits

theorem conditional {otherwise : Option Block} {branches : List (Expr × Block)}
    (h : ev.conditional env otherwise branches s = .ok flow t) : flow.Fits s.loopDepth s.callDepth := by
  induction branches generalizing s with
  | nil =>
    cases otherwise with
    | some body => exact parts.block h
    | none => cases h; trivial
  | cons branch rest ih =>
    obtain ⟨b, u, hc, h⟩ := Run.bind_eq_ok.mp h
    have level := (Related.condition kept_level.executable parts.level env branch.1 s).of_ok hc
    rw [← level.loopDepth, ← level.callDepth]
    cases b with
    | true => exact parts.block h
    | false => exact ih h

/-! ## Loops -/

theorem exprs : EvalRelated (keeping Level) env ev ev := parts.level.evalRelated kept_level.executable env

/-- A loop never ends with the end of a loop. -/
theorem run {body : Block} {p : LoopPoint} (h : p.run ev env body s = .ok flow t) :
    flow.Fits 0 s.callDepth := by
  induction hl : p.left using Nat.strongRecOn generalizing p s with
  | ind k ih =>
    rw [LoopPoint.run_eq] at h
    obtain ⟨begun, u, begins, h⟩ := Run.bind_eq_ok.mp h
    have level := (parts.exprs.begin kept_level.executable.toEvaluable p
      (fun name _ value _ => kept_level.executable.change (.bindLoop name value) rfl) s).of_ok begins
    cases begun with
    | none => cases h; trivial
    | some next =>
      obtain ⟨ended, w, hb, h⟩ := Run.bind_eq_ok.mp h
      have further := kept_level.trans level
        ((Related.block kept_level.executable parts.level env body u).of_ok hb)
      have here := parts.block hb
      cases ended with
      | proceed =>
        rw [← further.callDepth]
        exact ih next.left (hl ▸ (LoopPoint.begin_next begins).1) h rfl
      | leaveLoop => cases h; trivial
      | result v => cases h; trivial
      | invoke request => cases h; exact level.callDepth ▸ here

theorem whileLoop {test : Expr} {body : Block} {passes : Nat}
    (h : inLoop (ev.whileLoop env test body passes) s = .ok flow t) : flow.Fits 0 s.callDepth := by
  obtain ⟨u, hx, -⟩ := inLoop_eq_ok.mp h
  have fits := parts.run (p := .repeated test passes) hx
  exact fits

theorem forLoop {name : String} {source : ForSource} {body : Block} {line : Nat}
    (h : ev.forLoop env name source body line s = .ok flow t) : flow.Fits 0 s.callDepth := by
  rw [forLoop_eq] at h
  obtain ⟨u, hx, -⟩ := inLoop_eq_ok.mp h
  obtain ⟨⟨hold, p⟩, w, hs, hx⟩ := Run.bind_eq_ok.mp hx
  obtain ⟨x, hx, -⟩ := Hold.around_eq_ok.mp hx
  have level := (parts.exprs.forStart kept_level.executable.toEvaluable name source line _).of_ok hs
  have calls : (hold.enter w).callDepth = s.callDepth := by
    rw [hold.enter_callDepth]
    exact level.callDepth
  rw [← calls]
  exact parts.run hx

/-! ## Statements -/

theorem handle {handler : Handler} {st : Statement} (h : ev.handle env handler st s = .ok flow t) :
    flow.Fits s.loopDepth s.callDepth := by
  unfold Evaluator.handle at h
  split at h
  · obtain ⟨_, _, _, h⟩ := Run.bind_eq_ok.mp h; cases h; trivial
  · obtain ⟨_, _, _, h⟩ := Run.bind_eq_ok.mp h
    obtain ⟨_, _, _, h⟩ := Run.bind_eq_ok.mp h; cases h; trivial
  · exact parts.conditional h
  · exact (parts.whileLoop h).of_zero _
  · exact (parts.forLoop h).of_zero _
  · obtain ⟨_, _, _, h⟩ := Run.bind_eq_ok.mp h; cases h; trivial
  · split at h
    · obtain ⟨_, _, _, h⟩ := Run.bind_eq_ok.mp h; cases h; trivial
    · cases h; trivial
  · obtain ⟨_, _, hg, h⟩ := Run.bind_eq_ok.mp h
    cases hg
    dsimp only at h
    split at h
    · cases h
    · next open_ => cases h; exact Nat.pos_of_ne_zero open_
  · exact parts.block h
  · obtain ⟨_, _, _, h⟩ := Run.bind_eq_ok.mp h; cases h; trivial
  · obtain ⟨_, _, hr, h⟩ := Run.bind_eq_ok.mp h
    cases h
    obtain ⟨_, _, hg, hr⟩ := Run.bind_eq_ok.mp hr
    cases hg
    dsimp only at hr
    split at hr
    · cases hr
    · next outside => exact Nat.eq_zero_of_not_pos (by simpa [State.inFunction] using outside)
  · obtain ⟨_, _, _, h⟩ := Run.bind_eq_ok.mp h
    dsimp only at h
    split at h
    · cases h; trivial
    · cases h; trivial
  · cases h; trivial
  · cases h; trivial
  · cases h

theorem statement {st : Statement} (h : ev.statement env st s = .ok flow t) :
    flow.Fits s.loopDepth s.callDepth := by
  unfold Evaluator.statement at h
  cases hk : Entries.get? st.kind env.handlers with
  | none => rw [hk] at h; cases h
  | some handler => rw [hk] at h; exact parts.handle h

end Fitting

/-- Every statement ends as it may. -/
theorem within_fitting (n : Nat) : Fitting (within n) where
  level := kept_level.within n
  exec {env st s flow t} h := by
    induction n generalizing env st s flow t with
    | zero => cases h
    | succ n ih => exact Fitting.statement ⟨ih, kept_level.within n⟩ h

/-! ## Programs -/

/-- A program comes from its statements in one state to the rest of them in
another, between two of its top-level statements. -/
inductive Between (ev : Evaluator) (env : Environment) (origin : Option String) (depth : Nat)
    (sts : List Statement) (s : State) : List Statement → State → Prop
  | start : Between ev env origin depth sts s sts s
  | proceed {st rest t u} (before : Between ev env origin depth sts s (st :: rest) t)
      (ends : ev.exec env st t = .ok .proceed u) : Between ev env origin depth sts s rest u
  | leaveLoop {st rest t u} (before : Between ev env origin depth sts s (st :: rest) t)
      (ends : ev.exec env st t = .ok .leaveLoop u) : Between ev env origin depth sts s rest u
  | invoke {st rest t u w request} (before : Between ev env origin depth sts s (st :: rest) t)
      (ends : ev.exec env st t = .ok (.invoke request) u)
      (served : ev.invoke env origin depth request u = .ok () w) : Between ev env origin depth sts s rest w

/-- What is left of a program is all that is still to be run. -/
theorem Between.topLevel_eq {ev : Evaluator} {env : Environment} {origin : Option String} {depth : Nat}
    {sts rest : List Statement} {s t : State} (h : Between ev env origin depth sts s rest t) :
    ev.topLevel env origin depth sts s = ev.topLevel env origin depth rest t := by
  induction h with
  | start => rfl
  | proceed before ends ih => exact ih.trans (Run.bind_ok (Run.mapError_ok ends))
  | leaveLoop before ends ih => exact ih.trans (Run.bind_ok (Run.mapError_ok ends))
  | invoke before ends served ih =>
    exact ih.trans ((Run.bind_ok (Run.mapError_ok ends)).trans (Run.bind_ok served))

/-- Between two top-level statements the level is that of the start. -/
theorem Between.level {n : Nat} {env : Environment} {origin : Option String} {depth : Nat}
    {sts rest : List Statement} {s t : State} (h : Between (within n) env origin depth sts s rest t) :
    Level s t := by
  have parts := kept_level.within n
  induction h with
  | start => exact kept_level.refl s
  | proceed before ends ih => exact kept_level.trans ih ((parts.exec env _ _).of_ok ends)
  | leaveLoop before ends ih => exact kept_level.trans ih ((parts.exec env _ _).of_ok ends)
  | invoke before ends served ih =>
    exact kept_level.trans (kept_level.trans ih ((parts.exec env _ _).of_ok ends))
      ((parts.invoke env origin depth _ _).of_ok served)

end Evaluator
end Guion
