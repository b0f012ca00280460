/-
External iterators and the loops that own them.

A loop over a stream or over a file opens an iterator before its first pass
and releases it when it ends, and nothing else opens or releases any. So
behind a statement or an expression as many iterators were released as were
opened, however it ended (`kept_returned`): by exhaustion, `rompe`, `regresa`,
a request, a pull that failed or an error in the body.

An iterator that is open before a statement stays open until its own loop
ends: with an alarm that goes off as soon as one of them is released, the
evaluator answers the same (`along_holding`). Since the count that is open
falls again inside every bracket, that is no property that each change keeps
by itself; it follows from what is kept between two points (`Kept.watched`).
-/
import Guion.Proofs.Run.Invariants
import Guion.Proofs.Run.Writes

namespace Guion

open Evaluator

/-- Between two counts as many iterators were released as were opened. -/
def Tally.Returned (before after : Tally) : Prop :=
  ∃ count, after.opened = before.opened + count ∧ after.released = before.released + count

/-- Between two counts one iterator was opened and released, and others were as well. -/
def Tally.ReturnedOne (before after : Tally) : Prop :=
  ∃ count, after.opened = before.opened + 1 + count ∧ after.released = before.released + 1 + count

theorem Tally.Returned.refl (tally : Tally) : tally.Returned tally := ⟨0, rfl, rfl⟩

theorem Tally.Returned.trans {a b c : Tally} (first : a.Returned b) (second : b.Returned c) : a.Returned c := by
  obtain ⟨n, ho, hr⟩ := first
  obtain ⟨m, ho', hr'⟩ := second
  exact ⟨n + m, by omega, by omega⟩

/-- An iterator that is opened before and released behind. -/
theorem Tally.Returned.one {a b : Tally} (h : Tally.Returned ⟨a.opened + 1, a.released⟩ b) :
    a.ReturnedOne ⟨b.opened, b.released + 1⟩ := by
  obtain ⟨n, ho, hr⟩ := h
  exact ⟨n, ho, by simp only [hr]; omega⟩

theorem Tally.ReturnedOne.returned {a b : Tally} (h : a.ReturnedOne b) : a.Returned b := by
  obtain ⟨n, ho, hr⟩ := h
  exact ⟨n + 1, by omega, by omega⟩

namespace State

/-- As many iterators of each sort were released since as were opened. -/
structure Returned (s t : State) : Prop where
  streams : s.streams.Returned t.streams
  readings : s.readings.Returned t.readings

theorem Returned.of_eq {s t : State} (streams : t.streams = s.streams) (readings : t.readings = s.readings) :
    s.Returned t :=
  ⟨streams ▸ .refl _, readings ▸ .refl _⟩

theorem Effect.returned {s t : State} (h : Effect s t) : s.Returned t := by
  cases h with
  | print line => exact .of_eq rfl rfl
  | identity => exact .of_eq rfl rfl
  | delete h => rw [delete_eq_ok h]; exact .of_eq rfl rfl
  | assign h => cases assigned_of_assignVariable h <;> exact .of_eq rfl rfl

theorem Change.returned {s t : State} (h : Change s t) : s.Returned t := by
  cases h with
  | effect h => exact h.returned
  | define h => rw [defineFunction_eq_ok h]; exact .of_eq rfl rfl
  | merge own => exact .of_eq rfl rfl
  | bindLoop name value =>
    obtain ⟨scopes, he, -⟩ := bindLoopVariable_eq name value s
    rw [he]
    exact .of_eq rfl rfl
  | declare h =>
    cases declared_of_declareName h with
    | «local» value =>
      obtain ⟨scopes, he, -⟩ := defineLocal_eq _ value s
      rw [he]
      exact .of_eq rfl rfl
    | @«variable» _ stored registry =>
      obtain ⟨scopes, he, -⟩ := defineLocal_eq _ stored { s with registry := registry }
      rw [he]
      exact .of_eq rfl rfl
    | global value => exact .of_eq rfl rfl
    | constant value => exact .of_eq rfl rfl

theorem kept_returned : Kept Returned where
  refl _ := .of_eq rfl rfl
  trans first second := ⟨first.streams.trans second.streams, first.readings.trans second.readings⟩
  change h := h.returned
  enclose {s t _ _} he h := by
    cases he with
    | block =>
      show s.Returned t.popScope
      unfold popScope
      split <;> exact ⟨h.streams, h.readings⟩
    | loop | call => exact ⟨h.streams, h.readings⟩
    | stream => exact ⟨h.streams.one.returned, h.readings⟩
    | reading => exact ⟨h.streams, h.readings.one.returned⟩
  program _ h := ⟨h.streams, h.readings⟩

/-! ## Between any two points -/

/-- From a state with the property both computations give the same answer, in a
state that the relation holds to. -/
def following (p : State → Bool) (R : State → State → Prop) : RunRelation := fun _ _ s x y =>
  p s = true → x s = y s ∧ R s (x.after s)

/-- A property that passes along a relation and into everything that is entered. -/
structure Along (R : State → State → Prop) (p : State → Bool) : Prop where
  along : ∀ {s t}, R s t → p s = true → p t = true
  enter : ∀ {s enter leave}, Encloses enter leave s → p s = true → p (enter s) = true
  start : ∀ {s} arguments, p s = true → p { s with toContext := .initial arguments } = true

variable {R : State → State → Prop} {p : State → Bool}

theorem Kept.following (h : Kept R) (hp : Along R p) : (State.following p R).Executable where
  quiet hx _ := ⟨rfl, by rw [hx]; exact h.refl _⟩
  effect ht hx _ := ⟨rfl, by rw [Run.after_ok hx]; exact h.change (.effect ht)⟩
  change ht hx _ := ⟨rfl, by rw [Run.after_ok hx]; exact h.change ht⟩
  bind {_ _ _ s x y f g} hx hf hs := by
    obtain ⟨hxy, hR⟩ := hx hs
    cases hr : x s with
    | error halt t =>
      rw [Run.bind_error hr, Run.bind_error (hxy ▸ hr), Run.after_bind_error hr]
      exact ⟨rfl, Run.after_error hr ▸ hR⟩
    | ok a t =>
      rw [Run.after_ok hr] at hR
      obtain ⟨hfg, hR'⟩ := hf a t hr (hp.along hR hs)
      rw [Run.after, Run.bind_ok hr, Run.bind_ok (hxy ▸ hr)]
      exact ⟨hfg, h.trans hR hR'⟩
  mapError f hx hs := by
    rw [Run.after_mapError, Run.mapError, (hx hs).1, Run.mapError]
    exact ⟨rfl, (hx hs).2⟩
  bracket he hx hs := by
    have inside := hx (hp.enter he hs)
    rw [Run.after_bracket, Run.bracket, inside.1, Run.bracket]
    exact ⟨rfl, h.enclose he inside.2⟩
  inContext arguments hx hs := by
    have inside := hx (hp.start arguments hs)
    rw [Run.after_inContext, Run.inContext, inside.1, Run.inContext]
    exact ⟨rfl, h.program arguments inside.2⟩

theorem following.watch (hp : Along R p) {x y : Run ε α} {s : State} (alarm : (ε : Type) → Halt ε)
    (h : following p R s x y) : following p R s x (Run.watch p alarm y) := by
  intro hs
  obtain ⟨hxy, hR⟩ := h hs
  have hy : p (y.after s) = true := by
    rw [Run.after, ← hxy]
    exact hp.along hR hs
  exact ⟨by simp [Run.watch, hs, hy, hxy], hR⟩

/-- The alarm for a property that a kept relation passes on never goes off. -/
theorem Kept.watched (h : Kept R) (hp : Along R p) (alarm : (ε : Type) → Halt ε) (n : Nat) :
    Related (State.following p R) (Evaluator.within n) (Evaluator.watched p alarm n) := by
  induction n with
  | zero =>
    exact ⟨fun _ _ s _ => ⟨rfl, h.refl s⟩, fun _ _ s _ => ⟨rfl, h.refl s⟩, fun _ _ _ _ s _ => ⟨rfl, h.refl s⟩,
      .inl rfl⟩
  | succ n ih =>
    have rules := h.following hp
    exact {
      eval := fun env e s => .watch hp alarm ((ih.evalRelated rules env).expression rules.toEvaluable e s)
      exec := fun env st s => .watch hp alarm (ih.statement rules env st s)
      invoke := fun env origin depth request s => .watch hp alarm (ih.invocation rules env origin depth request s)
      passes := .inl rfl }

/-- Of each sort at least so many iterators are open. -/
def holding (streams readings : Nat) (s : State) : Bool :=
  s.streams.released + streams ≤ s.streams.opened && s.readings.released + readings ≤ s.readings.opened

theorem along_holding (streams readings : Nat) : Along Returned (holding streams readings) where
  along {s t} h hs := by
    obtain ⟨⟨n, ho, hr⟩, ⟨m, ho', hr'⟩⟩ := h
    simp only [holding, Bool.and_eq_true, decide_eq_true_eq] at hs ⊢
    omega
  enter {s _ _} he hs := by
    simp only [holding, Bool.and_eq_true, decide_eq_true_eq] at hs ⊢
    cases he with
    | block | loop | call => exact hs
    | stream => exact ⟨Nat.le_succ_of_le hs.1, hs.2⟩
    | reading => exact ⟨hs.1, Nat.le_succ_of_le hs.2⟩
  start _ hs := hs

end State

/-! ## Loops over objects -/

namespace Evaluator

/-- What runs do with iterators: a loop over an object releases the one that it
opened, if it could open one, and everything else leaves as many released as
opened. -/
structure Releases (ev : Evaluator) (env : Environment) : Prop where
  exec : ∀ st (s : State), s.Returned ((ev.exec env st).after s)
  eval : ∀ e (s : State), s.Returned ((ev.eval env e).after s)
  invoke : ∀ origin depth request (s : State), s.Returned ((ev.invoke env origin depth request).after s)
  /-- An object without an iterator is the only item of its loop. -/
  single : ∀ name body line whole description s,
    ev.forObject env name body line whole description .single s = ev.forItems env name body [whole] s
  refused : ∀ name body line whole description reason s,
    ev.forObject env name body line whole description (.refused reason) s =
      .error (.failure (.inputOutput description reason line)) s
  unopened : ∀ name body line whole description path e s, env.files.find? path = some (.error e) →
    ev.forObject env name body line whole description (.file path) s =
      .error (.failure (.inputOutput description e.message line)) s
  stream : ∀ name body line whole description pull (s : State),
    s.streams.ReturnedOne ((ev.forObject env name body line whole description (.stream pull)).after s).streams
  file : ∀ name body line whole description path node (s : State), env.files.find? path = some (.ok node) →
    s.readings.ReturnedOne ((ev.forObject env name body line whole description (.file path)).after s).readings

theorem withStream_returned {loop : Eval α} {s : State}
    (h : ∀ t : State, t.Returned (loop.after t)) : s.streams.ReturnedOne ((withStream loop).after s).streams := by
  rw [withStream, Run.after_bracket]
  exact (h _).streams.one

theorem withReading_returned {loop : Eval α} {s : State}
    (h : ∀ t : State, t.Returned (loop.after t)) : s.readings.ReturnedOne ((withReading loop).after s).readings := by
  rw [withReading, Run.after_bracket]
  exact (h _).readings.one

/-- **Every iterator is released once**, by the loop that opened it and however
that loop ends. No iterator that was open before a statement or an expression
is released at any point inside: an alarm for that never goes off. -/
theorem within_releases (n : Nat) (env : Environment) :
    (within n).Releases env ∧ ∀ streams readings alarm s, s.holding streams readings = true →
      (∀ st, (within n).exec env st s = (watched (State.holding streams readings) alarm n).exec env st s) ∧
      ∀ e, (within n).eval env e s = (watched (State.holding streams readings) alarm n).eval env e s := by
  have kept := State.kept_returned.within n
  have rules := State.kept_returned.executable
  refine ⟨⟨fun st s => kept.exec env st s, fun e s => kept.eval env e s,
    fun origin depth request s => kept.invoke env origin depth request s, fun _ _ _ _ _ _ => rfl,
    fun _ _ _ _ _ _ _ => rfl, ?_, ?_, ?_⟩, fun streams readings alarm s hs => ?_⟩
  · intro name body line whole description path e s hf
    show (Run.findFile env path >>= _) s = _
    rw [Run.findFile, hf]
    rfl
  · intro name body line whole description pull s
    exact withStream_returned fun t => kept.pullItems rules env name body pull _ kept.passes 0 t
  · intro name body line whole description path node s hf
    show Tally.ReturnedOne _ ((Run.findFile env path >>= _).after s).readings
    rw [Run.findFile, hf]
    exact withReading_returned fun t => kept.drawItems rules env name body _ _ t
  · have watch := State.kept_returned.watched (State.along_holding streams readings) alarm n
    exact ⟨fun st => (watch.exec env st s hs).1, fun e => (watch.eval env e s hs).1⟩

/-- A loop over a stream of two items that is left in its first pass. -/
theorem within_releases_break :
    let items (given : Nat) : Pull := if given < 2 then .item .null else .finished
    let s : State := { scopes := [[("fuente", .object 0 "contador" "<contador 2>" (.stream items))]] }
    let loop : Statement := .forLoop "x" (.collection (.variable "fuente" 1)) (.mk [.breakLoop 2] 2) 1
    s.holding 0 0 = true ∧
      (within 5).exec {} loop s = (watched (State.holding 0 0) (fun _ => .outOfFuel) 5).exec {} loop s ∧
      (((within 5).exec {} loop).after s).streams = ⟨1, 1⟩ :=
  ⟨by decide, ((within_releases 5 {}).2 0 0 _ _ (by decide)).1 _, by rfl⟩

end Evaluator
end Guion
