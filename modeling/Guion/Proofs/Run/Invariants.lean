/-
Facts about all runs, each an instance of the rules.

`Kept`: a relation between states that holds across every change and across
everything that is entered and left holds between the state before a run and
the state behind it, however the run ends (`Kept.exec`, `Kept.eval`).

`cutShort`: a computation stops for a reason of its own, or it is another one.
`Run.provided` stops a computation that would fail a test.

`within_eq_of_le`: more depth never changes the answer of a run that ends.

`watched_exec`, `watched_eval`: an evaluator that raises an alarm as soon as
anything starts or ends in a state without some property answers like the
plain one, if the property survives every change and every entry and exit.
So the property holds at every point of the run, not only behind it.
-/
import Guion.Proofs.Run.Rules

namespace Guion

open Evaluator

namespace Run

theorem mapError_ok {x : Run ε α} {f : ε → δ} {s t : State} {a : α} (h : x s = .ok a t) :
    mapError f x s = .ok a t := by
  rw [mapError, h]

theorem mapError_error {x : Run ε α} {f : ε → δ} {s t : State} {halt : Halt ε}
    (h : x s = .error halt t) : mapError f x s = .error (halt.map f) t := by
  rw [mapError, h]

@[simp] theorem after_mapError (x : Run ε α) (f : ε → δ) (s : State) :
    (mapError f x).after s = x.after s := by
  unfold after mapError
  cases x s <;> rfl

@[simp] theorem after_bracket (enter : State → State) (leave : State → State → State) (x : Run ε α)
    (s : State) : (bracket enter leave x).after s = leave s (x.after (enter s)) := by
  unfold after bracket
  cases x (enter s) <;> rfl

@[simp] theorem after_inContext (context : Context) (x : Run ε Unit) (s : State) :
    (inContext context x).after s =
      { x.after { s with toContext := context } with toContext := s.toContext } := by
  unfold after inContext
  cases x { s with toContext := context } <;> rfl

theorem after_bind_ok {x : Run ε α} {f : α → Run ε β} {s t : State} {a : α} (h : x s = .ok a t) :
    (x >>= f).after s = (f a).after t := by
  rw [after, bind_ok h, after]

theorem after_bind_error {x : Run ε α} {f : α → Run ε β} {s t : State} {halt : Halt ε} (h : x s = .error halt t) :
    (x >>= f).after s = t :=
  after_error (bind_error h)

theorem after_bind_pure (x : Run ε α) (f : α → β) (s : State) : (x >>= fun a => pure (f a)).after s = x.after s := by
  cases h : x s with
  | error halt t => rw [after_bind_error h, after_error h]
  | ok a t => rw [after_bind_ok h, after_ok h, after_pure]

/-- A transitive relation across one computation and across the next. -/
theorem after_bind_of (R : State → State → Prop) (trans : ∀ s t u, R s t → R t u → R s u) {s : State}
    {x : Run ε α} {f : α → Run ε β} (hx : R s (x.after s))
    (hf : ∀ a t, x s = .ok a t → R t ((f a).after t)) : R s ((x >>= f).after s) := by
  cases hr : x s with
  | error halt t => rwa [after_bind_error hr, ← after_error hr]
  | ok a t =>
    rw [after_ok hr] at hx
    rw [after_bind_ok hr]
    exact trans _ _ _ hx (hf a t hr)

end Run

/-! ## Relations between the states before and behind -/

namespace State

/-- A relation that holds across everything that a run does. -/
structure Kept (R : State → State → Prop) : Prop where
  refl : ∀ s, R s s
  trans : ∀ {s t u}, R s t → R t u → R s u
  change : ∀ {s t}, Change s t → R s t
  enclose : ∀ {s t enter leave}, Encloses enter leave s → R (enter s) t → R s (leave s t)
  program : ∀ {s t} arguments, R { s with toContext := .initial arguments } t →
    R s { t with toContext := s.toContext }

/-- The relation between the state before a computation and the one behind it. -/
def keeping (R : State → State → Prop) : RunRelation := fun _ _ s x _ => R s (x.after s)

variable {R : State → State → Prop}

/-- A relation that holds across what expressions do is kept by them. -/
theorem keeping_evaluable (refl : ∀ s, R s s) (trans : ∀ {s t u}, R s t → R t u → R s u)
    (effect : ∀ {s t}, Effect s t → R s t) : (keeping R).Evaluable where
  quiet hx := by rw [keeping, hx]; exact refl _
  effect ht hx := by rw [keeping, Run.after_ok hx]; exact effect ht
  bind hx hf := Run.after_bind_of R (fun _ _ _ => trans) hx hf

theorem Kept.executable (h : Kept R) : (keeping R).Executable where
  toEvaluable := keeping_evaluable h.refl h.trans fun ht => h.change (.effect ht)
  change ht hx := by rw [keeping, Run.after_ok hx]; exact h.change ht
  mapError f hx := by rwa [keeping, Run.after_mapError]
  bracket he hx := by rw [keeping, Run.after_bracket]; exact h.enclose he hx
  inContext arguments hx := by rw [keeping, Run.after_inContext]; exact h.program arguments hx

theorem Kept.within (h : Kept R) (n : Nat) : Related (keeping R) (Evaluator.within n) (Evaluator.within n) := by
  induction n with
  | zero => exact ⟨fun _ _ s => h.refl s, fun _ _ s => h.refl s, fun _ _ _ _ s => h.refl s, .inl rfl⟩
  | succ n ih => exact Related.succ h.executable ih (.inl rfl)

end State

/-! ## Runs that are cut short -/

/-- A reason to stop that is no failure of a program. -/
def Halt.outright (stop : Halt Empty) : Halt ε := stop.map Empty.elim

@[simp] theorem Halt.map_outright (stop : Halt Empty) (f : ε → δ) :
    (stop.outright : Halt ε).map f = stop.outright := by
  cases stop with
  | failure cause => cases cause
  | outOfFuel => rfl
  | unread path => rfl

/-- The first computation is cut short, or both give the same answer. -/
def cutShort (stop : Halt Empty) : RunRelation := fun _ _ s x y =>
  (∃ t, x s = .error stop.outright t) ∨ x s = y s

theorem cutShort_executable (stop : Halt Empty) : (cutShort stop).Executable where
  quiet _ := .inr rfl
  effect _ _ := .inr rfl
  change _ _ := .inr rfl
  bind {_ _ _ s x y f g} hx hf := by
    obtain ⟨t, ht⟩ | hxy := hx
    · exact .inl ⟨t, Run.bind_error ht⟩
    · cases hr : x s with
      | error halt t => exact .inr (by rw [Run.bind_error hr, Run.bind_error (hxy ▸ hr)])
      | ok a t =>
        have := hf a t hr
        rwa [cutShort, Run.bind_ok hr, Run.bind_ok (hxy ▸ hr)]
  mapError {_ _ _ s x y} f hx := by
    obtain ⟨t, ht⟩ | hxy := hx
    · exact .inl ⟨t, by rw [Run.mapError_error ht, Halt.map_outright]⟩
    · exact .inr (by rw [Run.mapError, hxy, Run.mapError])
  bracket {_ _ s enter leave x y} _ hx := by
    obtain ⟨t, ht⟩ | hxy := hx
    · exact .inl ⟨leave s t, by rw [Run.bracket, ht]⟩
    · exact .inr (by rw [Run.bracket, hxy, Run.bracket])
  inContext {_ s x y} arguments hx := by
    obtain ⟨t, ht⟩ | hxy := hx
    · exact .inl ⟨_, by rw [Run.inContext, ht]⟩
    · exact .inr (by rw [Run.inContext, hxy, Run.inContext])

/-- The same computation, unless the state that it starts in and the one that it would
end in fail a test: then it stops in the state that it starts in. -/
def Run.provided (test : State → State → Bool) (stop : Halt Empty) (x : Run ε α) : Run ε α := fun s =>
  if test s (x.after s) then x s else .error stop.outright s

theorem cutShort.provided {stop : Halt Empty} {s : State} {x y : Run ε α} (h : cutShort stop s x y)
    (test : State → State → Bool) : cutShort stop s (Run.provided test stop x) y := by
  unfold Run.provided cutShort
  dsimp only
  split
  · exact h
  · exact .inl ⟨s, rfl⟩

namespace Run

variable {test : State → State → Bool} {stop : Halt Empty} {x : Run ε α} {s : State}

theorem provided_eq (passes : test s (x.after s) = true) : Run.provided test stop x s = x s := if_pos passes

theorem provided_eq_error (fails : test s (x.after s) = false) :
    Run.provided test stop x s = .error stop.outright s :=
  if_neg (by rw [fails]; exact Bool.false_ne_true)

/-- A computation that is stopped has done nothing. -/
theorem after_provided (test : State → State → Bool) (stop : Halt Empty) (x : Run ε α) (s : State) :
    (Run.provided test stop x).after s = s ∨
      test s (x.after s) = true ∧ (Run.provided test stop x).after s = x.after s := by
  cases passes : test s (x.after s) with
  | true => exact .inr ⟨rfl, by rw [after, provided_eq passes, after]⟩
  | false => exact .inl (after_error (provided_eq_error passes))

end Run

/-- What is kept across a computation is kept when it is stopped. -/
theorem State.keeping.provided {R : State → State → Prop} {x : Run ε α} {s : State} (refl : R s s)
    (h : keeping R s x x) (test : State → State → Bool) (stop : Halt Empty) :
    keeping R s (Run.provided test stop x) (Run.provided test stop x) := by
  obtain same | ⟨-, same⟩ := Run.after_provided test stop x s
  · rw [keeping, same]; exact refl
  · rw [keeping, same]; exact h

/-! ## The depth that is allowed -/

/-- The first computation runs out of depth, or both give the same answer. -/
def outlasting : RunRelation := fun _ _ s x y => (∃ t, x s = .error .outOfFuel t) ∨ x s = y s

theorem outlasting_executable : outlasting.Executable := cutShort_executable .outOfFuel

theorem Evaluator.within_outlasting {n m : Nat} (h : n ≤ m) : Related outlasting (within n) (within m) := by
  have short : ∀ {ε α : Type} (s : State) (y : Run ε α), outlasting s (throw .outOfFuel) y :=
    fun s _ => .inl ⟨s, rfl⟩
  induction n generalizing m with
  | zero => exact ⟨fun _ _ s => short s _, fun _ _ s => short s _, fun _ _ _ _ s => short s _,
      .inr ⟨Nat.zero_le _, short⟩⟩
  | succ n ih =>
    obtain ⟨k, rfl⟩ : ∃ k, m = k + 1 := ⟨m - 1, by omega⟩
    exact Related.succ outlasting_executable (ih (by omega)) (.inr ⟨by omega, short⟩)

/-- **More depth never changes the answer of a run that ends.** -/
theorem Evaluator.within_eq_of_le {n m : Nat} (h : n ≤ m) (env : Environment) (s : State) :
    (∀ st, (∃ t, (within n).exec env st s = .error .outOfFuel t) ∨
      (within n).exec env st s = (within m).exec env st s) ∧
    ∀ e, (∃ t, (within n).eval env e s = .error .outOfFuel t) ∨
      (within n).eval env e s = (within m).eval env e s :=
  ⟨fun st => (within_outlasting h).exec env st s, fun e => (within_outlasting h).eval env e s⟩

/-! ## Every point of a run -/

/-- The same computation, cut short by an alarm if it starts or ends in a state
without the property. -/
def Run.watch (p : State → Bool) (alarm : (ε : Type) → Halt ε) (x : Run ε α) : Run ε α := fun s =>
  if p s && p (x.after s) then x s else .error (alarm ε) s

namespace Evaluator

/-- The evaluator of the language, with an alarm at every expression, statement
and request that starts or ends in a state without the property. An alarm
ends the whole run: the language catches no failure. -/
def watched (p : State → Bool) (alarm : (ε : Type) → Halt ε) : Nat → Evaluator
  | 0 => exhausted
  | depth + 1 =>
    { passes := depth
      eval := fun env e => Run.watch p alarm ((watched p alarm depth).expression env e)
      exec := fun env st => Run.watch p alarm ((watched p alarm depth).statement env st)
      invoke := fun env origin level request =>
        Run.watch p alarm ((watched p alarm depth).invocation env origin level request) }

end Evaluator

namespace State

/-- A property that survives everything that a run does. -/
structure Lasting (p : State → Bool) : Prop where
  change : ∀ {s t}, Change s t → p s = true → p t = true
  enter : ∀ {s enter leave}, Encloses enter leave s → p s = true → p (enter s) = true
  leave : ∀ {s t enter leave}, Encloses enter leave s → p s = true → p t = true → p (leave s t) = true
  start : ∀ {s} arguments, p s = true → p { s with toContext := .initial arguments } = true
  finish : ∀ {s t}, p s = true → p t = true → p { t with toContext := s.toContext } = true

variable {p : State → Bool}

/-- From a state with the property both computations give the same answer, in a
state with the property. -/
def agreeing (p : State → Bool) : RunRelation := fun _ _ s x y =>
  p s = true → x s = y s ∧ p (x.after s) = true

theorem Lasting.executable (h : Lasting p) : (agreeing p).Executable where
  quiet hx hs := ⟨rfl, by rwa [hx]⟩
  effect ht hx hs := ⟨rfl, by rw [Run.after_ok hx]; exact h.change (.effect ht) hs⟩
  change ht hx hs := ⟨rfl, by rw [Run.after_ok hx]; exact h.change ht hs⟩
  bind {_ _ _ s x y f g} hx hf hs := by
    obtain ⟨hxy, hp⟩ := hx hs
    cases hr : x s with
    | error halt t =>
      rw [Run.bind_error hr, Run.bind_error (hxy ▸ hr), Run.after_bind_error hr]
      exact ⟨rfl, Run.after_error hr ▸ hp⟩
    | ok a t =>
      have := hf a t hr (Run.after_ok hr ▸ hp)
      rwa [Run.after, Run.bind_ok hr, Run.bind_ok (hxy ▸ hr)]
  mapError f hx hs := by
    rw [Run.after_mapError, Run.mapError, (hx hs).1, Run.mapError]
    exact ⟨rfl, (hx hs).2⟩
  bracket he hx hs := by
    have := hx (h.enter he hs)
    rw [Run.after_bracket, Run.bracket, this.1, Run.bracket]
    exact ⟨rfl, h.leave he hs this.2⟩
  inContext arguments hx hs := by
    have := hx (h.start arguments hs)
    rw [Run.after_inContext, Run.inContext, this.1, Run.inContext]
    exact ⟨rfl, h.finish hs this.2⟩

theorem agreeing.watch {x y : Run ε α} {s : State} (alarm : (ε : Type) → Halt ε)
    (h : agreeing p s x y) : agreeing p s x (Run.watch p alarm y) := by
  intro hs
  obtain ⟨hxy, hp⟩ := h hs
  have hy : p (y.after s) = true := by rwa [Run.after, ← hxy]
  exact ⟨by simp [Run.watch, hs, hy, hxy], hp⟩

theorem Lasting.watched (h : Lasting p) (alarm : (ε : Type) → Halt ε) (n : Nat) :
    Related (agreeing p) (within n) (Evaluator.watched p alarm n) := by
  induction n with
  | zero => exact ⟨fun _ _ _ hs => ⟨rfl, hs⟩, fun _ _ _ hs => ⟨rfl, hs⟩, fun _ _ _ _ _ hs => ⟨rfl, hs⟩, .inl rfl⟩
  | succ n ih =>
    exact {
      eval := fun env e s => .watch alarm
        ((ih.evalRelated h.executable env).expression h.executable.toEvaluable e s)
      exec := fun env st s => .watch alarm (ih.statement h.executable env st s)
      invoke := fun env origin depth request s =>
        .watch alarm (ih.invocation h.executable env origin depth request s)
      passes := .inl rfl }

end State
end Guion
