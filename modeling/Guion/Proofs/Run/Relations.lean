/-
What a computation does to the state, in the few forms that the rules of the
language use.

A `RunRelation` relates two computations that start in the same state. The
rules leave the state alone, make one of the changes that `Effect` and
`Change` list, run one computation after the other, or run one between
entering and leaving a scope, a loop, a stream, a call (`Encloses`) or a
program. `Evaluable` and `Executable` say that a relation holds of these
forms; what holds of a small computation then follows.
-/
import Guion.Run.Program

namespace Guion

/-- The state that a computation ends in, with a result or without. -/
def Run.after (x : Run ε α) (s : State) : State :=
  match x s with
  | .ok _ t => t
  | .error _ t => t

namespace State

/-- The changes that the evaluation of an expression makes itself. -/
inductive Effect : State → State → Prop
  | print {s} (line : String) : Effect s (s.print line)
  | assign {s t name value line} (h : s.assignVariable name value line = .ok t) : Effect s t
  | delete {s t name line value} (h : s.delete name line = .ok (value, t)) : Effect s t
  | identity {s} : Effect s { s with nextIdentity := s.nextIdentity + 1 }

/-- The changes that the execution of a statement makes itself. -/
inductive Change : State → State → Prop
  | effect {s t} (h : Effect s t) : Change s t
  | declare {s t scope type initial line name}
      (h : Evaluator.declareName scope type initial line name s = .ok t) : Change s t
  | define {s t function} (h : Evaluator.defineFunction function s = .ok t) : Change s t
  | bindLoop {s} (name : String) (value : Value) : Change s (s.bindLoopVariable name value)
  /-- What a sub-program defined becomes global. -/
  | merge {s} (own : Entries Value) :
      Change s { s with globals := Entries.override s.globals own }

/-- What is entered before a computation and left behind it, in a state. -/
inductive Encloses : (State → State) → (State → State → State) → State → Prop
  | block {s} : Encloses pushScope (fun _ => popScope) s
  | loop {s} :
      Encloses (fun s => { s with loopDepth := s.loopDepth + 1 })
        (fun _ t => { t with loopDepth := t.loopDepth - 1 }) s
  | stream {s} :
      Encloses (fun s => { s with streams := { s.streams with opened := s.streams.opened + 1 } })
        (fun _ t => { t with streams := { t.streams with released := t.streams.released + 1 } }) s
  | reading {s} :
      Encloses (fun s => { s with readings := { s.readings with opened := s.readings.opened + 1 } })
        (fun _ t => { t with readings := { t.readings with released := t.readings.released + 1 } }) s
  | call {s} (frame : Scope) (h : s.callDepth < maxCallDepth) :
      Encloses (enterCall frame) leaveCall s

end State

/-- A relation between two computations that start in the same state. -/
abbrev RunRelation := ∀ ⦃ε α : Type⦄, State → Run ε α → Run ε α → Prop

namespace RunRelation

/-- Relations that hold of all that the evaluation of an expression does itself. -/
structure Evaluable (L : RunRelation) : Prop where
  quiet : ∀ {ε α : Type} {s : State} {x : Run ε α}, x.after s = s → L s x x
  effect : ∀ {ε α : Type} {s t : State} {a : α} {x : Run ε α}, s.Effect t → x s = .ok a t → L s x x
  bind : ∀ {ε α β : Type} {s : State} {x y : Run ε α} {f g : α → Run ε β}, L s x y →
    (∀ a t, x s = .ok a t → L t (f a) (g a)) → L s (x >>= f) (y >>= g)

/-- Relations that hold of all that the execution of a statement does itself. -/
structure Executable (L : RunRelation) : Prop extends Evaluable L where
  change : ∀ {ε α : Type} {s t : State} {a : α} {x : Run ε α}, s.Change t → x s = .ok a t → L s x x
  mapError : ∀ {ε δ α : Type} {s : State} {x y : Run ε α} (f : ε → δ), L s x y →
    L s (Run.mapError f x) (Run.mapError f y)
  bracket : ∀ {ε α : Type} {s : State} {enter leave} {x y : Run ε α}, State.Encloses enter leave s →
    L (enter s) x y → L s (Run.bracket enter leave x) (Run.bracket enter leave y)
  inContext : ∀ {ε : Type} {s : State} {x y : Run ε Unit} (arguments : List Value),
    L { s with toContext := .initial arguments } x y →
    L s (Run.inContext (.initial arguments) x) (Run.inContext (.initial arguments) y)

/-- Numbers of passes of which the first may only be the smaller one when being
short of passes is related to everything. -/
def Passes (L : RunRelation) (n m : Nat) : Prop :=
  n = m ∨ n ≤ m ∧ ∀ {ε α : Type} (s : State) (y : Run ε α), L s (throw .outOfFuel) y

theorem Passes.succ {L : RunRelation} {n m : Nat} (h : L.Passes (n + 1) m) :
    ∃ k, m = k + 1 ∧ L.Passes n k := by
  obtain rfl | ⟨hle, short⟩ := h
  · exact ⟨n, rfl, .inl rfl⟩
  · exact ⟨m - 1, by omega, .inr ⟨by omega, short⟩⟩

end RunRelation

/-! ## Computations that change nothing -/

namespace Run

@[simp] theorem after_pure (a : α) (s : State) : (pure a : Run ε α).after s = s := rfl

@[simp] theorem after_fail (cause : ε) (s : State) : (fail cause : Run ε α).after s = s := rfl

@[simp] theorem after_throw (halt : Halt ε) (s : State) : (throw halt : Run ε α).after s = s := rfl

@[simp] theorem after_get (s : State) : (get : Run ε State).after s = s := rfl

@[simp] theorem after_ofExcept (r : Except ε α) (s : State) : (ofExcept r).after s = s := by
  cases r <;> rfl

@[simp] theorem after_read (f : State → Except ε α) (s : State) : (read f).after s = s :=
  after_ofExcept (f s) s

theorem bind_ok {x : Run ε α} {f : α → Run ε β} {s t : State} {a : α} (h : x s = .ok a t) :
    (x >>= f) s = f a t := by
  simp only [bind, EStateM.bind, h]

theorem bind_error {x : Run ε α} {f : α → Run ε β} {s t : State} {halt : Halt ε}
    (h : x s = .error halt t) : (x >>= f) s = .error halt t := by
  simp only [bind, EStateM.bind, h]

theorem bind_eq_ok {x : Run ε α} {f : α → Run ε β} {s u : State} {b : β} :
    (x >>= f) s = .ok b u ↔ ∃ a t, x s = .ok a t ∧ f a t = .ok b u := by
  cases h : x s with
  | error halt t => simp [bind_error h]
  | ok a t =>
    rw [bind_ok h]
    constructor
    · intro hf; exact ⟨a, t, rfl, hf⟩
    · rintro ⟨_, _, he, hf⟩; cases he; exact hf

theorem after_ok {x : Run ε α} {s t : State} {a : α} (h : x s = .ok a t) : x.after s = t := by
  rw [after, h]

theorem after_error {x : Run ε α} {s t : State} {halt : Halt ε} (h : x s = .error halt t) :
    x.after s = t := by
  rw [after, h]

theorem after_bind {x : Run ε α} {f : α → Run ε β} {s : State} (hx : x.after s = s)
    (hf : ∀ a, (f a).after s = s) : (x >>= f).after s = s := by
  cases h : x s with
  | error halt t => rw [after_error (bind_error h), ← after_error h, hx]
  | ok a t =>
    obtain rfl : t = s := by rw [← after_ok h, hx]
    rw [after, bind_ok h]
    exact hf a

theorem read_ok {f : State → Except ε α} {s : State} {a : α} (h : f s = .ok a) :
    read f s = .ok a s := by
  show ofExcept (f s) s = _
  rw [h]
  rfl

theorem read_error {f : State → Except ε α} {s : State} {cause : ε} (h : f s = .error cause) :
    read f s = .error (.failure cause) s := by
  show ofExcept (f s) s = _
  rw [h]
  rfl

theorem update_ok {f : State → Except ε State} {s t : State} (h : f s = .ok t) :
    update f s = .ok () t :=
  bind_ok (read_ok h)

theorem update_error {f : State → Except ε State} {s : State} {cause : ε} (h : f s = .error cause) :
    update f s = .error (.failure cause) s :=
  bind_error (read_error h)

theorem bracket_eq_ok {enter : State → State} {leave : State → State → State} {x : Run ε α}
    {s t : State} {a : α} :
    bracket enter leave x s = .ok a t ↔ ∃ u, x (enter s) = .ok a u ∧ leave s u = t := by
  unfold bracket
  cases x (enter s) with
  | error halt u => simp
  | ok b u => simp [and_assoc]

/-- Whether a computation ends with a result that passes a check. -/
def yields (check : α → Bool) (x : Run ε α) (s : State) : Bool :=
  match x s with
  | .ok a _ => check a
  | .error _ _ => false

theorem exists_of_yields {check : α → Bool} {x : Run ε α} {s : State} (h : x.yields check s = true) :
    ∃ a t, x s = .ok a t ∧ check a = true := by
  unfold yields at h
  split at h
  · next a t hr => exact ⟨a, t, hr, h⟩
  · cases h

@[simp] theorem after_findFile (env : Environment) (path : String) (s : State) :
    (findFile env path : Run ε FileAnswer).after s = s := by
  unfold findFile
  cases env.files.find? path <;> rfl

end Run

namespace Environment

theorem after_firstFile (env : Environment) (paths : List String) (s : State) :
    (env.firstFile paths : Run ε (Option String)).after s = s := by
  induction paths with
  | nil => rfl
  | cons path rest ih =>
    refine Run.after_bind (Run.after_findFile env path s) fun answer => ?_
    cases answer.isFile with
    | true => rfl
    | false => exact ih

@[simp] theorem after_locate (env : Environment) (origin : Option String) (requested : String)
    (s : State) : (env.locate origin requested : Run ε (Option String)).after s = s := by
  unfold locate
  split
  · exact env.after_firstFile _ s
  · exact env.after_firstFile _ s

@[simp] theorem after_readProgram (env : Environment) (path : String) (s : State) :
    (env.readProgram path).after s = s := by
  refine Run.after_bind (Run.after_findFile env path s) fun answer => ?_
  cases answer.text <;> rfl

end Environment

@[simp] theorem Evaluator.after_parseProgram (env : Environment) (source : String) (s : State) :
    (Evaluator.parseProgram env source).after s = s := by
  refine Run.after_bind (Run.after_get s) fun t => ?_
  dsimp only
  split <;> rfl

/-! ## Small computations -/

namespace RunRelation

variable {L : RunRelation} {ε α β : Type} {s : State}

theorem Evaluable.pure (h : Evaluable L) (a : α) : L s (pure a : Run ε α) (pure a) := h.quiet rfl

theorem Evaluable.fail (h : Evaluable L) (cause : ε) : L s (Run.fail cause : Run ε α) (Run.fail cause) :=
  h.quiet rfl

theorem Evaluable.ofExcept (h : Evaluable L) (r : Except ε α) : L s (Run.ofExcept r) (Run.ofExcept r) :=
  h.quiet (Run.after_ofExcept r s)

theorem Evaluable.read (h : Evaluable L) (f : State → Except ε α) : L s (Run.read f) (Run.read f) :=
  h.quiet (Run.after_read f s)

/-- Behind a computation that only looks at the state. -/
theorem Evaluable.look (h : Evaluable L) {x : Run ε α} {f g : α → Run ε β} (hx : x.after s = s)
    (hf : ∀ a, L s (f a) (g a)) : L s (x >>= f) (x >>= g) := by
  refine h.bind (h.quiet hx) fun a t ht => ?_
  obtain rfl : t = s := by rw [← Run.after_ok ht, hx]
  exact hf a

theorem Evaluable.get (h : Evaluable L) {f g : State → Run ε α} (hf : L s (f s) (g s)) :
    L s (get >>= f) (get >>= g) := by
  refine h.bind (h.quiet rfl) fun a t ht => ?_
  cases ht
  exact hf

/-- A failure ahead of everything else, under a condition. -/
theorem Evaluable.unless (h : Evaluable L) {c : Prop} [Decidable c] {cause : ε} {f g : Unit → Run ε α}
    (hf : ¬ c → L s (f ()) (g ())) :
    L s (if c then Run.fail cause >>= f else f ()) (if c then Run.fail cause >>= g else g ()) := by
  split
  · exact h.bind (h.fail cause) fun _ _ ht => by cases ht
  · next hc => exact hf hc

/-- A change that may fail. -/
theorem update_of {f : State → Except ε State} (quiet : ∀ {x : Run ε Unit}, x.after s = s → L s x x)
    (change : ∀ {t} {x : Run ε Unit}, f s = .ok t → x s = .ok () t → L s x x) :
    L s (Run.update f) (Run.update f) := by
  cases hf : f s with
  | ok t => exact change hf (Run.update_ok hf)
  | error cause => exact quiet (Run.after_error (Run.update_error hf))

theorem Evaluable.assign (h : Evaluable L) (name : String) (value : Value) (line : Nat) :
    L s (Run.update (·.assignVariable name value line)) (Run.update (·.assignVariable name value line)) :=
  update_of h.quiet fun ht hx => h.effect (.assign ht) hx

theorem Evaluable.print (h : Evaluable L) (line : String) :
    L s (modify (·.print line) : Run ε Unit) (modify (·.print line)) :=
  h.effect (.print line) rfl

end RunRelation

end Guion
