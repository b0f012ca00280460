/-
Runs under guard and runs under observation.

The language leaves five things unchecked that decide what its values are
like: what a literal says, how far the counter of a range runs, what is written
inside the value of a variable, how long a `texto` is that a function gives
back, and what complex number is read from a text. A `Guard` is a test for each
of them. A text is read as a complex number by a conversion, or when it is
written to a complex variable: by a declaration, an assignment, or a call with
typed parameters. So that test is on what a conversion gives, on the state
behind a write and on the frame that a function starts with.
`guarded` is the evaluator of the language that stops before it does anything
that fails a test. Until it stops it is the evaluator of the language
(`guarded_cutShort`), and with a guard that tests nothing it always is
(`guarded_idle`).

`observed` raises an alarm besides when an expression, a statement or a request
starts or ends in a state that does not meet a standard, or an expression has
a value that does not. So a guarded run that no observer stops has every value
meet the standard, wherever it is held and whenever it is computed.
-/
import Guion.Proofs.Run.Standard

namespace Guion

open Evaluator

/-! ## What is written inside a variable -/

/-- The variable that an assignment writes inside. -/
def AssignTarget.inside? : AssignTarget → Option String
  | .path root _ => some root
  | _ => none

/-- The variable that the evaluation of an expression writes inside itself: the one
that `agregar` extends a list in. -/
def Expr.inside? : Expr → Option String
  | .call name arguments _ =>
    if Library.isMutator (Text.lowerString name) then
      (arguments.head?.bind Expr.place?).bind AssignTarget.inside?
    else none
  | .methodCall receiver method _ _ =>
    if Library.isMutator method then receiver.place?.bind AssignTarget.inside? else none
  | _ => none

/-- The variable that a statement writes inside itself. -/
def Statement.inside? : Statement → Option String
  | .assignment target _ _ => target.inside?
  | .call name arguments line => (Expr.call name arguments line).inside?
  | _ => none

/-! ## What is read as a complex number -/

/-- Whether the evaluation of an expression writes to a variable itself: `agregar`
does. -/
def Expr.writes : Expr → Bool
  | .call name _ _ => Library.isMutator (Text.lowerString name)
  | .methodCall _ method _ _ => Library.isMutator method
  | _ => false

/-- Whether a statement writes to variables itself. -/
def Statement.writes : Statement → Bool
  | .declaration .. | .assignment .. => true
  | .call name arguments line => (Expr.call name arguments line).writes
  | _ => false

/-- Whether an expression is a conversion. -/
def Expr.converts : Expr → Bool
  | .call name _ _ => Library.converts (Text.lowerString name)
  | .cast typeName _ _ _ => Library.converts (Text.lowerString ("convertir_" ++ typeName))
  | _ => false

/-! ## Guards -/

/-- Tests on what is evaluated: the literals, the increments of ranges, the
matrices in a variable that was written inside, a `texto` that a call gives, and
the complex numbers that are read. -/
structure Guard where
  literal : Value → Bool := fun _ => true
  increment : Expr → Bool := fun _ => true
  matrix : List (List Value) → Bool := fun _ => true
  text : String → Bool := fun _ => true
  complex : Complex → Bool := fun _ => true

namespace Guard

/-- The matrices in a variable pass the test. -/
def clears (guard : Guard) (root : Option String) (s : State) : Bool :=
  root.all fun name => (s.lookup name).all (Value.passes (Value.onMatrix guard.matrix))

/-- The complex numbers in a value pass the test. -/
def reads (guard : Guard) (v : Value) : Bool := v.passes (Value.onComplex guard.complex)

/-- The complex numbers that a state holds pass the test. -/
def sound (guard : Guard) (s : State) : Bool := s.values.all guard.reads

/-- The complex numbers in the frame of a function pass the test. -/
def enters (guard : Guard) (s : State) : Bool := !s.inFunction || s.toContext.frame.values.all guard.reads

/-- The test on an expression itself. -/
def admitsExpr (guard : Guard) : Expr → Bool
  | .literal value _ => guard.literal value
  | _ => true

/-- The test on a statement itself. -/
def admitsStatement (guard : Guard) : Statement → Bool
  | .forLoop _ (.range _ _ (some step)) _ _ => guard.increment step
  | _ => true

/-- The test on a `texto` that an expression gives. -/
def acceptsText (guard : Guard) : Expr → Value → Bool
  | .call .., .text s | .methodCall .., .text s => guard.text s
  | _, _ => true

/-- The tests on the value of an expression. -/
def accepts (guard : Guard) (e : Expr) (v : Value) : Bool :=
  guard.acceptsText e v && (!e.converts || guard.reads v)

/-- The tests on the state behind a write, if there is one: on the variable that was
written inside, and on all values. -/
def settles (guard : Guard) (root : Option String) (writes : Bool) (s : State) : Bool :=
  guard.clears root s && (!writes || guard.sound s)

/-- The tests on the evaluation of an expression, in the state behind it. -/
def expression (guard : Guard) (e : Expr) (s : State) : Bool :=
  guard.admitsExpr e && guard.settles e.inside? e.writes s

/-- The tests on the execution of a statement, in the state behind it. -/
def statement (guard : Guard) (st : Statement) (s : State) : Bool :=
  guard.admitsStatement st && guard.settles st.inside? st.writes s

end Guard

/-- The same computation, unless its result would fail a test: then it stops in the
state that it starts in. -/
def Run.accepting (test : α → Bool) (stop : Halt Empty) (x : Run ε α) : Run ε α := fun s =>
  match x s with
  | .ok a t => if test a then .ok a t else .error stop.outright s
  | .error halt t => .error halt t

open Classical in
/-- The same computation, cut short by an alarm if it starts or ends in a state that
does not meet the standard, or has a result without a property. -/
noncomputable def Run.observe (std : Standard) (post : α → Prop) (alarm : Halt Empty) (x : Run ε α) : Run ε α :=
  fun s =>
    if s.Meets std ∧ (x.after s).Meets std ∧ ∀ a t, x s = .ok a t → post a then x s
    else .error alarm.outright s

theorem cutShort.accepting {stop : Halt Empty} {s : State} {x y : Run ε α} (h : cutShort stop s x y)
    (test : α → Bool) : cutShort stop s (Run.accepting test stop x) y := by
  obtain ⟨t, ht⟩ | same := h
  · exact .inl ⟨t, by rw [Run.accepting, ht]⟩
  · unfold cutShort Run.accepting
    cases hx : x s with
    | error halt t => exact .inr (hx.symm.trans same)
    | ok a t =>
      dsimp only
      split
      · exact .inr (hx.symm.trans same)
      · exact .inl ⟨s, rfl⟩

namespace Evaluator

/-- The evaluator of the language under guard. -/
def guarded (guard : Guard) (stop : Halt Empty) : Nat → Evaluator
  | 0 => exhausted
  | depth + 1 =>
    { passes := depth
      eval := fun env e =>
        Run.provided (fun _ t => guard.expression e t) stop
          (Run.accepting (guard.accepts e) stop ((guarded guard stop depth).expression env e))
      exec := fun env st =>
        Run.provided (fun s _ => guard.enters s) stop
          (Run.provided (fun _ t => guard.statement st t) stop ((guarded guard stop depth).statement env st))
      invoke := fun env origin level request =>
        (guarded guard stop depth).invocation env origin level request }

/-- The evaluator of the language under guard and under observation: every
expression, statement and request, and the value of every expression. No program
can catch an alarm, so a run under guard that goes the same whatever the alarm is
has raised none. -/
noncomputable def observed (std : Standard) (guard : Guard) (stop alarm : Halt Empty) : Nat → Evaluator
  | 0 => exhausted
  | depth + 1 =>
    { passes := depth
      eval := fun env e =>
        Run.observe std (Value.Meets std true) alarm
          (Run.provided (fun _ t => guard.expression e t) stop
            (Run.accepting (guard.accepts e) stop ((observed std guard stop alarm depth).expression env e)))
      exec := fun env st =>
        Run.provided (fun s _ => guard.enters s) stop
          (Run.observe std (fun _ => True) alarm
            (Run.provided (fun _ t => guard.statement st t) stop
              ((observed std guard stop alarm depth).statement env st)))
      invoke := fun env origin level request =>
        Run.observe std (fun _ => True) alarm
          ((observed std guard stop alarm depth).invocation env origin level request) }

/-! ## Guarded runs and plain ones -/

/-- **A guarded run is stopped by its guard, or is a run of the language.** -/
theorem guarded_cutShort (guard : Guard) (stop : Halt Empty) (n : Nat) :
    Related (cutShort stop) (guarded guard stop n) (within n) := by
  have rules := cutShort_executable stop
  induction n with
  | zero => exact ⟨fun _ _ _ => .inr rfl, fun _ _ _ => .inr rfl, fun _ _ _ _ _ => .inr rfl, .inl rfl⟩
  | succ n ih =>
    exact {
      eval := fun env e s => (((ih.evalRelated rules env).expression rules.toEvaluable e s).accepting
        (guard.accepts e)).provided fun _ t => guard.expression e t
      exec := fun env st s => ((ih.statement rules env st s).provided fun _ t => guard.statement st t).provided
        fun s _ => guard.enters s
      invoke := fun env origin depth request s => ih.invocation rules env origin depth request s
      passes := .inl rfl }

/-- A guard without tests never stops a run. -/
theorem guarded_idle (stop : Halt Empty) (n : Nat) : guarded {} stop n = within n := by
  have reads : ∀ v, Guard.reads {} v = true := Value.passes_of_forall fun v => by cases v <;> rfl
  have settled : ∀ root writes s, Guard.settles {} root writes s = true := by
    intro root writes s
    have cleared : Guard.clears {} root s = true := by
      have passes : ∀ v : Value, v.passes (Value.onMatrix fun _ => true) = true :=
        Value.passes_of_forall fun v => by cases v <;> rfl
      cases root with
      | none => rfl
      | some name => cases hl : s.lookup name <;> simp [Guard.clears, hl, passes]
    simp [Guard.settles, cleared, Guard.sound, reads]
  have expression : ∀ e s, Guard.expression {} e s = true := by
    intro e s
    rw [Guard.expression, settled, Bool.and_true]
    cases e <;> rfl
  have statement : ∀ st s, Guard.statement {} st s = true := by
    intro st s
    rw [Guard.statement, settled, Bool.and_true]
    unfold Guard.admitsStatement
    split <;> rfl
  have accepts : ∀ e v, Guard.accepts {} e v = true := by
    intro e v
    rw [Guard.accepts, reads, Bool.or_true, Bool.and_true]
    unfold Guard.acceptsText
    split <;> rfl
  have enters : ∀ s, Guard.enters {} s = true := by
    intro s
    simp [Guard.enters, reads]
  have accepting : ∀ {ε α : Type} {test : α → Bool} {x : Run ε α}, (∀ a, test a = true) →
      Run.accepting test stop x = x := by
    intro ε α test x h
    funext s
    unfold Run.accepting
    cases x s with
    | ok a t => exact if_pos (h a)
    | error halt t => rfl
  have provided : ∀ {ε α : Type} {test : State → State → Bool} {x : Run ε α}, (∀ s t, test s t = true) →
      Run.provided test stop x = x := by
    intro ε α test x h
    funext s
    exact Run.provided_eq (h s _)
  induction n with
  | zero => rfl
  | succ n ih =>
    simp only [guarded, within, ih, accepting (accepts _), provided (fun _ => expression _),
      provided (fun _ => statement _), provided (fun s _ => enters s)]

end Evaluator

/-! ## Constant expressions -/

/-- Expressions that have one value, whatever the state. -/
def Expr.isConstant : Expr → Bool
  | .literal _ _ => true
  | .unary _ operand _ => operand.isConstant
  | .binary left _ right _ => left.isConstant && right.isConstant
  | _ => false

namespace Run

/-- From whatever states, all results are the same. -/
def Settled (x : Run ε α) : Prop := ∀ ⦃s t u w : State⦄ ⦃a b : α⦄, x s = .ok a u → x t = .ok b w → a = b

theorem Settled.pure (a : α) : (pure a : Run ε α).Settled := fun _ _ _ _ _ _ h h' => by cases h; cases h'; rfl

theorem Settled.ofExcept (r : Except ε α) : (Run.ofExcept r).Settled := fun _ _ _ _ _ _ h h' => by
  cases r with
  | ok a => cases h; cases h'; rfl
  | error cause => cases h

theorem Settled.bind {x : Run ε α} {f : α → Run ε β} (hx : x.Settled) (hf : ∀ a, (f a).Settled) :
    (x >>= f).Settled := by
  intro s t u w b b' h h'
  obtain ⟨a, _, ha, h⟩ := bind_eq_ok.mp h
  obtain ⟨a', _, ha', h'⟩ := bind_eq_ok.mp h'
  obtain rfl := hx ha ha'
  exact hf a h h'

theorem Settled.provided {x : Run ε α} (hx : x.Settled) (test : State → State → Bool) (stop : Halt Empty) :
    (Run.provided test stop x).Settled := by
  have proceeds : ∀ {s u : State} {a : α}, Run.provided test stop x s = .ok a u → x s = .ok a u := by
    intro s u a h
    unfold Run.provided at h
    split at h
    · exact h
    · cases h
  exact fun _ _ _ _ _ _ h h' => hx (proceeds h) (proceeds h')

theorem Settled.accepting {x : Run ε α} (hx : x.Settled) (test : α → Bool) (stop : Halt Empty) :
    (Run.accepting test stop x).Settled := by
  have proceeds : ∀ {s u : State} {a : α}, Run.accepting test stop x s = .ok a u → x s = .ok a u := by
    intro s u a h
    unfold Run.accepting at h
    cases hx : x s with
    | error halt t => rw [hx] at h; cases h
    | ok b t =>
      rw [hx] at h
      dsimp only at h
      split at h
      · exact h
      · cases h
  exact fun _ _ _ _ _ _ h h' => hx (proceeds h) (proceeds h')

end Run

/-- **A constant expression has the same value in every state.** -/
theorem Evaluator.guarded_settled (guard : Guard) (stop : Halt Empty) (n : Nat) (env : Environment) {e : Expr}
    (h : e.isConstant = true) : ((guarded guard stop n).eval env e).Settled := by
  induction n generalizing e with
  | zero => exact fun _ _ _ _ _ _ h => nomatch h
  | succ n ih =>
    suffices whole : ((guarded guard stop n).expression env e).Settled from
      (whole.accepting _ stop).provided _ stop
    cases e with
    | literal value line => exact .pure value
    | unary op operand line => exact .bind (ih (e := operand) h) fun v => .ofExcept _
    | binary left op right line =>
      obtain ⟨hl, hr⟩ := Bool.and_eq_true_iff.mp h
      refine .bind (ih hl) fun a => ?_
      have shortCircuit : ∀ decides : Bool, Run.Settled (do
          let decided ← Run.ofExcept (Operator.booleanOf line a)
          if decided == decides then return Value.boolean decided
          let b ← (guarded guard stop n).eval env right
          return Value.boolean (← Run.ofExcept (Operator.booleanOf line b)) : Eval Value) := by
        refine fun decides => .bind (.ofExcept _) fun decided => ?_
        split
        · exact .pure _
        · exact .bind (ih hr) fun b => .bind (.ofExcept _) fun _ => .pure _
      cases op with
      | and => exact shortCircuit _
      | or => exact shortCircuit _
      | _ => exact .bind (ih hr) fun b => .ofExcept _
    | _ => cases h

end Guion
