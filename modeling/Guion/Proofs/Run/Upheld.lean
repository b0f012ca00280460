/-
Expressions keep what is asked of values.

`Run.Upheld` is a triple for two computations from one state: they give the
same answer, in a state that is good, and a result with a property. `Upholds`
says of two evaluators that their parts are such, for states that meet a
standard and programs with spelled literals. One lemma for each function of
the rules carries this over to the whole.

The rules give back what they read, or what an operation or a constructor made
of it. Only a change of case may give a value that does not meet the standard,
a `texto`, and only a conversion a complex number (`Standard.Returns`). And only
a write may leave a state that does not: with matrices in a variable that fail
the test of the guard, or with a complex number that does (`Guard.Leaves`). Each
is the last thing that its expression or statement does, so a guard that looks at
the value and at the state behind comes in time. The frame of a call is the one
thing that is made in between; there the guard looks before the first statement
(`Upholds.stops`).
-/
import Guion.Proofs.Run.Guarded

namespace Guion

open Evaluator

/-! ## Triples -/

namespace Run

/-- From a state both computations give the same answer; the state behind is good
and the result has a property. -/
structure Upheld (good : State → Prop) (post : α → Prop) (s : State) (x y : Run ε α) : Prop where
  same : x s = y s
  state : good (x.after s)
  result : ∀ a t, x s = .ok a t → post a

namespace Upheld

variable {good good' : State → Prop} {post : α → Prop} {post' : β → Prop} {s : State}

theorem quiet {x : Run ε α} (hx : x.after s = s) (hs : good s) (result : ∀ a t, x s = .ok a t → post a) :
    Upheld good post s x x :=
  ⟨rfl, by rwa [hx], result⟩

theorem pure {a : α} (hs : good s) (ha : post a) : Upheld good post s (pure a : Run ε α) (pure a) :=
  quiet rfl hs fun _ _ h => by cases h; exact ha

theorem fail {cause : ε} (hs : good s) : Upheld good post s (Run.fail cause) (Run.fail cause) :=
  quiet rfl hs fun _ _ h => nomatch h

/-- Two computations that halt alike have no result. -/
theorem halted {x y : Run ε α} {halt : Halt ε} {t : State} (hx : x s = .error halt t) (hy : y s = .error halt t)
    (ht : good t) : Upheld good post s x y :=
  ⟨hx.trans hy.symm, after_error hx ▸ ht, fun a u hu => by rw [hx] at hu; cases hu⟩

theorem ofExcept {r : Except ε α} (hs : good s) (h : ∀ a, r = .ok a → post a) :
    Upheld good post s (Run.ofExcept r) (Run.ofExcept r) := by
  refine quiet (after_ofExcept r s) hs fun a t ht => ?_
  cases r with
  | ok b => cases ht; exact h a rfl
  | error cause => cases ht

theorem read {f : State → Except ε α} (hs : good s) (h : ∀ a, f s = .ok a → post a) :
    Upheld good post s (Run.read f) (Run.read f) := by
  refine quiet (after_read f s) hs fun a t ht => ?_
  cases hf : f s with
  | ok b => rw [read_ok hf] at ht; cases ht; exact h a hf
  | error cause => rw [read_error hf] at ht; cases ht

theorem mono {x y : Run ε α} (h : Upheld good post s x y) (weaken : ∀ t, good t → good' t) :
    Upheld good' post s x y :=
  ⟨h.same, weaken _ h.state, h.result⟩

theorem weaken {post' : α → Prop} {x y : Run ε α} (h : Upheld good post s x y) (weaken : ∀ a, post a → post' a) :
    Upheld good post' s x y :=
  ⟨h.same, h.state, fun a t ht => weaken a (h.result a t ht)⟩

theorem bind_of {x y : Run ε α} {f g : α → Run ε β} (weaken : ∀ t, good t → good' t)
    (hx : Upheld good post s x y)
    (hf : ∀ a t, good t → post a → x s = .ok a t → Upheld good' post' t (f a) (g a)) :
    Upheld good' post' s (x >>= f) (y >>= g) := by
  cases hr : x s with
  | error halt t =>
    refine ⟨by rw [bind_error hr, bind_error (hx.same ▸ hr)], ?_, fun b u h => ?_⟩
    · rw [after_bind_error hr, ← after_error hr]
      exact weaken _ hx.state
    · rw [bind_error hr] at h; cases h
  | ok a t =>
    have rest := hf a t (after_ok hr ▸ hx.state) (hx.result a t hr) hr
    refine ⟨by rw [bind_ok hr, bind_ok (hx.same ▸ hr), rest.same], ?_, fun b u h => ?_⟩
    · rw [after, bind_ok hr]
      exact rest.state
    · rw [bind_ok hr] at h; exact rest.result b u h

theorem bind {x y : Run ε α} {f g : α → Run ε β} (hx : Upheld good post s x y)
    (hf : ∀ a t, good t → post a → x s = .ok a t → Upheld good post' t (f a) (g a)) :
    Upheld good post' s (x >>= f) (y >>= g) :=
  bind_of (fun _ h => h) hx hf

/-- Behind a computation that only looks at the state. -/
theorem look {x : Run ε α} {f g : α → Run ε β} (hs : good s) (hx : x.after s = s)
    (hf : ∀ a, x s = .ok a s → Upheld good post' s (f a) (g a)) : Upheld good post' s (x >>= f) (x >>= g) := by
  have kept : Upheld good (fun a => x s = .ok a s) s x x := by
    refine quiet hx hs fun a t ht => ?_
    obtain rfl : t = s := by rw [← after_ok ht, hx]
    exact ht
  refine bind kept fun a t _ ha ht => ?_
  obtain rfl : t = s := by rw [← after_ok ht, hx]
  exact hf a ha

theorem get {f g : State → Run ε α} (h : Upheld good post s (f s) (g s)) :
    Upheld good post s (get >>= f) (get >>= g) :=
  ⟨h.same, h.state, h.result⟩

/-- A failure ahead of everything else, under a condition. -/
theorem «unless» {c : Prop} [Decidable c] {cause : ε} {f g : Unit → Run ε α} (hs : good s)
    (hf : ¬ c → Upheld good post s (f ()) (g ())) :
    Upheld good post s (if c then Run.fail cause >>= f else f ()) (if c then Run.fail cause >>= g else g ()) := by
  split
  · exact ⟨rfl, hs, fun _ _ h => nomatch h⟩
  · next hc => exact hf hc

theorem update {f : State → Except ε State} (hs : good s) (h : ∀ t, f s = .ok t → good t) :
    Upheld good (fun _ => True) s (Run.update f) (Run.update f) := by
  refine ⟨rfl, ?_, fun _ _ _ => trivial⟩
  cases hf : f s with
  | ok t => rw [after_ok (update_ok hf)]; exact h t hf
  | error cause => rw [after_error (update_error hf)]; exact hs

theorem modify {f : State → State} (h : good (f s)) :
    Upheld good (fun _ => True) s (modify f : Run ε Unit) (modify f) :=
  ⟨rfl, h, fun _ _ _ => trivial⟩

theorem mapError {x y : Run ε α} (f : ε → δ) (h : Upheld good post s x y) :
    Upheld good post s (Run.mapError f x) (Run.mapError f y) := by
  refine ⟨by rw [Run.mapError, h.same, Run.mapError], by rw [after_mapError]; exact h.state, fun a t ht => ?_⟩
  cases hr : x s with
  | error halt u => rw [mapError_error hr] at ht; cases ht
  | ok b u => rw [mapError_ok hr] at ht; cases ht; exact h.result a t hr

theorem bracket {enter : State → State} {leave : State → State → State} {x y : Run ε α}
    (h : Upheld good post (enter s) x y) (left : ∀ t, good t → good' (leave s t)) :
    Upheld good' post s (Run.bracket enter leave x) (Run.bracket enter leave y) := by
  refine ⟨by rw [Run.bracket, h.same, Run.bracket], by rw [after_bracket]; exact left _ h.state, fun a t ht => ?_⟩
  obtain ⟨u, hx, -⟩ := bracket_eq_ok.mp ht
  exact h.result a u hx

end Upheld
end Run

/-! ## Standards that runs keep -/

/-- A standard that is closed under all that the language does without a check.
Either every number meets it, or only finite ones do. -/
structure Standard.Lasting (std : Standard) : Prop extends std.Closed where
  numbers : (∀ x, std.real x) ∨ ∀ x, std.real x → x.isFinite = true

namespace Guard

/-- A guard whose tests catch what may not meet a standard. -/
structure Suits (guard : Guard) (std : Standard) : Prop where
  literal : ∀ {tokens value}, Parse.Spells tokens value → guard.literal value = true → value.Meets std true
  increment : ∀ {step}, guard.increment step = true → (∀ x, std.real x) ∨ step.isConstant = true
  matrix : ∀ rows, guard.matrix rows = true → std.matrix rows
  text : std.Recased ∨ ∀ s, guard.text s = true → std.text s
  complex : ∀ z, guard.complex z = true → std.complex z

/-- The state meets the standard if what is behind a write passes the tests. -/
def Leaves (guard : Guard) (std : Standard) (root : Option String) (writes : Bool) (s : State) : Prop :=
  guard.settles root writes s = true → s.Meets std

variable {guard : Guard} {std : Standard}

/-- What a call gives meets the standard if the guard accepts its text. -/
theorem Suits.given (suits : guard.Suits std) {cased : Bool} {v : Value} (h : std.Gives cased v)
    (accepted : ∀ s, v = .text s → guard.text s = true) : v.Meets std true := by
  obtain meets | ⟨-, unknown, s, rfl⟩ := h
  · exact meets
  · exact .text (suits.text.resolve_left unknown s (accepted s rfl))

/-- What a call or a conversion gives meets the standard if the guard accepts its text
and its complex number. -/
theorem Suits.returned (suits : guard.Suits std) {key : String} {v : Value} (h : std.Returns key v)
    (accepted : ∀ s, v = .text s → guard.text s = true)
    (read : Library.converts key = true → guard.reads v = true) : v.Meets std true := by
  obtain given | ⟨converts, z, rfl⟩ := h
  · exact suits.given given accepted
  · exact .complex (suits.complex z (read converts))

variable {root : Option String} {writes : Bool} {s t : State}

theorem leaves_of_meets (h : s.Meets std) : guard.Leaves std root writes s := fun _ => h

/-- What is assigned to a variable: a whole value, or one that was written inside the
variable. -/
theorem leaves_of_assign (lasting : std.Lasting) (suits : guard.Suits std) (hs : s.Meets std) {name : String}
    {strict : Bool} {v : Value} (hv : v.Meets std strict) (inside : strict = false → root = some name) {line : Nat}
    (assigned : s.assignVariable name v line = .ok t) : guard.Leaves std root true t := by
  intro settled
  obtain ⟨cleared, sound⟩ := Bool.and_eq_true_iff.mp settled
  obtain ⟨stored, owes, fine, found | ht⟩ := State.assigned_stored lasting.toClosed hs hv assigned
  · have read : guard.reads stored = true := List.all_eq_true.mp sound stored (State.lookup_mem_values found)
    have meets : stored.Meets std strict := owes guard.complex suits.complex read
    cases strict with
    | true => exact fine meets
    | false =>
      obtain rfl := inside rfl
      have passes : stored.passes (Value.onMatrix guard.matrix) = true := by simpa [clears, found] using cleared
      exact fine (meets.of_passes suits.matrix passes)
  · exact ht

/-- What is declared. -/
theorem leaves_of_owes (suits : guard.Suits std) (h : s.Hold std (Value.Owes std true)) :
    guard.Leaves std root true s :=
  fun settled => h.of_passes suits.complex (Bool.and_eq_true_iff.mp settled).2

end Guard

/-- What a flow carries meets the standard. -/
def Flow.Meets (std : Standard) : Flow → Prop
  | .result v => v.Meets std true
  | .invoke request => ∀ v ∈ request.arguments, v.Meets std true
  | _ => True

namespace Evaluator

/-- Two evaluators that handle the parts of a program alike and keep a standard. In a
frame that fails the test of the guard they stop. -/
structure Upholds (std : Standard) (guard : Guard) (ev ev' : Evaluator) : Prop where
  eval : ∀ {env e s}, e.Spelled → s.Meets std →
    Run.Upheld (State.Meets std) (Value.Meets std true) s (ev.eval env e) (ev'.eval env e)
  exec : ∀ {env st s}, st.Spelled → s.Meets std →
    Run.Upheld (State.Meets std) (Flow.Meets std) s (ev.exec env st) (ev'.exec env st)
  invoke : ∀ {env origin depth request s}, (∀ v ∈ request.arguments, v.Meets std true) → s.Meets std →
    Run.Upheld (State.Meets std) (fun _ => True) s (ev.invoke env origin depth request)
      (ev'.invoke env origin depth request)
  stops : ∀ env st {s}, guard.enters s = false →
    ∃ halt, ev.exec env st s = .error halt s ∧ ev'.exec env st s = .error halt s
  passes : ev.passes = ev'.passes
  settled : ∀ {env e}, e.isConstant = true → (ev.eval env e).Settled

section Rules

variable {std : Standard} {guard : Guard} {ev ev' : Evaluator} {env : Environment}
  (parts : Upholds std guard ev ev')

namespace Upholds

/-! ## Calls of functions -/

section Parts
include parts

theorem evalAll {es : List Expr} (he : ∀ e ∈ es, e.Spelled) {s : State} (hs : s.Meets std) :
    Run.Upheld (State.Meets std) (fun vs => ∀ v ∈ vs, v.Meets std true) s (ev.evalAll env es)
      (ev'.evalAll env es) := by
  induction es generalizing s with
  | nil => exact .pure hs fun _ h => nomatch h
  | cons e rest ih =>
    obtain ⟨here, he⟩ := List.forall_mem_cons.mp he
    exact .bind (parts.eval here hs) fun v t ht hv _ => .bind (ih he ht) fun vs u hu hvs _ =>
      .pure hu (List.forall_mem_cons.mpr ⟨hv, hvs⟩)

theorem evalEntries {pairs : List (Expr × Expr)} (hk : ∀ pair ∈ pairs, pair.1.Spelled)
    (hv : ∀ pair ∈ pairs, pair.2.Spelled) {entries : Entries Value} (he : entries.Meet std) {s : State}
    (hs : s.Meets std) :
    Run.Upheld (State.Meets std) (Entries.Meet std) s (ev.evalEntries env entries pairs)
      (ev'.evalEntries env entries pairs) := by
  induction pairs generalizing entries s with
  | nil => exact .pure hs he
  | cons pair rest ih =>
    obtain ⟨key, hk⟩ := List.forall_mem_cons.mp hk
    obtain ⟨value, hv⟩ := List.forall_mem_cons.mp hv
    exact .bind (parts.eval key hs) fun k t ht _ _ => .bind (parts.eval value ht) fun v u hu hv' _ =>
      ih hk hv (he.insert _ hv') hu

theorem evalKeys {steps : List Accessor} (hk : ∀ step ∈ steps, step.Spelled) {s : State} (hs : s.Meets std) :
    Run.Upheld (State.Meets std) (fun _ => True) s (ev.evalKeys env steps) (ev'.evalKeys env steps) := by
  induction steps generalizing s with
  | nil => exact .pure hs trivial
  | cons step rest ih =>
    obtain ⟨here, later⟩ := List.forall_mem_cons.mp hk
    cases step with
    | index e =>
      exact .bind (parts.eval here hs) fun v t ht _ _ => .bind (ih later ht) fun keys u hu _ _ => .pure hu trivial
    | field name => exact .bind (ih later hs) fun keys u hu _ _ => .pure hu trivial

theorem initializer {e : Expr} (he : e.Spelled) {s : State} (hs : s.Meets std) :
    Run.Upheld (State.Meets std) (Value.Meets std true) s (ev.initializer env e) (ev'.initializer env e) := by
  cases e with
  | «variable» name line =>
    refine .get ?_
    cases found : s.lookup name with
    | some v => exact .pure hs (hs.lookup found)
    | none => exact .pure hs (.simple rfl)
  | _ => exact parts.eval he hs

theorem condition {e : Expr} (he : e.Spelled) {s : State} (hs : s.Meets std) :
    Run.Upheld (State.Meets std) (fun _ => True) s (ev.condition env e) (ev'.condition env e) := by
  refine .bind (parts.eval he hs) fun v t ht _ _ => ?_
  cases v.toBoolean with
  | ok b => exact .pure ht trivial
  | error _ => exact .fail ht

variable (lasting : std.Lasting) (suits : guard.Suits std)
include lasting suits

/-- An assignment keeps the standard if what it leaves passes the tests. -/
theorem assign {target : AssignTarget} (ht : target.Spelled) {value : Value} (hv : value.Meets std true)
    {line : Nat} {s : State} (hs : s.Meets std) :
    Run.Upheld (guard.Leaves std target.inside? true) (fun _ => True) s (ev.assign env target value line)
      (ev'.assign env target value line) := by
  have named : ∀ {name : String} {t : State}, t.Meets std →
      Run.Upheld (guard.Leaves std none true) (fun _ => True) t
        (Run.update (·.assignVariable name value line)) (Run.update (·.assignVariable name value line)) :=
    fun ht => .update (Guard.leaves_of_meets ht) fun u hu => Guard.leaves_of_assign lasting suits ht hv nofun hu
  cases ht with
  | @«variable» name => exact named hs
  | @path root steps hk =>
    refine .get (.unless (Guard.leaves_of_meets hs) fun _ => ?_)
    cases found : s.lookup root with
    | none => exact .fail (Guard.leaves_of_meets hs)
    | some current =>
      have loose : current.Meets std false := (hs.lookup found).loose
      refine .bind_of (fun _ => Guard.leaves_of_meets) (parts.evalKeys hk hs) fun keys t ht _ _ => ?_
      have storing : Run.Upheld (State.Meets std) (Value.Meets std false) t
          (Run.ofExcept (Operator.storeAt current keys value line) : Eval Value)
          (Run.ofExcept (Operator.storeAt current keys value line)) :=
        .ofExcept ht fun stored h => Operator.storeAt_meets hv.loose keys loose h
      exact .bind_of (fun _ => Guard.leaves_of_meets) storing fun stored u hu hstored _ =>
        .update (Guard.leaves_of_meets hu) fun w hw =>
          Guard.leaves_of_assign lasting suits hu hstored (fun _ => rfl) hw
  | @deref pointer hp =>
    refine .bind_of (fun _ => Guard.leaves_of_meets) (parts.eval hp hs) fun v t ht _ _ => ?_
    cases v with
    | namedPointer name => exact named ht
    | _ => exact .fail (Guard.leaves_of_meets ht)

theorem writeBack {place : Option AssignTarget} (hp : ∀ target ∈ place, target.Spelled) {result : Value}
    (hr : result.Meets std true) {line : Nat} {s : State} (hs : s.Meets std) :
    Run.Upheld (guard.Leaves std (place.bind AssignTarget.inside?) true) (fun _ => True) s
      (ev.writeBack env place result line) (ev'.writeBack env place result line) := by
  cases place with
  | none => exact .pure (Guard.leaves_of_meets hs) trivial
  | some target => exact parts.assign lasting suits (hp target rfl) hr hs

omit suits

omit parts in
theorem callBuiltin {builtin : Builtin} {name : String} {arguments : List Value}
    (ha : ∀ v ∈ arguments, v.Meets std true) {line : Nat} {s : State} (hs : s.Meets std) :
    Run.Upheld (State.Meets std)
      (fun v => std.Gives builtin.recases v ∨ builtin.converts = true ∧ ∃ z, v = .complex z) s
      (callBuiltin env builtin name arguments line) (callBuiltin env builtin name arguments line) := by
  unfold Evaluator.callBuiltin
  split
  · exact .ofExcept hs fun v h => .inl (Library.apply_gives lasting.toClosed ha h)
  · exact .bind (.modify (hs.print _)) fun _ t ht _ _ => .pure ht (.inl (.inl (.simple rfl)))
  · exact .look hs (Run.after_ofExcept _ s) fun wanted _ => .get (.pure hs (.inl (.inl (.simple rfl))))
  · refine .look hs (Run.after_ofExcept _ s) fun wanted _ => ?_
    cases deleted : s.delete wanted line with
    | error cause =>
      have failed := Run.bind_error (f := fun x : Value × State => do set x.2; return x.1)
        (Run.read_error (f := (·.delete wanted line)) deleted)
      exact ⟨rfl, by rw [Run.after_error failed]; exact hs, fun a t ht => nomatch failed.symm.trans ht⟩
    | ok found =>
      obtain ⟨hv, ht⟩ := hs.delete deleted
      have done := Run.bind_ok (f := fun x : Value × State => do set x.2; return x.1)
        (Run.read_ok (f := (·.delete wanted line)) deleted)
      exact ⟨rfl, by rw [Run.after_ok done]; exact ht, fun a t h => by cases done.symm.trans h; exact .inl (.inl hv)⟩
  · refine .look hs (Run.after_ofExcept _ s) fun path _ => ?_
    unfold openFile
    refine .look hs (Run.after_findFile env path s) fun answer _ => ?_
    cases answer with
    | error e => exact .fail hs
    | ok node =>
      cases node with
      | directory => exact .fail hs
      | file bytes =>
        refine ⟨rfl, ⟨{ hs.world with }, hs.context⟩, fun v t h => ?_⟩
        cases h
        exact .inl (.inl (.object fun pull n v hc => nomatch hc))
  · refine .read hs fun v h => ?_
    have made := Registry.construct_meets hs.world.constructors (by simpa using ha) (Except.mapError_eq_ok.mp h)
    exact made.imp .inl fun complex => ⟨rfl, complex⟩
  · exact .fail hs

omit lasting in
theorem serve {request : Invocation} (hr : ∀ v ∈ request.arguments, v.Meets std true) {s : State}
    (hs : s.Meets std) :
    Run.Upheld (State.Meets std) (Flow.Meets std) s (ev.serve env request) (ev'.serve env request) := by
  unfold Evaluator.serve
  cases env.invoker with
  | none => exact .pure hs hr
  | recorder => exact .bind (.modify (hs.print _)) fun _ t ht _ _ => .pure ht trivial
  | refuser => exact .fail hs
  | programs origin depth => exact .bind (.mapError _ (parts.invoke hr hs)) fun _ t ht _ _ => .pure ht trivial

omit lasting in
theorem statements {sts : List Statement} (hst : ∀ st ∈ sts, st.Spelled) {s : State} (hs : s.Meets std) :
    Run.Upheld (State.Meets std) (Flow.Meets std) s (ev.statements env sts) (ev'.statements env sts) := by
  induction sts generalizing s with
  | nil => exact .pure hs trivial
  | cons st rest ih =>
    obtain ⟨here, hst⟩ := List.forall_mem_cons.mp hst
    refine .bind (parts.exec here hs) fun flow t ht hflow _ => ?_
    cases flow with
    | proceed => exact ih hst ht
    | leaveLoop => exact .pure ht trivial
    | result v => exact .pure ht hflow
    | invoke request =>
      refine .bind (parts.serve hflow ht) fun served u hu hserved _ => ?_
      cases served with
      | proceed => exact ih hst hu
      | _ => exact .pure hu hserved

omit lasting in
/-- In a frame that fails the test the body of a function does nothing. -/
theorem statements_stopped {s : State} (fails : guard.enters s = false) (sts : List Statement) :
    Run.Upheld (· = s) (Flow.Meets std) s (ev.statements env sts) (ev'.statements env sts) := by
  cases sts with
  | nil => exact .pure rfl trivial
  | cons st rest =>
    obtain ⟨halt, here, there⟩ := parts.stops env st fails
    exact .halted (Run.bind_error here) (Run.bind_error there) rfl

include suits

/-- A call of a function of the program. If its frame passes the test, it meets the
standard, and so does the result. -/
theorem callDefined {name : String} {function : FunctionDef} {arguments : List Value}
    (ha : ∀ v ∈ arguments, v.Meets std true) {line : Nat} {s : State} (hs : s.Meets std)
    (defined : Entries.get? name s.functions = some function) :
    Run.Upheld (State.Meets std) (Value.Meets std true) s (ev.callDefined env function arguments line)
      (ev'.callDefined env function arguments line) := by
  have body : function.body.Spelled := hs.context.functions _ (Entries.mem_of_get? defined)
  refine .get (.unless hs fun shallow => .unless hs fun _ => ?_)
  refine .bind (.ofExcept hs fun frame h => Registry.bindParams_owes hs.world.constructors ha .nil h)
    fun frame t ht hframe h => ?_
  obtain rfl : t = s := by rw [← Run.after_ok h, Run.after_ofExcept]
  have called : Run.Upheld (fun u => (State.leaveCall t u).Meets std) (Flow.Meets std) (State.enterCall frame t)
      (ev.statements env function.body.statements) (ev'.statements env function.body.statements) := by
    cases enters : guard.enters (State.enterCall frame t) with
    | false =>
      refine (parts.statements_stopped enters _).mono fun u hu => ?_
      subst hu
      exact ⟨ht.world, { ht.context with }⟩
    | true =>
      have read : ∀ v ∈ frame.values, guard.reads v = true := List.all_eq_true.mp enters
      have meets : frame.Meet std := hframe.mono fun e he owes =>
        owes guard.complex suits.complex (read e.2 (List.mem_map_of_mem he))
      have entered : (State.enterCall frame t).Meets std :=
        ⟨ht.world, { ht.context with scopes := List.forall_mem_singleton.mpr meets }⟩
      exact (parts.statements body entered).mono fun u hu => ht.leave (.call frame (Nat.lt_of_not_le shallow)) hu
  refine .bind (.bracket called fun u hu => hu) fun flow u hu hflow _ => ?_
  cases flow with
  | result v => exact .ofExcept hu fun w hw => ReturnKind.convert_meets lasting.toClosed hflow hw
  | invoke _ => exact .fail hu
  | _ => exact .pure hu (.simple rfl)

theorem callNamed {name : String} {arguments : List Value} (ha : ∀ v ∈ arguments, v.Meets std true) {line : Nat}
    {s : State} (hs : s.Meets std) :
    Run.Upheld (State.Meets std) (fun result => ∀ v ∈ result, std.Returns (Text.lowerString name) v) s
      (ev.callNamed env name arguments line) (ev'.callNamed env name arguments line) := by
  refine .get ?_
  cases defined : Entries.get? name s.functions with
  | some function =>
    exact .bind (parts.callDefined lasting suits ha hs defined) fun v t ht hv _ =>
      .pure ht (by simpa using .inl (.inl hv))
  | none =>
    unfold Standard.Returns Library.recases Library.converts
    cases Entries.get? (Text.lowerString name) Library.table with
    | none => exact .pure hs (by simp)
    | some builtin =>
      dsimp only
      split
      · exact .bind (callBuiltin lasting ha hs) fun v t ht hv _ => .pure ht (by simpa using hv)
      · exact .fail hs

theorem callKnown {name : String} {arguments : List Value} (ha : ∀ v ∈ arguments, v.Meets std true) {line : Nat}
    {unknown : RuntimeError} {s : State} (hs : s.Meets std) :
    Run.Upheld (State.Meets std) (std.Returns (Text.lowerString name)) s
      (ev.callKnown env name arguments line unknown)
      (ev'.callKnown env name arguments line unknown) := by
  refine .bind (parts.callNamed lasting suits ha hs) fun result t ht hr _ => ?_
  cases result with
  | some v => exact .pure ht (hr v rfl)
  | none => exact .fail ht

/-- A call as it is written. -/
theorem call {name : String} {arguments : List Expr} (ha : ∀ e ∈ arguments, e.Spelled) {line : Nat}
    {unknown : RuntimeError} {s : State} (hs : s.Meets std) :
    Run.Upheld (guard.Leaves std (Expr.call name arguments line).inside? (Expr.call name arguments line).writes)
      (std.Returns (Text.lowerString name)) s (ev.call env name arguments line unknown)
      (ev'.call env name arguments line unknown) := by
  refine .bind_of (fun _ => Guard.leaves_of_meets) (parts.evalAll ha hs) fun values t ht hvalues _ =>
    .bind_of (fun _ => Guard.leaves_of_meets) (parts.callKnown lasting suits hvalues ht) fun result u hu hr _ => ?_
  dsimp only
  split
  · next mutator =>
    have places : ∀ target ∈ arguments.head?.bind Expr.place?, target.Spelled := by
      intro target h
      obtain ⟨e, he, hp⟩ := Option.bind_eq_some_iff.mp h
      exact (ha e (List.mem_of_head? he)).place? hp
    have meets := (hr.gives (Library.converts_mutator mutator)).meets (Library.recases_mutator mutator)
    rw [Expr.inside?, if_pos mutator, show (Expr.call name arguments line).writes = true from mutator]
    exact .bind (parts.writeBack lasting suits places meets hu) fun _ w hw _ _ => .pure hw hr
  · exact .pure (Guard.leaves_of_meets hu) hr

omit parts lasting suits in
/-- A method writes back to the place of its receiver, or to a whole variable. -/
theorem methodPlace?_eq (receiver : Expr) (v : Value) :
    methodPlace? receiver v = receiver.place? ∨ ∃ name, methodPlace? receiver v = some (.variable name) := by
  cases v with
  | namedPointer name => exact .inr ⟨name, rfl⟩
  | _ => exact .inl rfl

/-- A call of a method. -/
theorem callMethod {receiver : Expr} (hreceiver : receiver.Spelled) {method : String} {arguments : List Expr}
    (ha : ∀ e ∈ arguments, e.Spelled) {line : Nat} {s : State} (hs : s.Meets std) :
    Run.Upheld (guard.Leaves std (Expr.methodCall receiver method arguments line).inside?
        (Expr.methodCall receiver method arguments line).writes) (fun v => ∃ cased, std.Gives cased v) s
      (ev.callMethod env receiver method arguments line) (ev'.callMethod env receiver method arguments line) := by
  refine .bind_of (fun _ => Guard.leaves_of_meets) (parts.eval hreceiver hs) fun v t ht hv _ => ?_
  have followed : Run.Upheld (State.Meets std) (Value.Meets std true) t
      (Run.read (·.follow v line) : Eval Value) (Run.read (·.follow v line)) := .read ht fun _ h => ht.follow hv h
  refine .bind_of (fun _ => Guard.leaves_of_meets) followed fun target u hu htarget _ =>
    .bind_of (fun _ => Guard.leaves_of_meets) (parts.evalAll ha hu) fun values w hw hvalues _ =>
    .bind_of (fun _ => Guard.leaves_of_meets)
      (parts.callKnown lasting suits (List.forall_mem_cons.mpr ⟨htarget, hvalues⟩) hw) fun result x hx hr _ => ?_
  have hresult := hr.gives (Library.converts_method target.typeName method)
  dsimp only
  split
  · next mutator =>
    have meets := hresult.meets (Library.recases_method mutator)
    rw [Expr.inside?, if_pos mutator,
      show (Expr.methodCall receiver method arguments line).writes = true from mutator]
    obtain same | ⟨name, whole⟩ := methodPlace?_eq receiver v
    · rw [same]
      exact .bind (parts.writeBack lasting suits (fun _ => hreceiver.place?) meets hx) fun _ y hy _ _ =>
        .pure hy ⟨_, hresult⟩
    · rw [whole]
      have spelled : ∀ target ∈ some (AssignTarget.variable name), target.Spelled :=
        fun _ h => by cases h; exact .variable
      have weaken : ∀ u, guard.Leaves std none true u →
          guard.Leaves std (receiver.place?.bind AssignTarget.inside?) true u :=
        fun u leaves settled => leaves (Bool.and_eq_true_iff.mpr ⟨rfl, (Bool.and_eq_true_iff.mp settled).2⟩)
      exact .bind_of weaken (parts.writeBack lasting suits spelled meets hx) fun _ y hy _ _ =>
        .pure (weaken y hy) ⟨_, hresult⟩
  · exact .pure (Guard.leaves_of_meets hx) ⟨_, hresult⟩

/-! ## Expressions -/

omit suits

theorem evalBinary {left right : Expr} (hl : left.Spelled) (hr : right.Spelled) {op : BinaryOperator} {line : Nat}
    {s : State} (hs : s.Meets std) :
    Run.Upheld (State.Meets std) (Value.Meets std true) s (ev.evalBinary env left op right line)
      (ev'.evalBinary env left op right line) := by
  refine .bind (parts.eval hl hs) fun a t ht ha _ => ?_
  have shortCircuit : ∀ decides : Bool, Run.Upheld (State.Meets std) (Value.Meets std true) t
      (do
        let decided ← Run.ofExcept (Operator.booleanOf line a)
        if decided == decides then return Value.boolean decided
        let b ← ev.eval env right
        return Value.boolean (← Run.ofExcept (Operator.booleanOf line b)))
      (do
        let decided ← Run.ofExcept (Operator.booleanOf line a)
        if decided == decides then return Value.boolean decided
        let b ← ev'.eval env right
        return Value.boolean (← Run.ofExcept (Operator.booleanOf line b))) := by
    intro decides
    refine .look ht (Run.after_ofExcept _ t) fun decided _ => ?_
    split
    · exact .pure ht (.simple rfl)
    · exact .bind (parts.eval hr ht) fun b u hu _ _ => .look hu (Run.after_ofExcept _ u) fun _ _ =>
        .pure hu (.simple rfl)
  cases op with
  | and => exact shortCircuit _
  | or => exact shortCircuit _
  | _ => exact .bind (parts.eval hr ht) fun b u hu hb _ =>
      .ofExcept hu fun v hv => Operator.binary_meets lasting.toClosed ha hb hv

omit lasting in
theorem evalReference {operand : Expr} (ho : operand.Spelled) {line : Nat} {s : State} (hs : s.Meets std) :
    Run.Upheld (State.Meets std) (Value.Meets std true) s (ev.evalReference env operand line)
      (ev'.evalReference env operand line) := by
  cases operand with
  | «variable» name _ =>
    refine .get ?_
    cases s.lookup name with
    | some _ => exact .pure hs (.simple rfl)
    | none => exact .fail hs
  | _ => exact .bind (parts.eval ho hs) fun v t ht hv _ => .pure ht (.valuePointer hv)

include suits

theorem evalCast {typeName : String} {pointer : Bool} {operand : Expr} (ho : operand.Spelled) {line : Nat} {s : State}
    (hs : s.Meets std) :
    Run.Upheld (State.Meets std)
      (fun v => guard.accepts (.cast typeName pointer operand line) v = true → v.Meets std true) s
      (ev.evalCast env typeName pointer operand line) (ev'.evalCast env typeName pointer operand line) := by
  -- What a conversion gives is no text in another case, so only its complex numbers matter.
  have converted : ∀ {v : Value}, std.Returns (Text.lowerString ("convertir_" ++ typeName)) v →
      (Library.converts (Text.lowerString ("convertir_" ++ typeName)) = true → guard.reads v = true) →
      v.Meets std true := by
    intro v returned read
    obtain given | ⟨converts, z, rfl⟩ := returned
    · exact given.meets (Library.recases_conversion typeName)
    · exact .complex (suits.complex z (read converts))
  have accepted : ∀ {v : Value}, guard.accepts (.cast typeName pointer operand line) v = true →
      Library.converts (Text.lowerString ("convertir_" ++ typeName)) = true → guard.reads v = true := by
    intro v accepts converts
    have read := (Bool.and_eq_true_iff.mp accepts).2
    rwa [Expr.converts, converts, Bool.not_true, Bool.false_or] at read
  refine .bind (parts.eval ho hs) fun v t ht hv _ => ?_
  cases pointer with
  | true =>
    exact .bind (.read ht fun _ h => ht.follow hv h) fun target u hu htarget _ =>
      .bind (parts.callKnown lasting suits (by simpa using htarget) hu) fun w x hx hw _ =>
        .pure hx fun accepts => .valuePointer (converted hw (accepted accepts))
  | false =>
    exact (parts.callKnown lasting suits (by simpa using hv) ht).weaken fun w hw accepts =>
      converted hw (accepted accepts)

/-- **The evaluation of an expression keeps the standard**, if its literal, what it
writes and its value pass the tests. -/
theorem expression {e : Expr} (he : e.Spelled) (admitted : guard.admitsExpr e = true) {s : State}
    (hs : s.Meets std) :
    Run.Upheld (guard.Leaves std e.inside? e.writes) (fun v => guard.accepts e v = true → v.Meets std true) s
      (ev.expression env e) (ev'.expression env e) := by
  have whole : ∀ {x y : Eval Value} {root writes} {accepted : Value → Prop},
      Run.Upheld (State.Meets std) (Value.Meets std true) s x y →
      Run.Upheld (guard.Leaves std root writes) (fun v => accepted v → v.Meets std true) s x y :=
    fun h => (h.mono fun _ => Guard.leaves_of_meets).weaken fun _ meets _ => meets
  cases he with
  | literal spells => exact whole (.pure hs (suits.literal spells admitted))
  | @«variable» name line =>
    refine whole (.get ?_)
    cases found : s.lookup name with
    | some v => exact .pure hs (hs.lookup found)
    | none => exact .fail hs
  | unary ho =>
    exact whole (.bind (parts.eval ho hs) fun v t ht hv _ => .ofExcept ht fun w hw =>
      Operator.unary_meets lasting.toClosed hv hw)
  | binary hl hr => exact whole (parts.evalBinary lasting hl hr hs)
  | call ha =>
    refine (parts.call lasting suits ha hs).weaken fun v returned accepted => ?_
    obtain ⟨text, read⟩ := Bool.and_eq_true_iff.mp accepted
    refine suits.returned returned (fun s h => ?_) fun converts => ?_
    · subst h; exact text
    · rwa [Expr.converts, converts, Bool.not_true, Bool.false_or] at read
  | methodCall hr ha =>
    refine (parts.callMethod lasting suits hr ha hs).weaken fun v given accepted => ?_
    obtain ⟨cased, given⟩ := given
    obtain ⟨text, -⟩ := Bool.and_eq_true_iff.mp accepted
    exact suits.given given fun s h => by subst h; exact text
  | index ht hi =>
    exact whole (.bind (parts.eval ht hs) fun v t ht hv _ => .bind (parts.eval hi ht) fun i u hu _ _ =>
      .bind (.read hu fun _ h => hu.follow hv h) fun container w hw hc _ =>
      .ofExcept hw fun _ h => Operator.indexValue_meets hc h)
  | field ht =>
    exact whole (.bind (parts.eval ht hs) fun v t ht hv _ =>
      .bind (.read ht fun _ h => ht.follow hv h) fun container w hw hc _ =>
      .ofExcept hw fun _ h => Operator.fieldValue_meets hc h)
  | reference ho => exact whole (parts.evalReference ho hs)
  | deref ho =>
    exact whole (.bind (parts.eval ho hs) fun v t ht hv _ => .read ht fun _ h => ht.deref hv h)
  | cast ho => exact (parts.evalCast lasting suits ho hs).mono fun _ => Guard.leaves_of_meets
  | list hes => exact whole (.bind (parts.evalAll hes hs) fun vs t ht hvs _ => .pure ht (.list hvs))
  | dictionary hk hv =>
    exact whole (.bind (parts.evalEntries hk hv .nil hs) fun entries t ht hentries _ =>
      .pure ht (.dictionary hentries.ascending hentries.values))
  | raw => exact whole (.pure hs (Value.readLiteral_meets lasting.toClosed _))

end Parts
end Upholds
end Rules
end Evaluator
end Guion
