/-
Whole programs keep what is asked of values.

Statements, loops, programs and requests go on from the expressions of
`Run.Upheld`, one lemma for each function of the rules. Nothing that is stored
on the way fails the standard, but for the counter of a range: it is a sum, and
sums are not checked there. With one increment for all passes an infinite
counter has passed every finite end, so the loop is over before the counter is
bound (`Counts`). That is what the guard's test on increments is for.

`guarded_upholds` ties the knot: the observed evaluator answers like the
guarded one, and `observed_program` says so of programs, which start from
whatever meets the standard.
-/
import Guion.Proofs.Run.Upheld

namespace Guion

open Evaluator

/-! ## Counters -/

namespace Evaluator

/-- An infinite counter has passed every finite end. -/
theorem rangeEnded_infinite {last step : Binary64} (hl : last.isFinite = true) (hs : step.isFinite = true)
    (nonzero : step.isZero = false) : rangeEnded (.infinite step.isNegative) last step = true := by
  cases last with
  | infinite _ => cases hl
  | nan _ _ => cases hl
  | finite s m p hm =>
  cases step with
  | infinite _ => cases hs
  | nan _ _ => cases hs
  | finite t n q hn =>
  have hn : n ≠ 0 := by simpa [Binary64.isZero] using nonzero
  have units : 0 < n * 2 ^ q := Nat.mul_pos (Nat.pos_of_ne_zero hn) (Nat.two_pow_pos q)
  cases t <;>
    simp [rangeEnded, Binary64.less, Binary64.compare?, Binary64.zero, Binary64.compareSigned,
      Binary64.isNegative, Binary64.shiftUp_eq, Nat.compare_eq_lt, units, Nat.ne_of_gt units]

/-- The increments of a range are settled with the first one: there is none, and the
direction is kept, or it is constant. -/
theorem rangeStep_settled {ev : Evaluator} {env : Environment}
    (settled : ∀ {e}, e.isConstant = true → (ev.eval env e).Settled) {step : Option Expr}
    (constant : ∀ e ∈ step, e.isConstant = true) {direction : Option Binary64} {current last : Binary64} {line : Nat}
    {s t : State} {found : Binary64 × Bool × Option Binary64}
    (h : ev.rangeStep env step direction current last line s = .ok found t) {current' last' : Binary64} {u w : State}
    {next : Binary64 × Bool × Option Binary64}
    (h' : ev.rangeStep env step found.2.2 current' last' line u = .ok next w) : next.1 = found.1 := by
  cases step with
  | none => cases h; cases h'; rfl
  | some e =>
    obtain ⟨v, _, hv, h⟩ := Run.bind_eq_ok.mp h
    obtain ⟨v', _, hv', h'⟩ := Run.bind_eq_ok.mp h'
    obtain rfl := settled (constant e rfl) hv hv'
    obtain ⟨x, _, hx, h⟩ := Run.bind_eq_ok.mp h
    obtain ⟨y, _, hy, h'⟩ := Run.bind_eq_ok.mp h'
    cases h
    cases h'
    exact (Run.Settled.ofExcept _ hx hy).symm

/-- The counter of a range meets the standard, or the increment, which stays the
same, took it past all finite numbers. -/
def Counts (std : Standard) (ev : Evaluator) (env : Environment) (step : Option Expr) (line : Nat)
    (direction : Option Binary64) (current : Binary64) : Prop :=
  std.real current ∨ ∃ increment : Binary64, current = .infinite increment.isNegative ∧
    ∀ {c last s found t}, ev.rangeStep env step direction c last line s = .ok found t → found.1 = increment

end Evaluator

/-! ## Programs in contexts of their own -/

theorem Run.Upheld.inContext {std : Standard} {arguments : List Value} {s : State} {x y : Run ε Unit}
    (hs : s.Meets std)
    (h : Run.Upheld (State.Meets std) (fun _ => True) { s with toContext := .initial arguments } x y) :
    Run.Upheld (State.Meets std) (Context.Meets std) s (Run.inContext (.initial arguments) x)
      (Run.inContext (.initial arguments) y) := by
  refine ⟨by rw [Run.inContext, h.same, Run.inContext], ?_, fun context t ht => ?_⟩
  · rw [after_inContext]
    exact ⟨h.state.world, hs.context⟩
  · obtain ⟨u, hx, rfl, -⟩ := inContext_eq_ok ht
    have hu := h.state
    rw [after_ok hx] at hu
    exact hu.context

/-- What a program text is read as is spelled. -/
theorem Evaluator.parseProgram_spelled {env : Environment} {source : String} {s t : State} {program : Block}
    (h : parseProgram env source s = .ok program t) : program.Spelled := by
  obtain ⟨_, _, hs, h⟩ := Run.bind_eq_ok.mp h
  dsimp only at h
  split at h
  · cases h; exact Parse.program_spelled _ source
  · cases h

namespace Evaluator.Upholds

variable {std : Standard} {guard : Guard} {ev ev' : Evaluator} {env : Environment}
  (parts : Upholds std guard ev ev')

section Parts
include parts

/-! ## Blocks and loops -/

theorem block {body : Block} (hb : body.Spelled) {s : State} (hs : s.Meets std) :
    Run.Upheld (State.Meets std) (Flow.Meets std) s (ev.block env body) (ev'.block env body) := by
  have entered : s.pushScope.Meets std :=
    ⟨hs.world, { hs.context with scopes := List.forall_mem_cons.mpr ⟨.nil, hs.context.scopes⟩ }⟩
  exact .bracket (parts.statements hb entered) fun t ht => hs.leave .block ht

theorem pass {body : Block} (hb : body.Spelled) {next next' : Eval Flow} {s : State} (hs : s.Meets std)
    (hn : ∀ t, t.Meets std → Run.Upheld (State.Meets std) (Flow.Meets std) t next next') :
    Run.Upheld (State.Meets std) (Flow.Meets std) s (ev.pass env body next) (ev'.pass env body next') := by
  refine .bind (parts.block hb hs) fun flow t ht hflow _ => ?_
  cases flow with
  | proceed => exact hn t ht
  | leaveLoop => exact .pure ht trivial
  | result v => exact .pure ht hflow
  | invoke request => exact .pure ht hflow

/-- A pass with the loop variable bound. -/
theorem boundPass {name : String} {item : Value} (hi : item.Meets std true) {body : Block} (hb : body.Spelled)
    {next next' : Eval Flow} {s : State} (hs : s.Meets std)
    (hn : ∀ t, t.Meets std → Run.Upheld (State.Meets std) (Flow.Meets std) t next next') :
    Run.Upheld (State.Meets std) (Flow.Meets std) s
      (do modify (·.bindLoopVariable name item); ev.pass env body next)
      (do modify (·.bindLoopVariable name item); ev'.pass env body next') :=
  .bind (.modify (hs.bindLoopVariable name hi)) fun _ _ ht _ _ => parts.pass hb ht hn

theorem whileLoop {test : Expr} (ht : test.Spelled) {body : Block} (hb : body.Spelled) (n : Nat) {s : State}
    (hs : s.Meets std) :
    Run.Upheld (State.Meets std) (Flow.Meets std) s (ev.whileLoop env test body n)
      (ev'.whileLoop env test body n) := by
  induction n generalizing s with
  | zero => exact .quiet rfl hs fun _ _ h => nomatch h
  | succ n ih =>
    refine .bind (parts.condition ht hs) fun b t ht _ _ => ?_
    cases b with
    | true => exact parts.pass hb ht fun _ => ih
    | false => exact .pure ht trivial

theorem forItems {name : String} {body : Block} (hb : body.Spelled) {items : List Value}
    (hi : ∀ item ∈ items, item.Meets std true) {s : State} (hs : s.Meets std) :
    Run.Upheld (State.Meets std) (Flow.Meets std) s (ev.forItems env name body items)
      (ev'.forItems env name body items) := by
  induction items generalizing s with
  | nil => exact .pure hs trivial
  | cons item rest ih =>
    obtain ⟨here, hi⟩ := List.forall_mem_cons.mp hi
    exact parts.boundPass here hb hs fun _ => ih hi

theorem drawItems {name : String} {body : Block} (hb : body.Spelled) {failure : Option RuntimeError}
    {items : List Value} (hi : ∀ item ∈ items, item.Meets std true) {s : State} (hs : s.Meets std) :
    Run.Upheld (State.Meets std) (Flow.Meets std) s (ev.drawItems env name body failure items)
      (ev'.drawItems env name body failure items) := by
  induction items generalizing s with
  | nil =>
    cases failure with
    | some cause => exact .fail hs
    | none => exact .pure hs trivial
  | cons item rest ih =>
    obtain ⟨here, hi⟩ := List.forall_mem_cons.mp hi
    exact parts.boundPass here hb hs fun _ => ih hi

theorem pullItems {name : String} {body : Block} (hb : body.Spelled) {pull : Nat → Pull}
    (hp : ∀ n v, pull n = .item v → v.Meets std true) {failed : String → RuntimeError} (n given : Nat) {s : State}
    (hs : s.Meets std) :
    Run.Upheld (State.Meets std) (Flow.Meets std) s (ev.pullItems env name body pull failed n given)
      (ev'.pullItems env name body pull failed n given) := by
  induction n generalizing given s with
  | zero => exact .quiet rfl hs fun _ _ h => nomatch h
  | succ n ih =>
    simp only [Evaluator.pullItems]
    cases pulled : pull given with
    | finished => exact .pure hs trivial
    | failed reason => exact .fail hs
    | item value => exact parts.boundPass (hp given value pulled) hb hs fun _ => ih (given + 1)

variable (lasting : std.Lasting)
include lasting

theorem rangeStep {step : Option Expr} (hstep : ∀ e ∈ step, e.Spelled) {direction : Option Binary64}
    {current last : Binary64} {line : Nat} {s : State} (hs : s.Meets std)
    (hd : ∀ x ∈ direction, std.real x) :
    Run.Upheld (State.Meets std) (fun found => std.real found.1 ∧ ∀ x ∈ found.2.2, std.real x) s
      (ev.rangeStep env step direction current last line) (ev'.rangeStep env step direction current last line) := by
  cases step with
  | none =>
    have unit : std.real (direction.getD (if last.less current then Binary64.one.neg else .one)) := by
      cases direction with
      | some x => exact hd x rfl
      | none =>
        rw [Option.getD_none]
        split <;> exact lasting.real (by simp)
    exact .pure hs ⟨unit, by simpa using unit⟩
  | some e =>
    exact .bind (parts.eval (hstep e rfl) hs) fun v t ht hv _ =>
      .bind (.ofExcept ht fun x h => rangeBound_meets lasting.toClosed hv h) fun x u hu hx _ => .pure hu ⟨hx, hd⟩

/-- **The passes of a range keep the standard.** A counter that is bound meets it. -/
theorem rangeLoop {name : String} {stop : Expr} (hstop : stop.Spelled) {step : Option Expr}
    (hstep : ∀ e ∈ step, e.Spelled) (steady : (∀ x, std.real x) ∨ ∀ e ∈ step, e.isConstant = true) {body : Block}
    (hb : body.Spelled) {line : Nat} {integral : Bool} (n : Nat) {current : Binary64} {direction : Option Binary64}
    (hd : ∀ x ∈ direction, std.real x) (hc : Counts std ev env step line direction current) {s : State}
    (hs : s.Meets std) :
    Run.Upheld (State.Meets std) (Flow.Meets std) s
      (ev.rangeLoop env name stop step body line integral n current direction)
      (ev'.rangeLoop env name stop step body line integral n current direction) := by
  induction n generalizing current direction s with
  | zero => exact .quiet rfl hs fun _ _ h => nomatch h
  | succ n ih =>
    refine .bind (parts.eval hstop hs) fun bound t ht hbound _ =>
      .bind (.ofExcept ht fun last h => rangeBound_meets lasting.toClosed hbound h) fun last u hu hlast _ =>
      .bind (parts.rangeStep lasting hstep hu hd) fun found w hw hfound stepped => .unless hw fun nonzero => ?_
    split
    · exact .pure hw trivial
    · next going =>
      have real : std.real current := by
        obtain all | finite := lasting.numbers
        · exact all current
        obtain real | ⟨increment, rfl, same⟩ := hc
        · exact real
        · obtain rfl := same stepped
          exact absurd (rangeEnded_infinite (finite _ hlast) (finite _ hfound.1) (by simpa using nonzero)) going
      have counts : Counts std ev env step line found.2.2 (current.add found.1) := by
        obtain all | finite := lasting.numbers
        · exact .inl (all _)
        obtain all | constant := steady
        · exact .inl (all _)
        cases hsum : (current.add found.1).isFinite with
        | true => exact .inl (lasting.real hsum)
        | false =>
          exact .inr ⟨found.1, Binary64.add_eq_infinite (finite _ real) (finite _ hfound.1) hsum,
            fun later => rangeStep_settled parts.settled constant stepped later⟩
      exact parts.boundPass (rangeValue_meets real _) hb hw fun _ => ih hfound.2 counts

omit lasting in
theorem forObject {name : String} {body : Block} (hb : body.Spelled) {line : Nat} {whole : Value}
    (hw : whole.Meets std true) {description : String} {contents : Contents}
    (hc : ∀ pull n v, contents = .stream pull → pull n = .item v → v.Meets std true) {s : State} (hs : s.Meets std) :
    Run.Upheld (State.Meets std) (Flow.Meets std) s (ev.forObject env name body line whole description contents)
      (ev'.forObject env name body line whole description contents) := by
  cases contents with
  | single => exact parts.forItems hb (by simpa using hw) hs
  | refused reason => exact .fail hs
  | stream pull =>
    unfold Evaluator.forObject
    rw [← parts.passes]
    exact .bracket (parts.pullItems hb (fun n v => hc pull n v rfl) ev.passes 0 ⟨{ hs.world with }, hs.context⟩)
      fun t ht => hs.leave .stream ht
  | file path =>
    refine .look hs (Run.after_findFile env path s) fun answer _ => ?_
    cases answer with
    | error e => exact .fail hs
    | ok node =>
      refine .bracket (parts.drawItems hb (fun item hi => ?_) ⟨{ hs.world with }, hs.context⟩)
        fun t ht => hs.leave .reading ht
      obtain ⟨line, -, rfl⟩ := List.mem_map.mp hi
      exact .simple rfl

omit lasting in
theorem forValue {name : String} {body : Block} (hb : body.Spelled) {line : Nat} {v : Value}
    (hv : v.Meets std true) {s : State} (hs : s.Meets std) :
    Run.Upheld (State.Meets std) (Flow.Meets std) s (ev.forValue env name body line v)
      (ev'.forValue env name body line v) := by
  unfold Evaluator.forValue
  split
  · refine parts.forObject hb hv (fun pull n w hc hp => ?_) hs
    cases hv with
    | simple h => cases h
    | object h => exact h pull n w hc hp
  · exact parts.forItems hb (itemsOf_meets hv) hs

theorem forLoop {name : String} {source : ForSource} (hsource : source.Spelled) {body : Block} (hb : body.Spelled)
    {line : Nat}
    (steady : ∀ start stop step, source = .range start stop (some step) →
      (∀ x, std.real x) ∨ step.isConstant = true) {s : State} (hs : s.Meets std) :
    Run.Upheld (State.Meets std) (Flow.Meets std) s (ev.forLoop env name source body line)
      (ev'.forLoop env name source body line) := by
  have entered : State.Meets std { s with loopDepth := s.loopDepth + 1 } := ⟨hs.world, { hs.context with }⟩
  refine .bracket ?_ fun t ht => hs.leave .loop ht
  cases hsource with
  | @range start stop step hstart hstop hstep =>
    refine .bind (parts.eval hstart entered) fun first t ht hfirst _ =>
      .bind (.ofExcept ht fun x h => rangeBound_meets lasting.toClosed hfirst h) fun current u hu hcurrent _ => ?_
    rw [← parts.passes]
    refine parts.rangeLoop lasting hstop hstep ?_ hb ev.passes (by simp) (.inl hcurrent) hu
    cases step with
    | none => exact .inr (by simp)
    | some e => exact (steady start stop e rfl).imp id (by simpa using ·)
  | collection he =>
    exact .bind (parts.eval he entered) fun v t ht hv _ =>
      .bind (.read ht fun _ h => ht.follow hv h) fun collection u hu hc _ => parts.forValue hb hc hu

/-! ## Statements -/

omit parts in
theorem declareNames {scope : DeclarationScope} {type : Option TypeSpec} {initial : Option Value}
    (hi : ∀ v ∈ initial, v.Meets std true) {line : Nat} {names : List String} {s : State}
    (hs : s.Hold std (Value.Owes std true)) :
    Run.Upheld (State.Hold std (Value.Owes std true)) (fun _ => True) s
      (declareNames scope type initial line names : Eval Unit) (declareNames scope type initial line names) := by
  induction names generalizing s with
  | nil => exact .pure hs trivial
  | cons name rest ih =>
    exact .bind (.update hs fun t h => hs.declareName lasting.toClosed hi h) fun _ t ht _ _ => ih ht

theorem declare {scope : DeclarationScope} {type : Option TypeSpec} {names : List String} {value : Option Expr}
    (hv : ∀ e ∈ value, e.Spelled) {line : Nat} {s : State} (hs : s.Meets std) :
    Run.Upheld (State.Hold std (Value.Owes std true)) (fun _ => True) s (ev.declare env scope type names value line)
      (ev'.declare env scope type names value line) := by
  cases value with
  | some e =>
    exact .bind_of (fun _ => State.Hold.owes) (parts.initializer (hv e rfl) hs) fun v t ht hv _ =>
      declareNames lasting (by simpa using hv) ht.owes
  | none => exact declareNames lasting (by simp) hs.owes

omit lasting in
theorem conditional {otherwise : Option Block} (ho : ∀ body ∈ otherwise, body.Spelled)
    {branches : List (Expr × Block)} (htests : ∀ branch ∈ branches, branch.1.Spelled)
    (hbodies : ∀ branch ∈ branches, branch.2.Spelled) {s : State} (hs : s.Meets std) :
    Run.Upheld (State.Meets std) (Flow.Meets std) s (ev.conditional env otherwise branches)
      (ev'.conditional env otherwise branches) := by
  induction branches generalizing s with
  | nil =>
    cases otherwise with
    | some body => exact parts.block (ho body rfl) hs
    | none => exact .pure hs trivial
  | cons branch rest ih =>
    obtain ⟨test, htests⟩ := List.forall_mem_cons.mp htests
    obtain ⟨body, hbodies⟩ := List.forall_mem_cons.mp hbodies
    refine .bind (parts.condition test hs) fun b t ht _ _ => ?_
    cases b with
    | true => exact parts.block body ht
    | false => exact ih htests hbodies ht

omit lasting in
theorem request {path : Expr} (hp : path.Spelled) {arguments : List Expr} (ha : ∀ e ∈ arguments, e.Spelled)
    {line : Nat} {s : State} (hs : s.Meets std) :
    Run.Upheld (State.Meets std) (fun request => ∀ v ∈ request.arguments, v.Meets std true) s
      (ev.request env path arguments line) (ev'.request env path arguments line) :=
  .get (.unless hs fun _ => .bind (parts.initializer hp hs) fun _ _ ht _ _ =>
    .bind (parts.evalAll ha ht) fun _ _ hu hvs _ => .pure hu hvs)

variable (suits : guard.Suits std)
include suits

theorem handle {handler : Handler} {st : Statement} (hst : st.Spelled) (admitted : guard.admitsStatement st = true)
    {s : State} (hs : s.Meets std) :
    Run.Upheld (guard.Leaves std st.inside? st.writes) (Flow.Meets std) s (ev.handle env handler st)
      (ev'.handle env handler st) := by
  have whole : ∀ {x y : Eval Flow} {root writes}, Run.Upheld (State.Meets std) (Flow.Meets std) s x y →
      Run.Upheld (guard.Leaves std root writes) (Flow.Meets std) s x y :=
    fun h => h.mono fun _ => Guard.leaves_of_meets
  unfold Evaluator.handle
  split
  · cases hst with
    | declaration hv =>
      exact .bind_of (fun _ => Guard.leaves_of_owes suits) (parts.declare lasting hv hs) fun _ t ht _ _ =>
        .pure (Guard.leaves_of_owes suits ht) trivial
  · cases hst with
    | assignment ht hv =>
      refine .bind_of (fun _ => Guard.leaves_of_meets) (parts.eval hv hs) fun v t ht' hv' _ => ?_
      exact .bind (parts.assign lasting suits ht hv' ht') fun _ u hu _ _ => .pure hu trivial
  · cases hst with
    | conditional tests bodies rest => exact whole (parts.conditional rest tests bodies hs)
  · cases hst with
    | whileLoop hc hb =>
      rw [← parts.passes]
      exact whole (.bracket (parts.whileLoop hc hb ev.passes ⟨hs.world, { hs.context with }⟩)
        fun t ht => hs.leave .loop ht)
  · cases hst with
    | forLoop hsource hb =>
      refine whole (parts.forLoop lasting hsource hb (fun start stop step h => ?_) hs)
      subst h
      exact suits.increment admitted
  · cases hst with
    | function hb =>
      exact whole (.bind (.update hs fun t h => hs.defineFunction h hb) fun _ t ht _ _ => .pure ht trivial)
  · cases hst with
    | returnValue hv =>
      refine whole ?_
      split
      · next e => exact .bind (parts.eval (hv e rfl) hs) fun v t ht hv _ => .pure ht hv
      · exact .pure hs (.simple rfl)
  · exact whole (.get (.unless hs fun _ => .pure hs trivial))
  · cases hst with
    | block hb => exact whole (parts.block hb hs)
  · cases hst with
    | call ha => exact .bind (parts.call lasting suits ha hs) fun _ t ht _ _ => .pure ht trivial
  · cases hst with
    | invoke hp ha => exact whole (.bind (parts.request hp ha hs) fun request t ht hr _ => .pure ht hr)
  · cases hst with
    | expression he =>
      refine whole (.bind (parts.eval he hs) fun v t ht _ _ => ?_)
      dsimp only
      split
      · exact .bind (.modify (ht.print _)) fun _ u hu _ _ => .pure hu trivial
      · exact .pure ht trivial
  · exact whole (.pure hs trivial)
  · exact whole (.bind (.modify (hs.print _)) fun _ t ht _ _ => .pure ht trivial)
  · exact whole (.fail hs)

/-- **The effect of a statement keeps the standard**, if its increment and what it
writes pass the tests. -/
theorem statement {st : Statement} (hst : st.Spelled) (admitted : guard.admitsStatement st = true) {s : State}
    (hs : s.Meets std) :
    Run.Upheld (guard.Leaves std st.inside? st.writes) (Flow.Meets std) s (ev.statement env st)
      (ev'.statement env st) := by
  unfold Evaluator.statement
  cases Entries.get? st.kind env.handlers with
  | some handler => exact parts.handle lasting suits hst admitted hs
  | none => exact .fail (Guard.leaves_of_meets hs)

/-! ## Programs -/

omit lasting suits

theorem topLevel {origin : Option String} {depth : Nat} {sts : List Statement} (hst : ∀ st ∈ sts, st.Spelled)
    {s : State} (hs : s.Meets std) :
    Run.Upheld (State.Meets std) (fun _ => True) s (ev.topLevel env origin depth sts)
      (ev'.topLevel env origin depth sts) := by
  induction sts generalizing s with
  | nil => exact .pure hs trivial
  | cons st rest ih =>
    obtain ⟨here, hst⟩ := List.forall_mem_cons.mp hst
    refine .bind (.mapError _ (parts.exec here hs)) fun flow t ht hflow _ => ?_
    cases flow with
    | proceed => exact ih hst ht
    | leaveLoop => exact ih hst ht
    | result _ => exact .pure ht trivial
    | invoke request => exact .bind (parts.invoke hflow ht) fun _ u hu _ _ => ih hst hu

theorem program {source : String} {origin : Option String} {arguments : List Value}
    (ha : ∀ v ∈ arguments, v.Meets std true) {depth : Nat} {s : State} (hs : s.Meets std) :
    Run.Upheld (State.Meets std) (Context.Meets std) s (ev.program env source origin arguments depth)
      (ev'.program env source origin arguments depth) := by
  refine .look hs (after_parseProgram env source s) fun program parsed => .inContext hs ?_
  exact parts.topLevel (parseProgram_spelled parsed) ⟨hs.world, Context.initial_meets ha⟩

/-- What a request does keeps the standard. -/
theorem invocation {origin : Option String} {depth : Nat} {request : Invocation}
    (hr : ∀ v ∈ request.arguments, v.Meets std true) {s : State} (hs : s.Meets std) :
    Run.Upheld (State.Meets std) (fun _ => True) s (ev.invocation env origin depth request)
      (ev'.invocation env origin depth request) := by
  unfold Evaluator.invocation
  refine .unless hs fun _ => .look hs (env.after_locate origin request.path s) fun found _ => ?_
  cases found with
  | none => exact .fail hs
  | some path =>
    refine .look hs (env.after_readProgram path s) fun source _ =>
      .bind (parts.program hr hs) fun child t ht hchild _ => ?_
    exact .modify (ht.merge (hchild.bindings.erase argumentsName))

end Parts
end Evaluator.Upholds

/-! ## The knot -/

namespace Run

variable {std : Standard} {post : α → Prop} {s : State} {x y : Run ε α} {test : State → State → Bool}

/-- A computation that keeps the standard if its test passes keeps it when it is
stopped otherwise. -/
theorem Upheld.provided (test : State → State → Bool)
    (h : Upheld (fun t => test s t = true → t.Meets std) post s x y) (hs : s.Meets std) (stop : Halt Empty) :
    Upheld (State.Meets std) post s (Run.provided test stop x) (Run.provided test stop y) := by
  have same : y.after s = x.after s := by rw [after, ← h.same, after]
  cases passes : test s (x.after s) with
  | true =>
    have left : Run.provided test stop x s = x s := provided_eq passes
    have right : Run.provided test stop y s = y s := provided_eq (by rw [same, passes])
    refine ⟨by rw [left, right, h.same], ?_, fun a t ht => h.result a t (left ▸ ht)⟩
    rw [after, left]
    exact h.state passes
  | false => exact .halted (provided_eq_error passes) (provided_eq_error (by rw [same, passes])) hs

/-- A computation with a property of its result if a test passes has it when it is
stopped otherwise. -/
theorem Upheld.accepting {good : State → Prop} {test : α → Bool}
    (h : Upheld good (fun a => test a = true → post a) s x y) (hs : good s) (stop : Halt Empty) :
    Upheld good post s (Run.accepting test stop x) (Run.accepting test stop y) := by
  have same : Run.accepting test stop x s = Run.accepting test stop y s := by
    rw [Run.accepting, h.same, Run.accepting]
  cases hr : x s with
  | error halt t =>
    have left : Run.accepting test stop x s = .error halt t := by rw [Run.accepting, hr]
    exact .halted left (same ▸ left) (after_error hr ▸ h.state)
  | ok a t =>
    cases passes : test a with
    | true =>
      have left : Run.accepting test stop x s = .ok a t := by simp only [Run.accepting, hr, passes, if_true]
      refine ⟨same, by rw [after_ok left, ← after_ok hr]; exact h.state, fun b u hu => ?_⟩
      cases left.symm.trans hu
      exact h.result a t hr passes
    | false =>
      have left : Run.accepting test stop x s = .error stop.outright s := by
        simp only [Run.accepting, hr, passes, Bool.false_eq_true, if_false]
      exact .halted left (same ▸ left) hs

/-- A test that never passes stops both computations. -/
theorem Upheld.stopped (fails : ∀ t, test s t = false) (hs : s.Meets std) (stop : Halt Empty) :
    Upheld (State.Meets std) post s (Run.provided test stop x) (Run.provided test stop y) :=
  .halted (provided_eq_error (fails _)) (provided_eq_error (fails _)) hs

/-- An observer of what keeps the standard raises no alarm. -/
theorem Upheld.observe (h : Upheld (State.Meets std) post s x y) (hs : s.Meets std) (alarm : Halt Empty)
    {noted : α → Prop} (weaken : ∀ a, post a → noted a) :
    Upheld (State.Meets std) post s x (Run.observe std noted alarm y) := by
  have quiet : Run.observe std noted alarm y s = y s := by
    have same : y.after s = x.after s := by rw [after, ← h.same, after]
    rw [Run.observe, if_pos ⟨hs, same ▸ h.state, fun a t ht => weaken a (h.result a t (h.same ▸ ht))⟩]
  exact ⟨h.same.trans quiet.symm, h.state, h.result⟩

end Run

namespace Evaluator

variable {std : Standard} {guard : Guard}

/-- **Under guard, the observed evaluator raises no alarm.** -/
theorem guarded_upholds (lasting : std.Lasting) (suits : guard.Suits std) (stop alarm : Halt Empty) (n : Nat) :
    Upholds std guard (guarded guard stop n) (observed std guard stop alarm n) := by
  induction n with
  | zero =>
    exact {
      eval := fun _ hs => .quiet rfl hs fun _ _ h => nomatch h
      exec := fun _ hs => .quiet rfl hs fun _ _ h => nomatch h
      invoke := fun _ hs => .quiet rfl hs fun _ _ h => nomatch h
      stops := fun _ _ _ _ => ⟨.outOfFuel, rfl, rfl⟩
      passes := rfl
      settled := guarded_settled guard stop 0 _ }
  | succ n ih =>
    refine ⟨fun {env e s} he hs => ?_, fun {env st s} hst hs => ?_, fun hr hs => ?_, fun env st s fails => ?_, rfl,
      guarded_settled guard stop (n + 1) _⟩
    · refine .observe ?_ hs alarm fun _ h => h
      cases admitted : guard.admitsExpr e with
      | false => exact .stopped (fun t => by rw [Guard.expression, admitted, Bool.false_and]) hs stop
      | true =>
        refine .provided (fun _ t => guard.expression e t) (.mono (.accepting
          (ih.expression lasting suits he admitted hs) (Guard.leaves_of_meets hs) stop) fun t leaves passes => leaves ?_)
          hs stop
        exact (Bool.and_eq_true_iff.mp passes).2
    · refine .provided (fun s _ => guard.enters s)
        (.mono (.observe ?_ hs alarm fun _ _ => trivial) fun _ ht _ => ht) hs stop
      cases admitted : guard.admitsStatement st with
      | false => exact .stopped (fun t => by rw [Guard.statement, admitted, Bool.false_and]) hs stop
      | true =>
        refine .provided (fun _ t => guard.statement st t)
          ((ih.statement lasting suits hst admitted hs).mono fun t leaves passes => leaves ?_) hs stop
        exact (Bool.and_eq_true_iff.mp passes).2
    · exact .observe (ih.invocation hr hs) hs alarm fun _ _ => trivial
    · have stops : ∀ x : Eval Flow, Run.provided (fun s _ => guard.enters s) stop x s = .error stop.outright s :=
        fun x => Run.provided_eq_error fails
      exact ⟨_, stops _, stops _⟩

/-- **A program keeps a standard under guard.** Neither it nor a program that it
invokes raises an alarm, and what they leave meets the standard. -/
theorem observed_program (lasting : std.Lasting) (suits : guard.Suits std) (stop alarm : Halt Empty) (n : Nat)
    (env : Environment) (source : String) (origin : Option String) {arguments : List Value}
    (ha : ∀ v ∈ arguments, v.Meets std true) (depth : Nat) {s : State} (hs : s.Meets std) :
    Run.Upheld (State.Meets std) (Context.Meets std) s
      ((guarded guard stop n).program env source origin arguments depth)
      ((observed std guard stop alarm n).program env source origin arguments depth) :=
  (guarded_upholds lasting suits stop alarm n).program ha hs

/-- A program under guard is stopped by it, or runs as it does in the language. -/
theorem guarded_program (guard : Guard) (stop : Halt Empty) (n : Nat) (env : Environment) (source : String)
    (origin : Option String) (arguments : List Value) (depth : Nat) (s : State) :
    cutShort stop s ((guarded guard stop n).program env source origin arguments depth)
      ((within n).program env source origin arguments depth) :=
  (guarded_cutShort guard stop n).program (cutShort_executable stop) env source origin arguments depth s

end Evaluator

/-- A literal is a real, or nothing is asked of it. -/
theorem Parse.Spells.isSimple_or_real {tokens : List Token} {v : Value} (h : Parse.Spells tokens v) :
    v.isSimple = true ∨ ∃ x, v = .real x := by
  cases h with
  | @token token _ h => cases token <;> cases h <;> first | exact .inl rfl | exact .inr ⟨_, rfl⟩
  | date _ => exact .inl rfl
  | dateTime _ _ => exact .inl rfl
  | time _ => exact .inl rfl
  | duration _ => exact .inl rfl

/-- A literal meets a standard that every real meets. -/
theorem Parse.Spells.meets {std : Standard} (real : ∀ x, std.real x) {tokens : List Token} {v : Value}
    (h : Parse.Spells tokens v) : v.Meets std true := by
  obtain simple | ⟨x, rfl⟩ := h.isSimple_or_real
  · exact .simple simple
  · exact .real (real x)

/-- The state that the first program of a session starts in. -/
def State.fresh : State := { toWorld := {}, toContext := {} }

theorem State.fresh_meets {std : Standard} (lasting : std.Lasting) : State.fresh.Meets std where
  world := ⟨.nil, .nil, Registry.constructs_withBaseTypes lasting.toClosed⟩
  context := ⟨List.forall_mem_singleton.mpr .nil, .nil, fun _ h => nomatch h⟩

end Guion
