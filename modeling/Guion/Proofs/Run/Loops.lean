/-
The loops of the language, one pass at a time.

A `LoopPoint` is where a loop stands before a pass. `begin` does what comes
before the body, and says whether the loop ends there or where it stands
behind the pass; it may fail. Every loop is `begin`, then the body, then the
loop from the next point (`run_eq`), and every pass brings it nearer to its
end (`begin_next`). So what holds of all loops is proved once, for points.

`Turns` relates the state in which a loop starts to the states in which it
starts its body. A result of the body is the result of the loop, in the state
that the body left (`Turns.run_eq_result`), and a loop has no other results
(`turns_of_run`). `Course` lists these states in order, together with the end of
the loop; every loop has a course (`exists_course`).
-/
import Guion.Proofs.Run.Rules

namespace Guion.Evaluator

/-- Where a loop stands before a pass. -/
inductive LoopPoint where
  | repeated (test : Expr) (passes : Nat)
  | overItems (name : String) (rest : List Value)
  | drawn (name : String) (failure : Option RuntimeError) (rest : List Value)
  | pulled (name : String) (pull : Nat → Pull) (failed : String → RuntimeError) (passes given : Nat)
  | counted (name : String) (stop : Expr) (step : Option Expr) (line : Nat) (integral : Bool)
      (passes : Nat) (current : Binary64) (direction : Option Binary64)

namespace LoopPoint

/-- The loop from a point on. -/
def run (ev : Evaluator) (env : Environment) (body : Block) : LoopPoint → Eval Flow
  | .repeated test passes => ev.whileLoop env test body passes
  | .overItems name rest => ev.forItems env name body rest
  | .drawn name failure rest => ev.drawItems env name body failure rest
  | .pulled name pull failed passes given => ev.pullItems env name body pull failed passes given
  | .counted name stop step line integral passes current direction =>
    ev.rangeLoop env name stop step body line integral passes current direction

/-- What a loop does before its body: it ends, or a pass begins, and behind the
pass the loop stands at the next point. -/
def begin (ev : Evaluator) (env : Environment) : LoopPoint → Eval (Option LoopPoint)
  | .repeated _ 0 => throw .outOfFuel
  | .repeated test (passes + 1) => do
    if ← ev.condition env test then return some (.repeated test passes) else return none
  | .overItems _ [] => return none
  | .overItems name (item :: rest) => do
    modify (·.bindLoopVariable name item)
    return some (.overItems name rest)
  | .drawn _ none [] => return none
  | .drawn _ (some cause) [] => Run.fail cause
  | .drawn name failure (item :: rest) => do
    modify (·.bindLoopVariable name item)
    return some (.drawn name failure rest)
  | .pulled _ _ _ 0 _ => throw .outOfFuel
  | .pulled name pull failed (passes + 1) given =>
    match pull given with
    | .finished => return none
    | .failed reason => Run.fail (failed reason)
    | .item value => do
      modify (·.bindLoopVariable name value)
      return some (.pulled name pull failed passes (given + 1))
  | .counted _ _ _ _ _ 0 _ _ => throw .outOfFuel
  | .counted name stop step line integral (passes + 1) current direction => do
    let bound ← ev.eval env stop
    let last ← Run.ofExcept (rangeBound bound "fin" line)
    let (increment, integralStep, direction) ← ev.rangeStep env step direction current last line
    if increment.isZero then Run.fail (.zeroStep line)
    if rangeEnded current last increment then return none
    modify (·.bindLoopVariable name (rangeValue current (integral && integralStep)))
    return some (.counted name stop step line integral passes (current.add increment) direction)

/-- How many passes may follow at most. -/
def left : LoopPoint → Nat
  | .repeated _ passes => passes
  | .overItems _ rest => rest.length
  | .drawn _ _ rest => rest.length
  | .pulled _ _ _ passes _ => passes
  | .counted _ _ _ _ _ passes _ _ => passes

/-- The variable that a loop binds at every pass. -/
def boundName? : LoopPoint → Option String
  | .repeated _ _ => none
  | .overItems name _ => some name
  | .drawn name _ _ => some name
  | .pulled name _ _ _ _ => some name
  | .counted name _ _ _ _ _ _ _ => some name

/-- What follows the beginning of a pass. -/
def goOn (ev : Evaluator) (env : Environment) (body : Block) : Option LoopPoint → Eval Flow
  | none => pure .proceed
  | some next => ev.pass env body (next.run ev env body)

/-- Every loop begins a pass, runs its body and goes on. -/
theorem run_eq (ev : Evaluator) (env : Environment) (body : Block) (p : LoopPoint) :
    p.run ev env body = p.begin ev env >>= goOn ev env body := by
  cases p with
  | repeated test passes =>
    cases passes with
    | zero => rfl
    | succ passes =>
      simp only [run, whileLoop, begin, bind_assoc]
      congr 1
      funext b
      cases b <;> rfl
  | overItems name rest =>
    cases rest with
    | nil => rfl
    | cons item rest => rfl
  | drawn name failure rest =>
    cases rest with
    | nil => cases failure <;> rfl
    | cons item rest => cases failure <;> rfl
  | pulled name pull failed passes given =>
    cases passes with
    | zero => rfl
    | succ passes =>
      simp only [run, pullItems, begin]
      cases pull given <;> rfl
  | counted name stop step line integral passes current direction =>
    cases passes with
    | zero => rfl
    | succ passes =>
      simp only [run, rangeLoop, begin, bind_assoc]
      congr 1; funext bound
      congr 1; funext last
      congr 1; funext found
      obtain ⟨increment, integralStep, direction⟩ := found
      dsimp only
      split
      · rfl
      · split <;> rfl

/-- A pass uses up one of those that may follow, and the loop keeps its variable. -/
theorem begin_next {ev : Evaluator} {env : Environment} {p next : LoopPoint} {s t : State}
    (h : p.begin ev env s = .ok (some next) t) : next.left < p.left ∧ next.boundName? = p.boundName? := by
  cases p with
  | repeated test passes =>
    cases passes with
    | zero => cases h
    | succ passes =>
      obtain ⟨b, u, -, h⟩ := Run.bind_eq_ok.mp h
      cases b <;> cases h
      exact ⟨Nat.lt_succ_self _, rfl⟩
  | overItems name rest =>
    cases rest <;> cases h
    exact ⟨Nat.lt_succ_self _, rfl⟩
  | drawn name failure rest =>
    cases rest <;> cases failure <;> cases h <;> exact ⟨Nat.lt_succ_self _, rfl⟩
  | pulled name pull failed passes given =>
    cases passes with
    | zero => cases h
    | succ passes =>
      simp only [begin] at h
      cases hp : pull given <;> rw [hp] at h <;> cases h
      exact ⟨Nat.lt_succ_self _, rfl⟩
  | counted name stop step line integral passes current direction =>
    cases passes with
    | zero => cases h
    | succ passes =>
      obtain ⟨bound, u, -, h⟩ := Run.bind_eq_ok.mp h
      obtain ⟨last, v, -, h⟩ := Run.bind_eq_ok.mp h
      obtain ⟨⟨increment, integralStep, direction⟩, w, -, h⟩ := Run.bind_eq_ok.mp h
      dsimp only at h
      split at h
      · cases h
      split at h
      · cases h
      · cases h; exact ⟨Nat.lt_succ_self _, rfl⟩

end LoopPoint

/-- The beginning of a pass is related when the expressions of the loop are, and
the binding of its variable. -/
theorem EvalRelated.begin {L : RunRelation} (rules : L.Evaluable) {env : Environment} {ev ev' : Evaluator}
    (parts : EvalRelated L env ev ev') (p : LoopPoint)
    (binds : ∀ name ∈ p.boundName?, ∀ value t,
      L t (modify (·.bindLoopVariable name value) : Eval Unit) (modify (·.bindLoopVariable name value)))
    (s : State) : L s (p.begin ev env) (p.begin ev' env) := by
  have bound : ∀ name ∈ p.boundName?, ∀ value (next : LoopPoint) t,
      L t (do modify (·.bindLoopVariable name value); return some next : Eval (Option LoopPoint))
        (do modify (·.bindLoopVariable name value); return some next) :=
    fun name hn value next t => rules.bind (binds name hn value t) fun _ _ _ => rules.pure _
  cases p with
  | repeated test passes =>
    cases passes with
    | zero => exact rules.quiet rfl
    | succ passes =>
      refine rules.bind (condition rules parts test s) fun b t _ => ?_
      cases b <;> exact rules.pure _
  | overItems name rest =>
    cases rest with
    | nil => exact rules.pure _
    | cons item rest => exact bound name rfl item _ s
  | drawn name failure rest =>
    cases rest with
    | nil =>
      cases failure with
      | none => exact rules.pure _
      | some cause => exact rules.fail cause
    | cons item rest => cases failure <;> exact bound name rfl item _ s
  | pulled name pull failed passes given =>
    cases passes with
    | zero => exact rules.quiet rfl
    | succ passes =>
      simp only [LoopPoint.begin]
      cases pull given with
      | finished => exact rules.pure _
      | failed reason => exact rules.fail _
      | item value => exact bound name rfl value _ s
  | counted name stop step line integral passes current direction =>
    cases passes with
    | zero => exact rules.quiet rfl
    | succ passes =>
      refine rules.bind (parts.eval stop s) fun _ t _ => rules.bind (rules.ofExcept _) fun last u _ =>
        rules.bind (rangeStep rules parts step direction current last line u) fun found w _ =>
        rules.unless fun _ => ?_
      split
      · exact rules.pure _
      · exact bound name rfl _ _ w

/-! ## How `para` starts -/

theorem inLoop_eq_ok {loop : Eval α} {s t : State} {a : α} :
    inLoop loop s = .ok a t ↔ ∃ u, loop { s with loopDepth := s.loopDepth + 1 } = .ok a u ∧
      { u with loopDepth := u.loopDepth - 1 } = t :=
  Run.bracket_eq_ok

/-- What a loop holds open from its start to its end. -/
inductive Hold where
  | nothing
  | stream
  | reading

/-- Runs a loop between opening and releasing what it holds. -/
def Hold.around : Hold → Eval α → Eval α
  | .nothing, loop => loop
  | .stream, loop => withStream loop
  | .reading, loop => withReading loop

/-- What is held is counted when it is opened. -/
def Hold.enter : Hold → State → State
  | .nothing, s => s
  | .stream, s => { s with streams := { s.streams with opened := s.streams.opened + 1 } }
  | .reading, s => { s with readings := { s.readings with opened := s.readings.opened + 1 } }

/-- What is held is counted when it is released. -/
def Hold.leave : Hold → State → State
  | .nothing, s => s
  | .stream, s => { s with streams := { s.streams with released := s.streams.released + 1 } }
  | .reading, s => { s with readings := { s.readings with released := s.readings.released + 1 } }

@[simp] theorem Hold.enter_callDepth (hold : Hold) (s : State) : (hold.enter s).callDepth = s.callDepth := by
  cases hold <;> rfl

theorem Hold.around_eq_ok {hold : Hold} {x : Eval α} {s t : State} {a : α} :
    hold.around x s = .ok a t ↔ ∃ u, x (hold.enter s) = .ok a u ∧ hold.leave u = t := by
  cases hold with
  | nothing => simp [around, enter, leave]
  | stream => unfold around withStream; exact Run.bracket_eq_ok
  | reading => unfold around withReading; exact Run.bracket_eq_ok

/-- What `para` does before its first pass: where the loop starts, and what it
holds open. -/
def forStart (ev : Evaluator) (env : Environment) (name : String) (source : ForSource) (line : Nat) :
    Eval (Hold × LoopPoint) := do
  match source with
  | .range start stop step =>
    let first ← ev.eval env start
    let current ← Run.ofExcept (rangeBound first "inicio" line)
    return (.nothing, .counted name stop step line first.isIntegral ev.passes current none)
  | .collection e =>
    let v ← ev.eval env e
    match ← Run.read (·.follow v line) with
    | .object identity type description contents =>
      let failed (reason : String) : RuntimeError := .inputOutput description reason line
      match contents with
      | .single => return (.nothing, .overItems name [.object identity type description contents])
      | .refused reason => Run.fail (failed reason)
      | .stream pull => return (.stream, .pulled name pull failed ev.passes 0)
      | .file path =>
        match ← Run.findFile env path with
        | .error e => Run.fail (failed e.message)
        | .ok node =>
          return (.reading, .drawn name (node.lines.2.map (failed ·.message)) (node.lines.1.map .string))
    | collection => return (.nothing, .overItems name (itemsOf collection))

/-- `para` starts a loop and runs it. -/
theorem forLoop_eq (ev : Evaluator) (env : Environment) (name : String) (source : ForSource) (body : Block)
    (line : Nat) : ev.forLoop env name source body line =
      inLoop (ev.forStart env name source line >>= fun found => found.1.around (found.2.run ev env body)) := by
  unfold forLoop
  congr 1
  cases source with
  | range start stop step => simp only [forStart, bind_assoc]; rfl
  | collection e =>
    simp only [forStart, bind_assoc]
    congr 1; funext v
    congr 1; funext collection
    cases collection with
    | object identity type description contents =>
      cases contents with
      | file path =>
        simp only [forValue, forObject, bind_assoc]
        congr 1; funext answer
        cases answer <;> rfl
      | _ => rfl
    | _ => rfl

theorem forStart_boundName? {ev : Evaluator} {env : Environment} {name : String} {source : ForSource} {line : Nat}
    {hold : Hold} {p : LoopPoint} {s t : State} (h : ev.forStart env name source line s = .ok (hold, p) t) :
    p.boundName? = some name := by
  cases source with
  | range start stop step =>
    obtain ⟨_, _, -, h⟩ := Run.bind_eq_ok.mp h
    obtain ⟨_, _, -, h⟩ := Run.bind_eq_ok.mp h
    cases h
    rfl
  | collection e =>
    obtain ⟨_, _, -, h⟩ := Run.bind_eq_ok.mp h
    obtain ⟨collection, _, -, h⟩ := Run.bind_eq_ok.mp h
    cases collection with
    | object identity type description contents =>
      cases contents with
      | file path =>
        obtain ⟨answer, _, -, h⟩ := Run.bind_eq_ok.mp h
        cases answer <;> cases h
        rfl
      | _ => cases h <;> rfl
    | _ => cases h; rfl

/-- The start of a loop is related to itself when the expressions are. -/
theorem EvalRelated.forStart {L : RunRelation} (rules : L.Evaluable) {env : Environment} {ev : Evaluator}
    (parts : EvalRelated L env ev ev) (name : String) (source : ForSource) (line : Nat)
    (s : State) : L s (ev.forStart env name source line) (ev.forStart env name source line) := by
  cases source with
  | range start stop step =>
    exact rules.bind (parts.eval start s) fun first t _ =>
      rules.bind (rules.ofExcept _) fun current u _ => rules.pure _
  | collection e =>
    refine rules.bind (parts.eval e s) fun v t _ => rules.look (Run.after_read _ t) fun collection => ?_
    cases collection with
    | object identity type description contents =>
      cases contents with
      | refused reason => exact rules.fail _
      | file path =>
        refine rules.look (Run.after_findFile env path t) fun answer => ?_
        cases answer with
        | error e => exact rules.fail _
        | ok node => exact rules.pure _
      | _ => exact rules.pure _
    | _ => exact rules.pure _

/-! ## The states in which a body starts -/

/-- A loop from a point and a state starts its body in another state. -/
inductive Turns (ev : Evaluator) (env : Environment) (body : Block) : LoopPoint → State → State → Prop
  | now {p next s t} (begins : p.begin ev env s = .ok (some next) t) : Turns ev env body p s t
  | later {p next s t u v} (begins : p.begin ev env s = .ok (some next) t)
      (passes : ev.block env body t = .ok .proceed u) (rest : Turns ev env body next u v) :
      Turns ev env body p s v

theorem pass_proceed {ev : Evaluator} {env : Environment} {body : Block} {next : Eval Flow} {s t : State}
    (h : ev.block env body s = .ok .proceed t) : ev.pass env body next s = next t :=
  Run.bind_ok h

theorem pass_result {ev : Evaluator} {env : Environment} {body : Block} {next : Eval Flow} {s t : State}
    {v : Value} (h : ev.block env body s = .ok (.result v) t) :
    ev.pass env body next s = .ok (.result v) t :=
  Run.bind_ok h

/-- A result of the body is the result of the loop. -/
theorem Turns.run_eq_result {ev : Evaluator} {env : Environment} {body : Block} {p : LoopPoint}
    {s t u : State} {v : Value} (turn : Turns ev env body p s t)
    (h : ev.block env body t = .ok (.result v) u) : p.run ev env body s = .ok (.result v) u := by
  induction turn with
  | now begins => rw [LoopPoint.run_eq, Run.bind_ok begins]; exact pass_result h
  | later begins passes rest ih =>
    rw [LoopPoint.run_eq, Run.bind_ok begins]
    exact (pass_proceed passes).trans (ih h)

/-- A loop has no result but that of its body. -/
theorem turns_of_run {ev : Evaluator} {env : Environment} {body : Block} {p : LoopPoint}
    {s u : State} {v : Value} (h : p.run ev env body s = .ok (.result v) u) :
    ∃ t, Turns ev env body p s t ∧ ev.block env body t = .ok (.result v) u := by
  induction hl : p.left using Nat.strongRecOn generalizing p s with
  | ind k ih =>
    rw [LoopPoint.run_eq] at h
    obtain ⟨begun, t, begins, h⟩ := Run.bind_eq_ok.mp h
    cases begun with
    | none => cases h
    | some next =>
      obtain ⟨flow, w, hb, h⟩ := Run.bind_eq_ok.mp h
      cases flow with
      | proceed =>
        obtain ⟨x, turn, hx⟩ := ih next.left (hl ▸ (LoopPoint.begin_next begins).1) h rfl
        exact ⟨x, .later begins hb turn, hx⟩
      | leaveLoop => cases h
      | result _ => cases h; exact ⟨t, .now begins, hb⟩
      | invoke _ => cases h

/-! ## The course of a loop -/

variable {ev : Evaluator} {env : Environment} {body : Block}

/-- How a loop ends with a pass that does not fall through: a pass that leaves the
loop lets it proceed. -/
def leaving : EStateM.Result (Halt RuntimeError) State Flow → EStateM.Result (Halt RuntimeError) State Flow
  | .ok .leaveLoop t => .ok .proceed t
  | ended => ended

/-- A loop from a point and a state on starts its body in some states, one after the
other, and ends. -/
inductive Course (ev : Evaluator) (env : Environment) (body : Block) :
    LoopPoint → State → List State → EStateM.Result (Halt RuntimeError) State Flow → Prop
  | ends {p s t} (ended : p.begin ev env s = .ok none t) : Course ev env body p s [] (.ok .proceed t)
  | fails {p s halt t} (failed : p.begin ev env s = .error halt t) : Course ev env body p s [] (.error halt t)
  | falls {p next s t u ts r} (begins : p.begin ev env s = .ok (some next) t)
      (fallen : ev.block env body t = .ok .proceed u) (rest : Course ev env body next u ts r) :
      Course ev env body p s (t :: ts) r
  | leaves {p next s t} (begins : p.begin ev env s = .ok (some next) t)
      (stays : ∀ u, ev.block env body t ≠ .ok .proceed u) :
      Course ev env body p s [t] (leaving (ev.block env body t))

variable {p : LoopPoint} {s : State} {ts : List State} {r : EStateM.Result (Halt RuntimeError) State Flow}

theorem exists_course (ev : Evaluator) (env : Environment) (body : Block) (p : LoopPoint) (s : State) :
    ∃ ts r, Course ev env body p s ts r := by
  induction hl : p.left using Nat.strongRecOn generalizing p s with
  | ind k ih =>
    cases begun : p.begin ev env s with
    | error halt t => exact ⟨_, _, .fails begun⟩
    | ok found t =>
      cases found with
      | none => exact ⟨_, _, .ends begun⟩
      | some next =>
        by_cases fallen : ∃ u, ev.block env body t = .ok .proceed u
        · obtain ⟨u, fallen⟩ := fallen
          obtain ⟨ts, r, rest⟩ := ih next.left (hl ▸ (LoopPoint.begin_next begun).1) next u rfl
          exact ⟨_, _, .falls begun fallen rest⟩
        · exact ⟨_, _, .leaves begun fun u hu => fallen ⟨u, hu⟩⟩

theorem pass_of_stays {next : Eval Flow} {t : State} (stays : ∀ u, ev.block env body t ≠ .ok .proceed u) :
    ev.pass env body next t = leaving (ev.block env body t) := by
  cases passed : ev.block env body t with
  | error halt u => exact Run.bind_error passed
  | ok flow u =>
    cases flow with
    | proceed => exact absurd passed (stays u)
    | _ => exact Run.bind_ok passed

/-- A loop ends as its course does. -/
theorem Course.run_eq (h : Course ev env body p s ts r) : p.run ev env body s = r := by
  induction h with
  | ends ended => rw [LoopPoint.run_eq, Run.bind_ok ended]; rfl
  | fails failed => rw [LoopPoint.run_eq, Run.bind_error failed]
  | falls begins fallen rest ih =>
    rw [LoopPoint.run_eq, Run.bind_ok begins]
    exact (pass_proceed fallen).trans ih
  | leaves begins stays =>
    rw [LoopPoint.run_eq, Run.bind_ok begins]
    exact pass_of_stays stays

/-- The body is started in the states of the course, and in no other. -/
theorem Course.turns_iff (h : Course ev env body p s ts r) {u : State} : Turns ev env body p s u ↔ u ∈ ts := by
  induction h with
  | ends ended =>
    refine ⟨fun turn => ?_, nofun⟩
    cases turn with
    | now begins => cases begins.symm.trans ended
    | later begins => cases begins.symm.trans ended
  | fails failed =>
    refine ⟨fun turn => ?_, nofun⟩
    cases turn with
    | now begins => cases begins.symm.trans failed
    | later begins => cases begins.symm.trans failed
  | falls begins fallen rest ih =>
    rw [List.mem_cons, ← ih]
    constructor
    · intro turn
      cases turn with
      | now begins' => cases begins'.symm.trans begins; exact .inl rfl
      | later begins' falls' turn =>
        cases begins'.symm.trans begins
        cases falls'.symm.trans fallen
        exact .inr turn
    · rintro (rfl | turn)
      · exact .now begins
      · exact .later begins fallen turn
  | leaves begins stays =>
    rw [List.mem_singleton]
    constructor
    · intro turn
      cases turn with
      | now begins' => cases begins'.symm.trans begins; rfl
      | later begins' falls' =>
        cases begins'.symm.trans begins
        exact absurd falls' (stays _)
    · rintro rfl
      exact .now begins

end Guion.Evaluator
