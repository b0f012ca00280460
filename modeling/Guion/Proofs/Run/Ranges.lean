/-
The passes of a range without an increment.

`Visits` lists the states in which a loop starts its body, to the end of the loop,
if the body falls through every time. The loop then proceeds (`Visits.run_eq`), and
it starts its body in these states only (`Visits.turns_iff`).

The counter of a range is a real. Between integers that a real holds without doubt its
steps are exact, so a range visits every integer from its start to its bound
(`range_visits`). No larger integer is ever bound (`range_binds_safe`), and a range
that counts up to `2 ^ 53` or more does not get past it, however many passes it may
make (`range_stuck`).
-/
import Guion.Proofs.Binary64.Integers
import Guion.Proofs.Run.Returns

namespace Guion

/-- The step of one from an integer towards another. -/
def stepTowards (a b : Int) : Int := if b < a then -1 else 1

/-- The integers from one to another, one by one. -/
def integersFrom (a b : Int64) : List Int64 :=
  (List.range ((b.toInt - a.toInt).natAbs + 1)).map fun k : Nat =>
    .ofInt (a.toInt + stepTowards a.toInt b.toInt * k)

example : integersFrom 3 (-1) = [3, 2, 1, 0, -1] := by decide

theorem stepTowards_eq (a b : Int) : stepTowards a b = 1 ∨ stepTowards a b = -1 := by
  unfold stepTowards
  split
  · exact .inr rfl
  · exact .inl rfl

/-- So many steps lead there. -/
theorem add_stepTowards (a b : Int) : a + stepTowards a b * (b - a).natAbs = b := by
  unfold stepTowards
  split <;> omega

/-- None of the steps leads beyond both ends. -/
theorem natAbs_add_stepTowards_le {a b : Int} {k limit : Nat} (hk : k ≤ (b - a).natAbs) (ha : a.natAbs ≤ limit)
    (hb : b.natAbs ≤ limit) : (a + stepTowards a b * k).natAbs ≤ limit := by
  unfold stepTowards
  split <;> omega

/-- Whether the next statement runs. -/
def Flow.proceeds : Flow → Bool
  | .proceed => true
  | _ => false

namespace Evaluator

variable {ev : Evaluator} {env : Environment} {body : Block}

/-! ## All the passes of a loop -/

/-- A loop from a point and a state on starts its body in some states, one after the
other, falls through every time, and ends in a state. -/
inductive Visits (ev : Evaluator) (env : Environment) (body : Block) : LoopPoint → State → List State → State → Prop
  | done {p s t} (ends : p.begin ev env s = .ok none t) : Visits ev env body p s [] t
  | pass {p next s t u ts v} (begins : p.begin ev env s = .ok (some next) t)
      (falls : ev.block env body t = .ok .proceed u) (rest : Visits ev env body next u ts v) :
      Visits ev env body p s (t :: ts) v

namespace Visits

variable {p : LoopPoint} {s t : State} {ts : List State}

theorem course (h : Visits ev env body p s ts t) : Course ev env body p s ts (.ok .proceed t) := by
  induction h with
  | done ends => exact .ends ends
  | pass begins falls _ ih => exact .falls begins falls ih

/-- A loop that falls through to its end proceeds. -/
theorem run_eq (h : Visits ev env body p s ts t) : p.run ev env body s = .ok .proceed t := h.course.run_eq

/-- The body is started in the states that are visited, and in no other. -/
theorem turns_iff (h : Visits ev env body p s ts t) {u : State} : Turns ev env body p s u ↔ u ∈ ts :=
  h.course.turns_iff

end Visits

/-! ## One pass of a range -/

/-- An integer that a range binds is one that a real holds without doubt. -/
theorem rangeValue_safe {current : Binary64} {integral : Bool} {i : Int64}
    (h : rangeValue current integral = .integer i) : i.toInt.natAbs ≤ Number.maxSafeInteger := by
  unfold rangeValue at h
  cases read : Number.exactInteger? current with
  | none => rw [read] at h; cases h
  | some j =>
    rw [read] at h
    dsimp only at h
    split at h
    · cases h; exact Number.exactInteger?_safe read
    · cases h

theorem rangeValue_ofInt {i : Int} (safe : i.natAbs ≤ Number.maxSafeInteger) :
    rangeValue (.ofInt i) true = .integer (.ofInt i) := by
  have small : i.natAbs ≤ 2 ^ 53 := Nat.le_trans safe (by decide)
  have same : (Int64.ofInt i).toInt = i := Int64.toInt_ofInt_of_le (by omega) (by omega)
  have read := Number.exactInteger?_realOfInteger (i := .ofInt i) (same.symm ▸ safe)
  rw [Number.realOfInteger, same] at read
  rw [rangeValue, read]
  rfl

/-- A counter of 53 bits has passed the bound when the step leads away from it. -/
theorem rangeEnded_ofInt {c b u : Int} (hc : c.natAbs ≤ 2 ^ 53) (hb : b.natAbs ≤ 2 ^ 53) (unit : u = 1 ∨ u = -1) :
    rangeEnded (.ofInt c) (.ofInt b) (.ofInt u) = decide (0 < u * (c - b)) := by
  have zero : Binary64.zero false = .ofInt 0 := by decide +kernel
  have bits : u.natAbs ≤ 2 ^ 53 := by omega
  rw [rangeEnded, zero, Binary64.less_ofInt (by decide) bits, Binary64.less_ofInt bits (by decide),
    Binary64.less_ofInt hb hc, Binary64.less_ofInt hc hb]
  obtain rfl | rfl := unit <;> grind

variable {name : String} {stop : Expr} {line : Nat}

/-- The step of a range without an increment: its direction, if that is settled. -/
def unitStep (direction : Option Binary64) (current last : Binary64) : Binary64 :=
  direction.getD (if last.less current then .neg .one else .one)

/-- **The beginning of a pass** of a range that takes steps of one. -/
theorem begin_range {passes : Nat} {current : Binary64} {direction : Option Binary64} {b : Int64} {u : Int}
    {s t : State} (bound : ev.eval env stop s = .ok (.integer b) t)
    (steps : unitStep direction current (Number.realOfInteger b) = .ofInt u)
    (unit : u = 1 ∨ u = -1) :
    (LoopPoint.counted name stop none line true (passes + 1) current direction).begin ev env s =
      if rangeEnded current (Number.realOfInteger b) (.ofInt u) then .ok none t
      else .ok (some (.counted name stop none line true passes (current.add (.ofInt u)) (some (.ofInt u))))
        (t.bindLoopVariable name (rangeValue current true)) := by
  have moves : (Binary64.ofInt u).isZero = false := by
    obtain rfl | rfl := unit <;> decide +kernel
  refine (Run.bind_ok bound).trans ((Run.bind_ok rfl).trans ((Run.bind_ok rfl).trans ?_))
  dsimp only
  rw [← unitStep, steps, moves, if_neg Bool.false_ne_true]
  split <;> rfl

/-! ## All the passes of a range -/

/-- Before every pass of a range its bound has one value, and when the variable is
bound to the value of that pass, the body falls through. `I` is what holds before a
pass, with the passes counted from zero. -/
def Steady (ev : Evaluator) (env : Environment) (name : String) (stop : Expr) (body : Block) (bound : Value)
    (values : List Value) (I : Nat → State → Prop) : Prop :=
  ∀ k t, I k t → ∃ w, ev.eval env stop t = .ok bound w ∧ ∀ v, values[k]? = some v →
    ∃ x, ev.block env body (w.bindLoopVariable name v) = .ok .proceed x ∧ I (k + 1) x

/-- The state in which a body starts: the variable of the loop is bound to an integer. -/
def entered (name : String) (pass : State × Int64) : State := pass.1.bindLoopVariable name (.integer pass.2)

section

variable {b : Int64} {c u : Int} (unit : u = 1 ∨ u = -1) (hc : c.natAbs ≤ 2 ^ 53) (hb : b.toInt.natAbs ≤ 2 ^ 53)
  {passes : Nat} {direction : Option Binary64}
  (steps : unitStep direction (.ofInt c) (Number.realOfInteger b) = .ofInt u)
  {s w : State} (bound : ev.eval env stop s = .ok (.integer b) w)

include unit hc hb steps bound

/-- One step behind the bound a range ends. -/
theorem begin_range_behind (behind : c = b.toInt + u) :
    (LoopPoint.counted name stop none line true (passes + 1) (.ofInt c) direction).begin ev env s = .ok none w := by
  have ended : rangeEnded (.ofInt c) (Number.realOfInteger b) (.ofInt u) = true := by
    rw [Number.realOfInteger, rangeEnded_ofInt hc hb unit, decide_eq_true_iff, behind]
    obtain rfl | rfl := unit <;> omega
  rw [begin_range bound steps unit, if_pos ended]

/-- Up to the bound it binds its variable to an integer and counts on. -/
theorem begin_range_before {m : Nat} (before : c + u * m = b.toInt) (safe : c.natAbs ≤ Number.maxSafeInteger) :
    (LoopPoint.counted name stop none line true (passes + 1) (.ofInt c) direction).begin ev env s =
      .ok (some (.counted name stop none line true passes (.ofInt (c + u)) (some (.ofInt u))))
        (entered name (w, .ofInt c)) := by
  have running : rangeEnded (.ofInt c) (Number.realOfInteger b) (.ofInt u) = false := by
    rw [Number.realOfInteger, rangeEnded_ofInt hc hb unit, decide_eq_false_iff_not]
    obtain rfl | rfl := unit <;> omega
  have bits : u.natAbs ≤ 2 ^ 53 := by omega
  rw [begin_range bound steps unit, if_neg (Bool.eq_false_iff.mp running), Binary64.add_ofInt hc bits,
    rangeValue_ofInt safe]
  rfl

end

/-- What is left of a range behind some passes: so many more, over integers that a
real holds. -/
theorem visits_range {b : Int64} {u : Int} (unit : u = 1 ∨ u = -1) (hb : b.toInt.natAbs ≤ 2 ^ 53)
    {values : List Value} {I : Nat → State → Prop} (steady : Steady ev env name stop body (.integer b) values I)
    (m : Nat) {c : Int} (hc : c.natAbs ≤ 2 ^ 53) (distance : c + u * m = b.toInt + u) {done : Nat}
    (visited : ∀ k : Nat, k < m →
      (c + u * k).natAbs ≤ Number.maxSafeInteger ∧ values[done + k]? = some (.integer (.ofInt (c + u * k))))
    (line spare : Nat) {direction : Option Binary64}
    (steps : unitStep direction (.ofInt c) (Number.realOfInteger b) = .ofInt u)
    {s : State} (hs : I done s) :
    ∃ (visits : List (State × Int64)) (t : State),
      visits.map Prod.snd = (List.range m).map (fun k : Nat => Int64.ofInt (c + u * k)) ∧
      Visits ev env body (.counted name stop none line true (spare + m + 1) (.ofInt c) direction) s
        (visits.map (entered name)) t := by
  induction m generalizing c done direction s with
  | zero =>
    obtain ⟨w, bound, -⟩ := steady done s hs
    have behind : c = b.toInt + u := by simpa using distance
    exact ⟨[], w, rfl, .done (begin_range_behind unit hc hb steps bound behind)⟩
  | succ m ih =>
    -- The pass that comes `k` passes later, seen from the next one.
    have later : ∀ k : Nat, c + u * (k + 1 : Nat) = c + u + u * k := fun k => by
      rw [Int.natCast_add, Int.natCast_one, Int.mul_add, Int.mul_one]
      omega
    obtain ⟨w, bound, falls⟩ := steady done s hs
    obtain ⟨safe, value⟩ := visited 0 (Nat.zero_lt_succ m)
    rw [Int.natCast_zero, Int.mul_zero, Int.add_zero] at safe value
    obtain ⟨x, fallen, hx⟩ := falls _ value
    have small : c.natAbs < 2 ^ 53 := Nat.lt_of_le_of_lt safe (by decide)
    rw [later] at distance
    have visited' : ∀ k : Nat, k < m → (c + u + u * k).natAbs ≤ Number.maxSafeInteger ∧
        values[done + 1 + k]? = some (.integer (.ofInt (c + u + u * k))) := fun k hk => by
      rw [← later, Nat.add_assoc, Nat.add_comm 1]
      exact visited (k + 1) (Nat.succ_lt_succ hk)
    obtain ⟨visits, t, numbers, rest⟩ := ih (by omega) distance visited'
      (show unitStep (some (.ofInt u)) _ _ = _ from rfl) hx
    have before : c + u * m = b.toInt := by omega
    refine ⟨(w, .ofInt c) :: visits, t, ?_,
      .pass (begin_range_before unit hc hb steps bound before safe) fallen rest⟩
    rw [List.range_succ_eq_map, List.map_cons, List.map_cons, List.map_map, numbers]
    refine List.cons_eq_cons.mpr ⟨?_, List.map_congr_left fun k _ => ?_⟩
    · rw [Int.natCast_zero, Int.mul_zero, Int.add_zero]
    · exact congrArg Int64.ofInt (later k).symm

/-- The direction of a range is settled by its first bounds. -/
theorem range_direction {a b : Int64} (ha : a.toInt.natAbs ≤ 2 ^ 53) (hb : b.toInt.natAbs ≤ 2 ^ 53) :
    unitStep none (.ofInt a.toInt) (Number.realOfInteger b) = .ofInt (stepTowards a.toInt b.toInt) := by
  have opposite : Binary64.one.neg = .ofInt (-1) := by decide +kernel
  rw [unitStep, Option.getD_none, Number.realOfInteger, Binary64.less_ofInt hb ha, opposite, stepTowards]
  by_cases down : b.toInt < a.toInt
  · rw [decide_eq_true down, if_pos rfl, if_pos down]
  · rw [decide_eq_false down, if_neg Bool.false_ne_true, if_neg down]
    rfl

theorem statement_forLoop (builtin : env.handlers = Handler.builtin) (source : ForSource) :
    ev.statement env (.forLoop name source body line) = ev.forLoop env name source body line := by
  rw [statement_eq ev builtin]
  rfl

/-- **A range visits every integer from its start to its bound, and ends.** Start and
bound are integers that a real holds without doubt, the bound is the same before
every pass, and the body falls through. Then the body is started once for each of the
integers, with the variable bound to it, and never else. -/
theorem range_visits (n : Nat) {env : Environment} (builtin : env.handlers = Handler.builtin) (name : String)
    {start stop : Expr} {body : Block} (line : Nat) {a b : Int64}
    (ha : a.toInt.natAbs ≤ Number.maxSafeInteger) (hb : b.toInt.natAbs ≤ Number.maxSafeInteger)
    (passes : (b.toInt - a.toInt).natAbs + 2 ≤ (within n).passes) {s s₀ : State}
    (starts : (within n).eval env start { s with loopDepth := s.loopDepth + 1 } = .ok (.integer a) s₀)
    {I : Nat → State → Prop} (first : I 0 s₀)
    (steady : Steady (within n) env name stop body (.integer b) ((integersFrom a b).map .integer) I) :
    ∃ (visits : List (State × Int64)) (t : State), visits.map Prod.snd = integersFrom a b ∧
      visits.length = (b.toInt - a.toInt).natAbs + 1 ∧
      Visits (within n) env body
        (.counted name stop none line true (within n).passes (Number.realOfInteger a) none) s₀
        (visits.map (entered name)) t ∧
      (within (n + 1)).exec env (.forLoop name (.range start stop none) body line) s =
        .ok .proceed { t with loopDepth := t.loopDepth - 1 } := by
  have small := Nat.le_trans ha (show Number.maxSafeInteger ≤ 2 ^ 53 by decide)
  have small' := Nat.le_trans hb (show Number.maxSafeInteger ≤ 2 ^ 53 by decide)
  have distance : a.toInt + stepTowards a.toInt b.toInt * ((b.toInt - a.toInt).natAbs + 1 : Nat) =
      b.toInt + stepTowards a.toInt b.toInt := by
    rw [Int.natCast_add, Int.mul_add, ← Int.add_assoc, add_stepTowards, Int.natCast_one, Int.mul_one]
  obtain ⟨spare, enough⟩ := Nat.exists_eq_add_of_le' passes
  have visited : ∀ k : Nat, k < (b.toInt - a.toInt).natAbs + 1 →
      (a.toInt + stepTowards a.toInt b.toInt * k).natAbs ≤ Number.maxSafeInteger ∧
      ((integersFrom a b).map Value.integer)[0 + k]? =
        some (.integer (.ofInt (a.toInt + stepTowards a.toInt b.toInt * k))) := fun k hk =>
    ⟨natAbs_add_stepTowards_le (Nat.le_of_lt_succ hk) ha hb, by simp [integersFrom, hk]⟩
  obtain ⟨visits, t, values, runs⟩ := visits_range (stepTowards_eq _ _) small' steady _ small distance visited line
    spare (range_direction small small') first
  have count := congrArg List.length values
  rw [List.length_map, List.length_map, List.length_range] at count
  have runs : Visits (within n) env body
      (.counted name stop none line true (within n).passes (Number.realOfInteger a) none) s₀
      (visits.map (entered name)) t := enough ▸ runs
  refine ⟨visits, t, values, count, runs, ?_⟩
  have begun : (within n).forStart env name (.range start stop none) line { s with loopDepth := s.loopDepth + 1 } =
      .ok (.nothing, .counted name stop none line true (within n).passes (Number.realOfInteger a) none) s₀ :=
    Run.bind_ok starts
  show (within n).statement env _ s = _
  rw [statement_forLoop builtin, forLoop_eq]
  exact inLoop_eq_ok.mpr ⟨t, (Run.bind_ok begun).trans runs.run_eq, rfl⟩

/-- From three down to one, with a body that copies the variable. -/
theorem range_visits_down :
    let s : State := { scopes := [[("i", .integer 0), ("x", .integer 0)]] }
    let body : Block := .mk [.assignment (.variable "x") (.variable "i" 2) 2] 2
    let loop : Statement := .forLoop "i" (.range (.literal (.integer 3) 1) (.literal (.integer 1) 1) none) body 1
    ∃ (visits : List (State × Int64)) (t : State), visits.map Prod.snd = [3, 2, 1] ∧ visits.length = 3 ∧
      (within 8).exec {} loop s = .ok .proceed t ∧ (t.lookup "x").map Value.display = some "1" := by
  intro s body loop
  have starts : (within 7).eval {} (.literal (.integer 3) 1) { s with loopDepth := s.loopDepth + 1 } =
      .ok (.integer 3) { s with loopDepth := s.loopDepth + 1 } := rfl
  have steady : Steady (within 7) {} "i" (.literal (.integer 1) 1) body (.integer 1)
      ((integersFrom 3 1).map .integer)
      (fun _ t => ∃ i x : Int64, t = { scopes := [[("i", .integer i), ("x", .integer x)]], loopDepth := 1 }) := by
    rintro k _ ⟨i, x, rfl⟩
    refine ⟨_, rfl, fun v hv => ?_⟩
    obtain ⟨j, -, rfl⟩ := List.mem_map.mp (List.mem_of_getElem? hv)
    exact ⟨_, rfl, j, j, rfl⟩
  obtain ⟨visits, t, values, count, -, ends⟩ :=
    range_visits 7 rfl "i" 1 (by decide) (by decide) (by decide) starts ⟨0, 0, rfl⟩ steady
  have copied : ((((within 8).exec {} loop).after s).lookup "x").map Value.display = some "1" := by decide +kernel
  rw [Run.after_ok ends] at copied
  exact ⟨visits, _, values, count, ends, copied⟩

/-! ## Beyond -/

/-- What any pass of a range binds, and where it leads. -/
theorem begin_counted {step : Option Expr} {integral : Bool} {passes : Nat} {current : Binary64}
    {direction : Option Binary64} {next : LoopPoint} {s t : State}
    (h : (LoopPoint.counted name stop step line integral passes current direction).begin ev env s = .ok (some next) t) :
    (∃ (r : State) (whole : Bool), t = r.bindLoopVariable name (rangeValue current whole)) ∧
      ∃ passes' current' direction', next = .counted name stop step line integral passes' current' direction' := by
  cases passes with
  | zero => cases h
  | succ passes =>
    obtain ⟨bound, u, -, h⟩ := Run.bind_eq_ok.mp h
    obtain ⟨last, v, -, h⟩ := Run.bind_eq_ok.mp h
    obtain ⟨⟨increment, whole, settled⟩, w, -, h⟩ := Run.bind_eq_ok.mp h
    dsimp only at h
    split at h
    · cases h
    split at h
    · cases h
    · cases h; exact ⟨⟨w, _, rfl⟩, _, _, _, rfl⟩

/-- Whatever a range runs over, an integer that it binds is one that a real holds
without doubt. -/
theorem range_binds_safe {step : Option Expr} {integral : Bool} {passes : Nat} {current : Binary64}
    {direction : Option Binary64} {s t : State}
    (turn : Turns ev env body (.counted name stop step line integral passes current direction) s t) :
    ∃ (r : State) (v : Value), t = r.bindLoopVariable name v ∧
      ∀ i, v = .integer i → i.toInt.natAbs ≤ Number.maxSafeInteger := by
  generalize start : LoopPoint.counted name stop step line integral passes current direction = p at turn
  induction turn generalizing passes current direction with
  | now begins =>
    subst start
    obtain ⟨⟨r, whole, rfl⟩, -⟩ := begin_counted begins
    exact ⟨r, _, rfl, fun i => rangeValue_safe⟩
  | later begins falls rest ih =>
    subst start
    obtain ⟨-, _, _, _, rfl⟩ := begin_counted begins
    exact ih rfl

/-- A range that counts up to a bound beyond 53 bits never ends, however many passes
it may make: at `2 ^ 53` its counter stands still. -/
theorem range_stuck {b : Int64} (far : 2 ^ 53 ≤ b.toInt) {I : State → Prop}
    (steady : ∀ v, Steady ev env name stop body (.integer b) [v] fun _ => I) (passes : Nat) {c : Int}
    (hc : c.natAbs ≤ 2 ^ 53) {direction : Option Binary64} (up : direction = none ∨ direction = some .one)
    {s : State} (hs : I s) :
    ∃ t, (LoopPoint.counted name stop none line true passes (.ofInt c) direction).run ev env body s =
      .error .outOfFuel t := by
  induction passes generalizing c direction s with
  | zero => exact ⟨s, rfl⟩
  | succ passes ih =>
    have bits : b.toInt.natAbs ≤ 2 ^ 63 := by
      have := Int64.le_toInt b
      have := Int64.toInt_lt b
      omega
    have short := Binary64.not_less_limit far bits hc
    have steps : unitStep direction (.ofInt c) (Number.realOfInteger b) = .ofInt 1 := by
      obtain rfl | rfl := up
      · rw [unitStep, Option.getD_none, Number.realOfInteger, short]; rfl
      · rfl
    have running : rangeEnded (.ofInt c) (Number.realOfInteger b) (.ofInt 1) = false := by
      have upwards : (Binary64.ofInt 1).less (.zero false) = false := by decide +kernel
      rw [rangeEnded, Number.realOfInteger, short, upwards, Bool.and_false, Bool.false_and, Bool.or_false]
    -- The next counter is one more, or the same.
    obtain ⟨d, hd, counts⟩ : ∃ d : Int, d.natAbs ≤ 2 ^ 53 ∧ (Binary64.ofInt c).add (.ofInt 1) = .ofInt d := by
      by_cases top : c = 2 ^ 53
      · subst top
        exact ⟨2 ^ 53, by decide, Binary64.add_one_limit⟩
      · exact ⟨c + 1, by omega, Binary64.add_ofInt hc (by decide)⟩
    obtain ⟨w, bound, falls⟩ := steady (rangeValue (.ofInt c) true) 0 s hs
    obtain ⟨x, fallen, hx⟩ := falls _ rfl
    have begins := @begin_range ev env name stop line passes _ _ _ _ s w bound steps (.inl rfl)
    rw [running, if_neg Bool.false_ne_true, counts] at begins
    rw [LoopPoint.run_eq, Run.bind_ok begins]
    show ∃ t, ev.pass env body _ _ = _
    rw [pass_proceed fallen]
    exact ih hd (.inr rfl) hx

/-- A range over one integer beyond: the body is never started with the integer, and
a real is left behind. -/
theorem range_misses :
    let a : Int64 := 9007199254740994
    let e : Expr := .literal (.integer a) 1
    let s : State := { scopes := [[]] }
    let s₀ : State := { s with loopDepth := 1 }
    (within 8).eval {} e s₀ = .ok (.integer a) s₀ ∧
    Steady (within 8) {} "i" e (.mk [] 1) (.integer a) ((integersFrom a a).map .integer) (fun _ _ => True) ∧
    (∀ u, Turns (within 8) {} (.mk [] 1)
        (.counted "i" e none 1 true (within 8).passes (Number.realOfInteger a) none) s₀ u →
      ∃ r v, u = State.bindLoopVariable "i" v r ∧ v ≠ .integer a) ∧
    ∃ t, (within 9).exec {} (.forLoop "i" (.range e e none) (.mk [] 1) 1) s = .ok .proceed t ∧
      (t.lookup "i").map Value.kind = some .real := by
  intro a e s s₀
  refine ⟨rfl, fun k t _ => ⟨t, rfl, fun v _ => ⟨_, rfl, trivial⟩⟩, fun u turn => ?_, ?_⟩
  · obtain ⟨r, v, rfl, safe⟩ := range_binds_safe turn
    refine ⟨r, v, rfl, fun same => ?_⟩
    exact absurd (safe a same) (by decide)
  · obtain ⟨flow, t, ends, proceeds⟩ := Run.exists_of_yields (show Run.yields Flow.proceeds
      ((within 9).exec {} (.forLoop "i" (.range e e none) (.mk [] 1) 1)) s = true by decide +kernel)
    have left : ((((within 9).exec {} (.forLoop "i" (.range e e none) (.mk [] 1) 1)).after s).lookup "i").map
        Value.kind = some .real := by decide +kernel
    rw [Run.after_ok ends] at left
    cases flow with
    | proceed => exact ⟨t, ends, left⟩
    | _ => cases proceeds

end Evaluator

end Guion
