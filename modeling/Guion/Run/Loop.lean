/-
`para` loops.

A range loop evaluates its start once, and its end and increment before every
pass, so the body may move the bound. Without an increment the loop counts
up or down by one, as its first bounds say. The counter is an integer as
long as start and increment are integers and the counter is exact.

A collection loop takes its items before the first pass, whatever the body
does to the collection. An object is opened for the loop and released when
the loop ends, however it ends.
-/
import Guion.Run.Block

namespace Guion.Evaluator

/-- A bound or the increment of a range. -/
def rangeBound (v : Value) (which : String) (line : Nat) : Except RuntimeError Binary64 :=
  v.toReal.mapError fun e => .invalidRangeBound (which ++ ": " ++ e.message) line

/-- Whether a counter has passed the end in the direction of its step. -/
def rangeEnded (current stop step : Binary64) : Bool :=
  let zero : Binary64 := .zero false
  (zero.less step && stop.less current) || (step.less zero && current.less stop)

/-- The value of a counter. -/
def rangeValue (current : Binary64) (integral : Bool) : Value :=
  match Number.exactInteger? current with
  | some i => if integral then .integer i else .real current
  | none => .real current

/-- The increment of a pass, whether it is an integer, and the direction that is
settled from then on. -/
def rangeStep (ev : Evaluator) (env : Environment) (step : Option Expr)
    (direction : Option Binary64) (current stop : Binary64) (line : Nat) :
    Eval (Binary64 × Bool × Option Binary64) := do
  match step with
  | some e =>
    let v ← ev.eval env e
    let increment ← Run.ofExcept (rangeBound v "incremento" line)
    return (increment, v.isIntegral, direction)
  | none =>
    let unit := direction.getD (if stop.less current then .neg .one else .one)
    return (unit, true, some unit)

/-- The passes of a range loop from a counter on. -/
def rangeLoop (ev : Evaluator) (env : Environment) (name : String) (stop : Expr)
    (step : Option Expr) (body : Block) (line : Nat) (integralStart : Bool) :
    Nat → Binary64 → Option Binary64 → Eval Flow
  | 0, _, _ => throw .outOfFuel
  | passes + 1, current, direction => do
    let bound ← ev.eval env stop
    let last ← Run.ofExcept (rangeBound bound "fin" line)
    let (increment, integralStep, direction) ← ev.rangeStep env step direction current last line
    if increment.isZero then Run.fail (.zeroStep line)
    if rangeEnded current last increment then return .proceed
    modify (·.bindLoopVariable name (rangeValue current (integralStart && integralStep)))
    match ← ev.block env body with
    | .proceed =>
      ev.rangeLoop env name stop step body line integralStart passes (current.add increment)
        direction
    | .leaveLoop => return .proceed
    | flow => return flow

/-- The items that a loop over a value runs through, unless the value is an
object. -/
def itemsOf : Value → List Value
  | .text s | .string s => s.toList.map .character
  | .list items => items
  | .matrix rows => rows.map .list
  | .dictionary entries => entries.map fun (key, _) => .string key
  | v => [v]

/-- Runs a loop between opening and releasing an iterator over a stream. -/
def withStream (loop : Eval α) : Eval α :=
  Run.bracket (fun s => { s with streams := { s.streams with opened := s.streams.opened + 1 } })
    (fun _ t => { t with streams := { t.streams with released := t.streams.released + 1 } }) loop

/-- Runs a loop between opening and releasing an iterator over a file. -/
def withReading (loop : Eval α) : Eval α :=
  Run.bracket
    (fun s => { s with readings := { s.readings with opened := s.readings.opened + 1 } })
    (fun _ t => { t with readings := { t.readings with released := t.readings.released + 1 } })
    loop

/-- A loop over an object. -/
def forObject (ev : Evaluator) (env : Environment) (name : String) (body : Block) (line : Nat)
    (whole : Value) (description : String) (contents : Contents) : Eval Flow := do
  let failed (reason : String) : RuntimeError := .inputOutput description reason line
  match contents with
  | .single => ev.forItems env name body [whole]
  | .refused reason => Run.fail (failed reason)
  | .stream pull => withStream (ev.pullItems env name body pull failed ev.passes 0)
  | .file path =>
    match ← Run.findFile env path with
    | .error e => Run.fail (failed e.message)
    | .ok node =>
      let (lines, failure) := node.lines
      withReading (ev.drawItems env name body (failure.map (failed ·.message))
        (lines.map .string))

/-- A loop over a value. -/
def forValue (ev : Evaluator) (env : Environment) (name : String) (body : Block) (line : Nat)
    (v : Value) : Eval Flow :=
  match v with
  | .object _ _ description contents => ev.forObject env name body line v description contents
  | _ => ev.forItems env name body (itemsOf v)

/-- A `para` loop. -/
def forLoop (ev : Evaluator) (env : Environment) (name : String) (source : ForSource)
    (body : Block) (line : Nat) : Eval Flow :=
  inLoop do
    match source with
    | .range start stop step =>
      let first ← ev.eval env start
      let current ← Run.ofExcept (rangeBound first "inicio" line)
      ev.rangeLoop env name stop step body line first.isIntegral ev.passes current none
    | .collection e =>
      let v ← ev.eval env e
      let collection ← Run.read (·.follow v line)
      ev.forValue env name body line collection

end Guion.Evaluator
