/-
The rules of the language, taken one after the other.

The rules are functions of an evaluator that handles the parts. So a relation
between computations carries over from the parts to the whole, if it is
closed under what the rules do themselves. One lemma for each function of
the rules leads to `EvalRelated.expression`, `Related.statement` and
`Related.invocation`, and `Related.succ` puts them together.

A fact about all runs is then an instance: a relation, and why it is closed.
Expressions ask for less than statements, and take what calls do as given,
so a fact about expressions may be had where functions are ruled out.
-/
import Guion.Proofs.Run.Relations

namespace Guion

namespace Evaluator

/-- Evaluators whose parts are related. -/
structure Related (L : RunRelation) (ev ev' : Evaluator) : Prop where
  eval : ∀ env e s, L s (ev.eval env e) (ev'.eval env e)
  exec : ∀ env st s, L s (ev.exec env st) (ev'.exec env st)
  invoke : ∀ env origin depth request s,
    L s (ev.invoke env origin depth request) (ev'.invoke env origin depth request)
  passes : L.Passes ev.passes ev'.passes

/-- Evaluators that are related as far as expressions go: the parts of an
expression, and the calls of functions that a state knows. -/
structure EvalRelated (L : RunRelation) (env : Environment) (ev ev' : Evaluator) : Prop where
  eval : ∀ e s, L s (ev.eval env e) (ev'.eval env e)
  calls : ∀ name function arguments line s, Entries.get? name s.functions = some function →
    L s (ev.callDefined env function arguments line) (ev'.callDefined env function arguments line)

/-- The evaluator one level deeper: the rules of the language for the whole, and
the evaluator for the parts. -/
def deepen (ev : Evaluator) (passes : Nat) : Evaluator where
  passes := passes
  eval env e := ev.expression env e
  exec env st := ev.statement env st
  invoke env origin level request := ev.invocation env origin level request

/-! ## Expressions -/

section Expressions

variable {L : RunRelation} (rules : L.Evaluable) {env : Environment} {ev ev' : Evaluator}
  (parts : EvalRelated L env ev ev')
include rules parts

namespace EvalRelated

theorem evalAll (es : List Expr) (s : State) : L s (ev.evalAll env es) (ev'.evalAll env es) := by
  induction es generalizing s with
  | nil => exact rules.pure []
  | cons e rest ih =>
    exact rules.bind (parts.eval e s) fun v t _ => rules.bind (ih t) fun vs _ _ => rules.pure (v :: vs)

theorem evalEntries (pairs : List (Expr × Expr)) (entries : Entries Value) (s : State) :
    L s (ev.evalEntries env entries pairs) (ev'.evalEntries env entries pairs) := by
  induction pairs generalizing entries s with
  | nil => exact rules.pure entries
  | cons pair rest ih =>
    exact rules.bind (parts.eval pair.1 s) fun k t _ =>
      rules.bind (parts.eval pair.2 t) fun v u _ => ih _ u

theorem evalKeys (steps : List Accessor) (s : State) :
    L s (ev.evalKeys env steps) (ev'.evalKeys env steps) := by
  induction steps generalizing s with
  | nil => exact rules.pure []
  | cons step rest ih =>
    cases step with
    | index e =>
      exact rules.bind (parts.eval e s) fun v t _ => rules.bind (ih t) fun keys _ _ => rules.pure _
    | field name => exact rules.bind (ih s) fun keys _ _ => rules.pure _

theorem initializer (e : Expr) (s : State) : L s (ev.initializer env e) (ev'.initializer env e) := by
  cases e with
  | «variable» name line =>
    refine rules.get ?_
    cases s.lookup name <;> exact rules.pure _
  | _ => exact parts.eval _ s

theorem condition (e : Expr) (s : State) : L s (ev.condition env e) (ev'.condition env e) := by
  refine rules.bind (parts.eval e s) fun v t _ => ?_
  cases v.toBoolean with
  | ok b => exact rules.pure b
  | error _ => exact rules.fail _

theorem assign (target : AssignTarget) (value : Value) (line : Nat) (s : State) :
    L s (ev.assign env target value line) (ev'.assign env target value line) := by
  cases target with
  | «variable» name => exact rules.assign name value line
  | path root steps =>
    refine rules.get (rules.unless fun _ => ?_)
    cases s.lookup root with
    | none => exact rules.fail _
    | some current =>
      exact rules.bind (evalKeys rules parts steps s) fun keys t _ =>
        rules.bind (rules.ofExcept _) fun stored u _ => rules.assign root stored line
  | deref pointer =>
    refine rules.bind (parts.eval pointer s) fun v t _ => ?_
    cases v with
    | namedPointer name => exact rules.assign name value line
    | _ => exact rules.fail _

theorem writeBack (place : Option AssignTarget) (result : Value) (line : Nat) (s : State) :
    L s (ev.writeBack env place result line) (ev'.writeBack env place result line) := by
  cases place with
  | none => exact rules.pure ()
  | some target => exact assign rules parts target result line s

omit parts in
theorem callBuiltin (builtin : Builtin) (name : String) (arguments : List Value) (line : Nat) (s : State) :
    L s (callBuiltin env builtin name arguments line) (callBuiltin env builtin name arguments line) := by
  unfold Evaluator.callBuiltin
  split
  · exact rules.ofExcept _
  · exact rules.bind (rules.print _) fun _ _ _ => rules.pure _
  · exact rules.look (Run.after_ofExcept _ s) fun wanted => rules.get (rules.pure _)
  · refine rules.look (Run.after_ofExcept _ s) fun wanted => ?_
    -- The state is read and then set: the two steps are one change.
    cases h : s.delete wanted line with
    | error cause => exact rules.quiet (Run.after_error (Run.bind_error (Run.read_error h)))
    | ok found => exact rules.effect (.delete h) (Run.bind_ok (Run.read_ok h))
  · refine rules.look (Run.after_ofExcept _ s) fun path => ?_
    unfold openFile
    refine rules.look (Run.after_findFile env path s) fun answer => ?_
    cases answer with
    | error e => exact rules.fail _
    | ok node =>
      cases node with
      | directory => exact rules.fail _
      | file _ => exact rules.effect .identity rfl
  · exact rules.read _
  · exact rules.fail _

theorem callNamed (name : String) (arguments : List Value) (line : Nat) (s : State) :
    L s (ev.callNamed env name arguments line) (ev'.callNamed env name arguments line) := by
  refine rules.get ?_
  cases hf : Entries.get? name s.functions with
  | some function =>
    exact rules.bind (parts.calls name function arguments line s hf) fun _ _ _ => rules.pure _
  | none =>
    cases Entries.get? (Text.lowerString name) Library.table with
    | none => exact rules.pure _
    | some builtin =>
      dsimp only
      split
      · exact rules.bind (callBuiltin rules builtin name arguments line s) fun _ _ _ => rules.pure _
      · exact rules.fail _

theorem callKnown (name : String) (arguments : List Value) (line : Nat) (unknown : RuntimeError)
    (s : State) : L s (ev.callKnown env name arguments line unknown)
      (ev'.callKnown env name arguments line unknown) := by
  refine rules.bind (callNamed rules parts name arguments line s) fun result t _ => ?_
  cases result with
  | some v => exact rules.pure v
  | none => exact rules.fail _

theorem call (name : String) (arguments : List Expr) (line : Nat) (unknown : RuntimeError) (s : State) :
    L s (ev.call env name arguments line unknown) (ev'.call env name arguments line unknown) := by
  refine rules.bind (evalAll rules parts arguments s) fun values t _ =>
    rules.bind (callKnown rules parts name values line unknown t) fun result u _ => ?_
  dsimp only
  split
  · exact rules.bind (writeBack rules parts _ result line u) fun _ _ _ => rules.pure _
  · exact rules.pure _

theorem callMethod (receiver : Expr) (method : String) (arguments : List Expr) (line : Nat) (s : State) :
    L s (ev.callMethod env receiver method arguments line)
      (ev'.callMethod env receiver method arguments line) := by
  refine rules.bind (parts.eval receiver s) fun v t _ => rules.bind (rules.read _) fun target u _ =>
    rules.bind (evalAll rules parts arguments u) fun values w _ =>
    rules.bind (callKnown rules parts _ _ line _ w) fun result x _ => ?_
  dsimp only
  split
  · exact rules.bind (writeBack rules parts _ result line x) fun _ _ _ => rules.pure _
  · exact rules.pure _

theorem rangeStep (step : Option Expr) (direction : Option Binary64) (current stop : Binary64) (line : Nat)
    (s : State) : L s (ev.rangeStep env step direction current stop line)
      (ev'.rangeStep env step direction current stop line) := by
  cases step with
  | none => exact rules.pure _
  | some e =>
    exact rules.bind (parts.eval e s) fun v t _ => rules.bind (rules.ofExcept _) fun _ _ _ => rules.pure _

theorem evalBinary (left : Expr) (op : BinaryOperator) (right : Expr) (line : Nat) (s : State) :
    L s (ev.evalBinary env left op right line) (ev'.evalBinary env left op right line) := by
  refine rules.bind (parts.eval left s) fun a t _ => ?_
  -- The right operand of `&&` and `||` is left alone when the left one decides.
  have shortCircuit : ∀ decides : Bool, L t
      (do
        let decided ← Run.ofExcept (Operator.booleanOf line a)
        if decided == decides then return Value.boolean decided
        let b ← ev.eval env right
        return Value.boolean (← Run.ofExcept (Operator.booleanOf line b)))
      (do
        let decided ← Run.ofExcept (Operator.booleanOf line a)
        if decided == decides then return Value.boolean decided
        let b ← ev'.eval env right
        return Value.boolean (← Run.ofExcept (Operator.booleanOf line b))) := by
    intro decides
    refine rules.look (Run.after_ofExcept _ t) fun decided => ?_
    split
    · exact rules.pure _
    · exact rules.bind (parts.eval right t) fun b u _ =>
        rules.bind (rules.ofExcept _) fun _ _ _ => rules.pure _
  cases op with
  | and => exact shortCircuit _
  | or => exact shortCircuit _
  | _ => exact rules.bind (parts.eval right t) fun b u _ => rules.ofExcept _

theorem evalReference (operand : Expr) (line : Nat) (s : State) :
    L s (ev.evalReference env operand line) (ev'.evalReference env operand line) := by
  cases operand with
  | «variable» name _ =>
    refine rules.get ?_
    cases s.lookup name with
    | some _ => exact rules.pure _
    | none => exact rules.fail _
  | _ => exact rules.bind (parts.eval _ s) fun _ _ _ => rules.pure _

theorem evalCast (typeName : String) (pointer : Bool) (operand : Expr) (line : Nat) (s : State) :
    L s (ev.evalCast env typeName pointer operand line) (ev'.evalCast env typeName pointer operand line) := by
  refine rules.bind (parts.eval operand s) fun v t _ => ?_
  cases pointer with
  | true =>
    exact rules.look (Run.after_read _ t) fun target =>
      rules.bind (callKnown rules parts _ _ line _ t) fun _ _ _ => rules.pure _
  | false => exact callKnown rules parts _ _ line _ t

/-- The value of an expression is related when its parts are. -/
theorem expression (e : Expr) (s : State) : L s (ev.expression env e) (ev'.expression env e) := by
  cases e with
  | literal value line => exact rules.pure value
  | «variable» name line =>
    refine rules.get ?_
    cases s.lookup name with
    | some value => exact rules.pure value
    | none => exact rules.fail _
  | unary op operand line => exact rules.bind (parts.eval operand s) fun _ _ _ => rules.ofExcept _
  | binary left op right line => exact evalBinary rules parts left op right line s
  | call name arguments line => exact call rules parts name arguments line _ s
  | methodCall receiver method arguments line => exact callMethod rules parts receiver method arguments line s
  | index target index line =>
    exact rules.bind (parts.eval target s) fun v t _ =>
      rules.bind (parts.eval index t) fun i u _ =>
      rules.look (Run.after_read _ u) fun container => rules.ofExcept _
  | field target field line =>
    exact rules.bind (parts.eval target s) fun v t _ =>
      rules.look (Run.after_read _ t) fun container => rules.ofExcept _
  | reference operand line => exact evalReference rules parts operand line s
  | deref operand line => exact rules.bind (parts.eval operand s) fun v t _ => rules.read _
  | cast typeName pointer operand line => exact evalCast rules parts typeName pointer operand line s
  | list elements line =>
    exact rules.bind (evalAll rules parts elements s) fun _ _ _ => rules.pure _
  | dictionary entries line =>
    exact rules.bind (evalEntries rules parts entries [] s) fun _ _ _ => rules.pure _
  | raw text line => exact rules.pure _

end EvalRelated
end Expressions

/-! ## Statements -/

/-- A pass of a loop, and what comes behind it. -/
def pass (ev : Evaluator) (env : Environment) (body : Block) (next : Eval Flow) : Eval Flow := do
  match ← ev.block env body with
  | .proceed => next
  | .leaveLoop => return .proceed
  | flow => return flow

section Statements

variable {L : RunRelation} (rules : L.Executable) {ev ev' : Evaluator} (parts : Related L ev ev')
  (env : Environment)
include rules parts

namespace Related

theorem serve (request : Invocation) (s : State) : L s (ev.serve env request) (ev'.serve env request) := by
  unfold Evaluator.serve
  cases env.invoker with
  | none => exact rules.pure _
  | recorder => exact rules.bind (rules.print _) fun _ _ _ => rules.pure _
  | refuser => exact rules.fail _
  | programs origin depth =>
    exact rules.bind (rules.mapError _ (parts.invoke env origin depth request s)) fun _ _ _ => rules.pure _

theorem statements (sts : List Statement) (s : State) :
    L s (ev.statements env sts) (ev'.statements env sts) := by
  induction sts generalizing s with
  | nil => exact rules.pure _
  | cons st rest ih =>
    refine rules.bind (parts.exec env st s) fun flow t _ => ?_
    cases flow with
    | proceed => exact ih t
    | invoke request =>
      refine rules.bind (serve rules parts env request t) fun served u _ => ?_
      cases served with
      | proceed => exact ih u
      | _ => exact rules.pure _
    | _ => exact rules.pure _

theorem block (body : Block) (s : State) : L s (ev.block env body) (ev'.block env body) :=
  rules.bracket .block (statements rules parts env body.statements _)

theorem pass {next next' : Eval Flow} (body : Block) (hn : ∀ t, L t next next') (s : State) :
    L s (ev.pass env body next) (ev'.pass env body next') := by
  refine rules.bind (block rules parts env body s) fun flow t _ => ?_
  cases flow with
  | proceed => exact hn t
  | _ => exact rules.pure _

omit parts in
theorem bindLoop (name : String) (value : Value) (s : State) {x y : Eval Flow}
    (h : L (s.bindLoopVariable name value) x y) :
    L s (do modify (·.bindLoopVariable name value); x) (do modify (·.bindLoopVariable name value); y) := by
  refine rules.bind (rules.change (.bindLoop name value) rfl) fun _ t ht => ?_
  cases ht
  exact h

theorem evalRelated : EvalRelated L env ev ev' where
  eval := parts.eval env
  calls name function arguments line s _ := by
    refine rules.get (rules.unless fun hd => rules.unless fun _ => ?_)
    refine rules.look (Run.after_ofExcept _ s) fun frame => ?_
    refine rules.bind (rules.bracket (.call frame (Nat.lt_of_not_le hd)) (statements rules parts env _ _))
      fun flow t _ => ?_
    cases flow with
    | result v => exact rules.ofExcept _
    | invoke _ => exact rules.fail _
    | _ => exact rules.pure _

theorem condition (e : Expr) (s : State) : L s (ev.condition env e) (ev'.condition env e) :=
  (evalRelated rules parts env).condition rules.toEvaluable e s

theorem whileLoop (test : Expr) (body : Block) {n m : Nat} (h : L.Passes n m) (s : State) :
    L s (ev.whileLoop env test body n) (ev'.whileLoop env test body m) := by
  induction n generalizing m s with
  | zero =>
    obtain rfl | ⟨_, short⟩ := h
    · exact rules.quiet rfl
    · exact short s _
  | succ n ih =>
    obtain ⟨m, rfl, hm⟩ := h.succ
    refine rules.bind (condition rules parts env test s) fun b t _ => ?_
    cases b with
    | true => exact pass rules parts env body (ih hm) t
    | false => exact rules.pure _

theorem forItems (name : String) (body : Block) (items : List Value) (s : State) :
    L s (ev.forItems env name body items) (ev'.forItems env name body items) := by
  induction items generalizing s with
  | nil => exact rules.pure _
  | cons item rest ih => exact bindLoop rules name item s (pass rules parts env body ih _)

theorem drawItems (name : String) (body : Block) (failure : Option RuntimeError) (items : List Value)
    (s : State) : L s (ev.drawItems env name body failure items) (ev'.drawItems env name body failure items) := by
  induction items generalizing s with
  | nil =>
    cases failure with
    | some cause => exact rules.fail cause
    | none => exact rules.pure _
  | cons item rest ih => exact bindLoop rules name item s (pass rules parts env body ih _)

theorem pullItems (name : String) (body : Block) (pull : Nat → Pull) (failed : String → RuntimeError)
    {n m : Nat} (h : L.Passes n m) (given : Nat) (s : State) :
    L s (ev.pullItems env name body pull failed n given) (ev'.pullItems env name body pull failed m given) := by
  induction n generalizing m given s with
  | zero =>
    obtain rfl | ⟨_, short⟩ := h
    · exact rules.quiet rfl
    · exact short s _
  | succ n ih =>
    obtain ⟨m, rfl, hm⟩ := h.succ
    simp only [Evaluator.pullItems]
    cases pull given with
    | finished => exact rules.pure _
    | failed reason => exact rules.fail _
    | item value => exact bindLoop rules name value s (pass rules parts env body (ih hm (given + 1)) _)

theorem rangeLoop (name : String) (stop : Expr) (step : Option Expr) (body : Block) (line : Nat)
    (integral : Bool) {n m : Nat} (h : L.Passes n m) (current : Binary64) (direction : Option Binary64)
    (s : State) : L s (ev.rangeLoop env name stop step body line integral n current direction)
      (ev'.rangeLoop env name stop step body line integral m current direction) := by
  induction n generalizing m current direction s with
  | zero =>
    obtain rfl | ⟨_, short⟩ := h
    · exact rules.quiet rfl
    · exact short s _
  | succ n ih =>
    obtain ⟨m, rfl, hm⟩ := h.succ
    refine rules.bind (parts.eval env stop s) fun bound t _ => rules.bind (rules.ofExcept _) fun last u _ =>
      rules.bind ((evalRelated rules parts env).rangeStep rules.toEvaluable step direction current last line u)
      fun found w _ => rules.unless fun _ => ?_
    split
    · exact rules.pure _
    · exact bindLoop rules name _ w (pass rules parts env body (ih hm _ _) _)

theorem forObject (name : String) (body : Block) (line : Nat) (whole : Value) (description : String)
    (contents : Contents) (s : State) : L s (ev.forObject env name body line whole description contents)
      (ev'.forObject env name body line whole description contents) := by
  cases contents with
  | single => exact forItems rules parts env name body _ s
  | refused reason => exact rules.fail _
  | stream pull => exact rules.bracket .stream (pullItems rules parts env name body pull _ parts.passes 0 _)
  | file path =>
    refine rules.look (Run.after_findFile env path s) fun answer => ?_
    cases answer with
    | error e => exact rules.fail _
    | ok node => exact rules.bracket .reading (drawItems rules parts env name body _ _ _)

theorem forValue (name : String) (body : Block) (line : Nat) (v : Value) (s : State) :
    L s (ev.forValue env name body line v) (ev'.forValue env name body line v) := by
  unfold Evaluator.forValue
  split
  · exact forObject rules parts env name body line _ _ _ s
  · exact forItems rules parts env name body _ s

theorem forLoop (name : String) (source : ForSource) (body : Block) (line : Nat) (s : State) :
    L s (ev.forLoop env name source body line) (ev'.forLoop env name source body line) := by
  refine rules.bracket .loop ?_
  cases source with
  | range start stop step =>
    exact rules.bind (parts.eval env start _) fun first t _ => rules.bind (rules.ofExcept _) fun current u _ =>
      rangeLoop rules parts env name stop step body line _ parts.passes current none u
  | collection e =>
    exact rules.bind (parts.eval env e _) fun v t _ => rules.bind (rules.read _) fun collection u _ =>
      forValue rules parts env name body line collection u

omit parts in
theorem declareNames (scope : DeclarationScope) (type : Option TypeSpec) (initial : Option Value) (line : Nat)
    (names : List String) (s : State) :
    L s (declareNames scope type initial line names) (declareNames scope type initial line names) := by
  induction names generalizing s with
  | nil => exact rules.pure ()
  | cons name rest ih =>
    exact rules.bind (RunRelation.update_of rules.quiet fun ht hx => rules.change (.declare ht) hx)
      fun _ t _ => ih t

theorem declare (scope : DeclarationScope) (type : Option TypeSpec) (names : List String) (value : Option Expr)
    (line : Nat) (s : State) :
    L s (ev.declare env scope type names value line) (ev'.declare env scope type names value line) := by
  cases value with
  | none => exact declareNames rules scope type none line names s
  | some e =>
    exact rules.bind ((evalRelated rules parts env).initializer rules.toEvaluable e s) fun v t _ =>
      declareNames rules scope type (some v) line names t

theorem conditional (otherwise : Option Block) (branches : List (Expr × Block)) (s : State) :
    L s (ev.conditional env otherwise branches) (ev'.conditional env otherwise branches) := by
  induction branches generalizing s with
  | nil =>
    cases otherwise with
    | some body => exact block rules parts env body s
    | none => exact rules.pure _
  | cons branch rest ih =>
    refine rules.bind (condition rules parts env branch.1 s) fun b t _ => ?_
    cases b with
    | true => exact block rules parts env branch.2 t
    | false => exact ih t

theorem request (path : Expr) (arguments : List Expr) (line : Nat) (s : State) :
    L s (ev.request env path arguments line) (ev'.request env path arguments line) := by
  refine rules.get (rules.unless fun _ => ?_)
  exact rules.bind ((evalRelated rules parts env).initializer rules.toEvaluable path s) fun target t _ =>
    rules.bind ((evalRelated rules parts env).evalAll rules.toEvaluable arguments t) fun values _ _ =>
    rules.pure _

theorem handle (handler : Handler) (st : Statement) (s : State) :
    L s (ev.handle env handler st) (ev'.handle env handler st) := by
  have proceed : ∀ {α} {x y : Eval α}, L s x y →
      L s (do let _ ← x; return .proceed) (do let _ ← y; return Flow.proceed) :=
    fun h => rules.bind h fun _ _ _ => rules.pure _
  have call := (evalRelated rules parts env).call rules.toEvaluable
  unfold Evaluator.handle
  split
  · exact proceed (declare rules parts env _ _ _ _ _ s)
  · exact rules.bind (parts.eval env _ s) fun v t _ =>
      rules.bind ((evalRelated rules parts env).assign rules.toEvaluable _ v _ t) fun _ _ _ => rules.pure _
  · exact conditional rules parts env _ _ s
  · exact rules.bracket .loop (whileLoop rules parts env _ _ parts.passes _)
  · exact forLoop rules parts env _ _ _ _ s
  · exact proceed (RunRelation.update_of rules.quiet fun ht hx => rules.change (.define ht) hx)
  · split
    · exact rules.bind (parts.eval env _ s) fun _ _ _ => rules.pure _
    · exact rules.pure _
  · exact rules.get (rules.unless fun _ => rules.pure _)
  · exact block rules parts env _ s
  · exact proceed (call _ _ _ _ s)
  · exact rules.bind (request rules parts env _ _ _ s) fun _ _ _ => rules.pure _
  · refine rules.bind (parts.eval env _ s) fun v t _ => ?_
    dsimp only
    split
    · exact rules.bind (rules.print _) fun _ _ _ => rules.pure _
    · exact rules.pure _
  · exact rules.pure _
  · exact proceed (rules.print _)
  · exact rules.fail _

/-- The effect of a statement is related when its parts are. -/
theorem statement (st : Statement) (s : State) : L s (ev.statement env st) (ev'.statement env st) := by
  unfold Evaluator.statement
  cases Entries.get? st.kind env.handlers with
  | some handler => exact handle rules parts env handler st s
  | none => exact rules.fail _

/-! ## Programs -/

theorem topLevel (origin : Option String) (depth : Nat) (sts : List Statement) (s : State) :
    L s (ev.topLevel env origin depth sts) (ev'.topLevel env origin depth sts) := by
  induction sts generalizing s with
  | nil => exact rules.pure ()
  | cons st rest ih =>
    refine rules.bind (rules.mapError _ (parts.exec env st s)) fun flow t _ => ?_
    cases flow with
    | proceed => exact ih t
    | leaveLoop => exact ih t
    | result _ => exact rules.pure ()
    | invoke request => exact rules.bind (parts.invoke env origin depth request t) fun _ u _ => ih u

theorem program (source : String) (origin : Option String) (arguments : List Value) (depth : Nat)
    (s : State) : L s (ev.program env source origin arguments depth)
      (ev'.program env source origin arguments depth) :=
  rules.look (after_parseProgram env source s) fun program =>
    rules.inContext arguments (topLevel rules parts _ origin depth program.statements _)

/-- What a request does is related when the parts are. -/
theorem invocation (origin : Option String) (depth : Nat) (request : Invocation) (s : State) :
    L s (ev.invocation env origin depth request) (ev'.invocation env origin depth request) := by
  unfold Evaluator.invocation
  refine rules.unless fun _ => rules.look (env.after_locate origin request.path s) fun found => ?_
  cases found with
  | none => exact rules.fail _
  | some path =>
    refine rules.look (env.after_readProgram path s) fun source =>
      rules.bind (program rules parts env source _ _ _ s) fun child t _ => ?_
    exact rules.change (.merge _) rfl

/-- The rules of the language, with one more level of depth. -/
theorem succ {n m : Nat} (h : L.Passes n m) : Related L (ev.deepen n) (ev'.deepen m) where
  eval env e s := (evalRelated rules parts env).expression rules.toEvaluable e s
  exec env st s := statement rules parts env st s
  invoke env origin depth request s := invocation rules parts env origin depth request s
  passes := h

end Related
end Statements

end Evaluator
end Guion
