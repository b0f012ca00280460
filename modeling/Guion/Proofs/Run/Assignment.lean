/-
Assigning to a name and looking names up agree.

An assignment and a lookup go through the stores in the same order, so a name
that can be looked up is written where it was found, in the kind of what was
found there (`assignVariable_of_bound`), and any other name is looked up as
before (`Assigned.lookup_of_ne`). A name that nothing is bound to becomes a
variable of the frame. An assignment that fails changes nothing.

An assignment to the end of a path or through a pointer fails without a change
too, if the expressions in it call nothing: such an expression leaves the state
as it is (`within_quiet`), and the target comes down to one assignment to a
name (`Quiet.assign`). A cast calls the conversion of its type, which may be a
function of the program; then it is a call like any other.
-/
import Guion.Proofs.Run.Standard
import Guion.Proofs.Run.WriteOnce
import Guion.Proofs.Value.Coerced

namespace Guion

/-! ## Names -/

namespace State

variable {s t : State} {name other : String} {value : Value} {line : Nat}

/-- The scopes are searched as one column. -/
theorem local?_eq_findSome? (name : String) (scopes : List Scope) :
    local? name scopes = (column name scopes).findSome? id := by
  induction scopes with
  | nil => rfl
  | cons scope outer ih =>
    show _ = (Entries.get? name scope :: column name outer).findSome? id
    rw [local?, ih, List.findSome?_cons]
    cases Entries.get? name scope <;> rfl

/-- Writes that leave a column alone leave its name alone. -/
theorem local?_congr {scopes scopes' : List Scope} (h : column name scopes' = column name scopes) :
    local? name scopes' = local? name scopes := by
  rw [local?_eq_findSome?, local?_eq_findSome?, h]

/-- **An assignment changes no other name.** -/
theorem Assigned.lookup_of_ne (h : Assigned name value s t) (hne : other ≠ name) : t.lookup other = s.lookup other := by
  rw [lookup_eq_or, lookup_eq_or]
  cases h with
  | «local» found kept =>
    dsimp only
    rw [local?_congr (column_setLocal hne _ _), get?_published_of_ne hne]
  | global free found kept =>
    dsimp only
    rw [Entries.get?_insert_of_ne hne]
  | «symbol» free unshared kept =>
    obtain ⟨rfl, -⟩ := Registry.modify_eq_ok kept
    dsimp only
    rw [Registry.get?_put_of_ne hne]
  | new free unshared unknown =>
    dsimp only
    rw [local?_congr (column_defineInFrame hne _ _)]

/-- What is bound in the frame stands there. -/
theorem get?_frame_defineInFrame (name : String) (value : Value) {scopes : List Scope} (opened : scopes ≠ [])
    (frame : Scope) : Entries.get? name ((defineInFrame name value scopes).getLastD frame) = some value := by
  induction scopes generalizing frame with
  | nil => exact absurd rfl opened
  | cons scope outer ih =>
    cases outer with
    | nil => exact Entries.get?_insert_self name value scope
    | cons next rest =>
      rw [defineInFrame, List.getLastD_cons]
      · exact ih (List.cons_ne_nil _ _) scope
      · exact List.cons_ne_nil _ _

/-- **A name that can be looked up is written in the kind of what stands there.** -/
theorem assignVariable_of_bound {old : Value} (free : Entries.get? name s.constants = none)
    (found : s.lookup name = some old) (value : Value) (line : Nat) :
    (∀ stored, old.overwrite value = .ok stored →
      ∃ t, s.assignVariable name value line = .ok t ∧ t.lookup name = some stored) ∧
    ∀ e, old.overwrite value = .error e →
      s.assignVariable name value line = .error (.conversion e line) ∨
      s.assignVariable name value line = .error (.registry (.conversion e) line) := by
  have unfixed : Entries.contains name s.constants = false := Entries.contains_eq_false.mpr free
  unfold assignVariable
  rw [unfixed, if_neg Bool.false_ne_true]
  rw [lookup_eq_or, free, Option.none_or] at found
  cases inner : local? name s.scopes with
  | some slot =>
    rw [inner, Option.some_or] at found
    cases found
    refine ⟨fun stored kept => ?_, fun e refused => ?_⟩
    · dsimp only
      rw [kept]
      refine ⟨_, rfl, ?_⟩
      simp only [lookup_eq_or, free, local?_setLocal_self stored inner, Option.none_or, Option.some_or]
    · dsimp only
      rw [refused]
      exact .inl rfl
  | none =>
    rw [inner, Option.none_or] at found
    cases shared : Entries.get? name s.globals with
    | some slot =>
      rw [shared, Option.some_or] at found
      cases found
      refine ⟨fun stored kept => ?_, fun e refused => ?_⟩
      · dsimp only
        rw [kept]
        refine ⟨_, rfl, ?_⟩
        simp only [lookup_eq_or, free, inner, Entries.get?_insert_self, Option.none_or, Option.some_or]
      · dsimp only
        rw [refused]
        exact .inl rfl
    | none =>
      rw [shared, Option.none_or] at found
      have known : s.registry.contains name = true := by rw [Registry.contains_eq, found]; rfl
      dsimp only
      rw [if_pos known]
      unfold Registry.modify
      rw [found]
      refine ⟨fun stored kept => ?_, fun e refused => ?_⟩
      · dsimp only
        rw [kept]
        refine ⟨_, rfl, ?_⟩
        simp only [lookup_eq_or, free, inner, shared, Registry.get?_put_self, Option.none_or]
      · dsimp only
        rw [refused]
        exact .inr rfl

/-- **A name that nothing is bound to becomes a variable of the frame.** -/
theorem assignVariable_of_unbound (opened : s.scopes ≠ []) (free : s.lookup name = none) (value : Value) (line : Nat) :
    s.assignVariable name value line = .ok { s with scopes := defineInFrame name value s.scopes } ∧
      State.lookup name { s with scopes := defineInFrame name value s.scopes } = some value := by
  rw [lookup_eq_or] at free
  simp only [Option.or_eq_none_iff] at free
  obtain ⟨unfixed, inner, shared, unknown⟩ := free
  refine ⟨?_, ?_⟩
  · unfold assignVariable
    rw [Entries.contains_eq_false.mpr unfixed, if_neg Bool.false_ne_true, inner, shared, Registry.contains_eq,
      unknown]
    rfl
  · simp only [lookup_eq_or, unfixed, local?_defineInFrame_self value opened inner, Option.none_or, Option.some_or]

/-- How an assignment of a value to a name ends. -/
structure Agrees (name : String) (value : Value) (line : Nat) (s : State) (x : Eval Unit) : Prop where
  /-- A constant is not assigned to. -/
  constant : Entries.contains name s.constants = true →
    x s = .error (.failure (.assignmentToConstant name line)) s
  /-- What can be looked up keeps its kind, and is then read as the value in that
  kind. -/
  bound : ∀ old, Entries.contains name s.constants = false → s.lookup name = some old →
    (∀ stored, value.coerce old.kind = .ok stored →
      ∃ t, x s = .ok () t ∧ t.lookup name = some stored ∧ stored.kind = old.kind) ∧
    ∀ e, value.coerce old.kind = .error e →
      x s = .error (.failure (.conversion e line)) s ∨ x s = .error (.failure (.registry (.conversion e) line)) s
  /-- A name that nothing is bound to is bound in the frame, to the value itself. -/
  unbound : s.lookup name = none →
    ∃ t, x s = .ok () t ∧ t.lookup name = some value ∧ Entries.get? name t.toContext.frame = some value
  /-- Any other name is read as before. -/
  others : ∀ other, other ≠ name → (x.after s).lookup other = s.lookup other
  /-- A failure changes nothing. -/
  unchanged : ∀ halt t, x s = .error halt t → t = s

theorem agrees_update (opened : s.scopes ≠ []) (name : String) (value : Value) (line : Nat) :
    Agrees name value line s (Run.update (·.assignVariable name value line)) where
  constant fixed := by
    refine Run.update_error ?_
    unfold assignVariable
    rw [if_pos fixed]
  bound old free found := by
    obtain ⟨written, refused⟩ := assignVariable_of_bound (Entries.contains_eq_false.mp free) found value line
    refine ⟨fun stored kept => ?_, fun e failed => ?_⟩
    · obtain ⟨t, assigned, reads⟩ := written stored kept
      exact ⟨t, Run.update_ok assigned, reads, Value.coerce_kind kept⟩
    · exact (refused e failed).imp Run.update_error Run.update_error
  unbound free := by
    obtain ⟨assigned, reads⟩ := assignVariable_of_unbound opened free value line
    exact ⟨_, Run.update_ok assigned, reads, get?_frame_defineInFrame name value opened []⟩
  others other hne := by
    cases assigned : s.assignVariable name value line with
    | error cause => rw [Run.after_error (Run.update_error assigned)]
    | ok t =>
      rw [Run.after_ok (Run.update_ok assigned)]
      exact (assigned_of_assignVariable assigned).lookup_of_ne hne
  unchanged halt t failed := by
    cases assigned : s.assignVariable name value line with
    | error cause => rw [Run.update_error assigned] at failed; cases failed; rfl
    | ok t => rw [Run.update_ok assigned] at failed; cases failed

end State

/-! ## Expressions that call nothing -/

/-- An expression in which nothing is called but the built-in conversions of its
casts. -/
inductive Expr.CallFree (functions : Entries FunctionDef) : Expr → Prop
  | literal {value line} : CallFree functions (.literal value line)
  | «variable» {name line} : CallFree functions (.variable name line)
  | unary {op operand line} (h : CallFree functions operand) : CallFree functions (.unary op operand line)
  | binary {left op right line} (h : CallFree functions left) (h' : CallFree functions right) :
      CallFree functions (.binary left op right line)
  | index {target index line} (h : CallFree functions target) (h' : CallFree functions index) :
      CallFree functions (.index target index line)
  | field {target field line} (h : CallFree functions target) : CallFree functions (.field target field line)
  | reference {operand line} (h : CallFree functions operand) : CallFree functions (.reference operand line)
  | deref {operand line} (h : CallFree functions operand) : CallFree functions (.deref operand line)
  | cast {typeName pointer operand line} (own : Entries.get? ("convertir_" ++ typeName) functions = none)
      (h : CallFree functions operand) : CallFree functions (.cast typeName pointer operand line)
  | list {elements line} (h : ∀ e ∈ elements, CallFree functions e) : CallFree functions (.list elements line)
  | dictionary {entries line} (h : ∀ entry ∈ entries, CallFree functions entry.1)
      (h' : ∀ entry ∈ entries, CallFree functions entry.2) : CallFree functions (.dictionary entries line)
  | raw {text line} : CallFree functions (.raw text line)

/-- A target whose indexes, or whose pointer, call nothing. -/
def AssignTarget.CallFree (functions : Entries FunctionDef) : AssignTarget → Prop
  | .variable _ => True
  | .path _ steps => ∀ e, .index e ∈ steps → e.CallFree functions
  | .deref pointer => pointer.CallFree functions

/-- A built-in function that looks at the state and changes nothing. -/
def Builtin.looks : Builtin → Bool
  | .print | .delete | .openFile => false
  | .pure _ | .isBound | .convert _ => true

/-- The functions that change something have no `o` in the second place. -/
theorem Library.looks_of_conversion {typeName : String} {builtin : Builtin}
    (found : Entries.get? (Text.lowerString ("convertir_" ++ typeName)) table = some builtin) : builtin.looks = true := by
  have names : (functions ++ conversions ++ methods).all (fun entry => entry.2.looks ||
      entry.1.toList[1]? != some 'o') = true := by decide +kernel
  have letters := List.all_eq_true.mp names _ (Entries.mem_of_mem_ofList (Entries.mem_of_get? found))
  dsimp only at letters
  rw [lower_conversion_second] at letters
  simpa using letters

namespace Evaluator

variable {ev : Evaluator} {env : Environment} {s : State}

theorem after_callBuiltin {builtin : Builtin} (looks : builtin.looks = true) (name : String)
    (arguments : List Value) (line : Nat) : (callBuiltin env builtin name arguments line).after s = s := by
  unfold callBuiltin
  split
  · exact Run.after_ofExcept _ s
  · cases looks
  · exact Run.after_bind (Run.after_ofExcept _ s) fun wanted => Run.after_bind (Run.after_get s) fun _ => rfl
  · cases looks
  · cases looks
  · exact Run.after_read _ s
  · rfl

/-- A conversion that is not a function of the program changes nothing. -/
theorem after_callKnown_conversion {typeName : String}
    (own : Entries.get? ("convertir_" ++ typeName) s.functions = none) (arguments : List Value) (line : Nat)
    (unknown : RuntimeError) :
    (ev.callKnown env ("convertir_" ++ typeName) arguments line unknown).after s = s := by
  have named : (ev.callNamed env ("convertir_" ++ typeName) arguments line).after s = s := by
    rw [Run.after, callNamed_eq, State.callee?, own]
    cases found : Entries.get? (Text.lowerString ("convertir_" ++ typeName)) Library.table with
    | none => rfl
    | some builtin =>
      have looks := Library.looks_of_conversion found
      show (ev.callFound env _ arguments line (some (.builtin builtin))).after s = s
      dsimp only [callFound]
      split
      · exact Run.after_bind (after_callBuiltin looks _ arguments line) fun _ => rfl
      · rfl
  refine Run.after_bind named fun result => ?_
  cases result <;> rfl

/-- Parts that change nothing, one after the other. -/
structure Quiet (ev : Evaluator) (env : Environment) (s : State) : Prop where
  eval : ∀ e : Expr, e.CallFree s.functions → (ev.eval env e).after s = s

namespace Quiet

variable (quiet : Quiet ev env s)
include quiet

theorem evalAll {es : List Expr} (free : ∀ e ∈ es, e.CallFree s.functions) : (ev.evalAll env es).after s = s := by
  induction es with
  | nil => rfl
  | cons e rest ih =>
    obtain ⟨here, free⟩ := List.forall_mem_cons.mp free
    exact Run.after_bind (quiet.eval e here) fun v => Run.after_bind (ih free) fun vs => rfl

theorem evalEntries {pairs : List (Expr × Expr)} (keys : ∀ entry ∈ pairs, entry.1.CallFree s.functions)
    (values : ∀ entry ∈ pairs, entry.2.CallFree s.functions) (entries : Entries Value) :
    (ev.evalEntries env entries pairs).after s = s := by
  induction pairs generalizing entries with
  | nil => rfl
  | cons entry rest ih =>
    obtain ⟨key, keys⟩ := List.forall_mem_cons.mp keys
    obtain ⟨value, values⟩ := List.forall_mem_cons.mp values
    exact Run.after_bind (quiet.eval _ key) fun k => Run.after_bind (quiet.eval _ value) fun v => ih keys values _

theorem evalKeys {steps : List Accessor} (free : ∀ e, .index e ∈ steps → e.CallFree s.functions) :
    (ev.evalKeys env steps).after s = s := by
  induction steps with
  | nil => rfl
  | cons step rest ih =>
    have rest := ih fun e he => free e (List.mem_cons_of_mem _ he)
    cases step with
    | index e => exact Run.after_bind (quiet.eval e (free e List.mem_cons_self)) fun v => Run.after_bind rest fun _ => rfl
    | field name => exact Run.after_bind rest fun _ => rfl

theorem evalBinary {left right : Expr} (hl : left.CallFree s.functions) (hr : right.CallFree s.functions)
    (op : BinaryOperator) (line : Nat) : (ev.evalBinary env left op right line).after s = s := by
  refine Run.after_bind (quiet.eval _ hl) fun a => ?_
  have shortCircuit : ∀ decides : Bool, Run.after
      (do
        let decided ← Run.ofExcept (Operator.booleanOf line a)
        if decided == decides then return Value.boolean decided
        let b ← ev.eval env right
        return Value.boolean (← Run.ofExcept (Operator.booleanOf line b))) s = s := by
    intro decides
    refine Run.after_bind (Run.after_ofExcept _ s) fun decided => ?_
    split
    · rfl
    · exact Run.after_bind (quiet.eval _ hr) fun b => Run.after_bind (Run.after_ofExcept _ s) fun _ => rfl
  cases op with
  | and => exact shortCircuit _
  | or => exact shortCircuit _
  | _ => exact Run.after_bind (quiet.eval _ hr) fun b => Run.after_ofExcept _ s

theorem evalReference {operand : Expr} (free : operand.CallFree s.functions) (line : Nat) :
    (ev.evalReference env operand line).after s = s := by
  cases operand with
  | «variable» name _ =>
    refine Run.after_bind (Run.after_get s) fun t => ?_
    cases t.lookup name <;> rfl
  | _ => exact Run.after_bind (quiet.eval _ free) fun _ => rfl

theorem evalCast {typeName : String} (own : Entries.get? ("convertir_" ++ typeName) s.functions = none)
    {operand : Expr} (free : operand.CallFree s.functions) (pointer : Bool) (line : Nat) :
    (ev.evalCast env typeName pointer operand line).after s = s := by
  refine Run.after_bind (quiet.eval _ free) fun v => ?_
  cases pointer with
  | true =>
    exact Run.after_bind (Run.after_read _ s) fun target =>
      Run.after_bind (after_callKnown_conversion own _ line _) fun _ => rfl
  | false => exact after_callKnown_conversion own _ line _

/-- An expression is quiet when its parts are. -/
theorem expression {e : Expr} (free : e.CallFree s.functions) : (ev.expression env e).after s = s := by
  cases free with
  | literal => rfl
  | @«variable» name line =>
    refine Run.after_bind (Run.after_get s) fun t => ?_
    cases t.lookup name <;> rfl
  | unary h => exact Run.after_bind (quiet.eval _ h) fun v => Run.after_ofExcept _ s
  | binary h h' => exact quiet.evalBinary h h' _ _
  | index h h' =>
    exact Run.after_bind (quiet.eval _ h) fun v => Run.after_bind (quiet.eval _ h') fun i =>
      Run.after_bind (Run.after_read _ s) fun container => Run.after_ofExcept _ s
  | field h =>
    exact Run.after_bind (quiet.eval _ h) fun v =>
      Run.after_bind (Run.after_read _ s) fun container => Run.after_ofExcept _ s
  | reference h => exact quiet.evalReference h _
  | deref h => exact Run.after_bind (quiet.eval _ h) fun v => Run.after_read _ s
  | cast own h => exact quiet.evalCast own h _ _
  | list h => exact Run.after_bind (quiet.evalAll h) fun _ => rfl
  | dictionary h h' => exact Run.after_bind (quiet.evalEntries h h' []) fun _ => rfl
  | raw => rfl

end Quiet

/-- **An expression that calls nothing changes nothing**, at any depth. -/
theorem within_quiet (n : Nat) (env : Environment) (s : State) : Quiet (within n) env s where
  eval := by
    induction n with
    | zero => exact fun _ _ => rfl
    | succ n ih => exact fun e free => Quiet.expression ⟨ih⟩ free

/-! ## Assignments to a target -/

/-- The name that a target leads to in a state, and the value that this name is
given when the target is given a value. -/
inductive LeadsTo (ev : Evaluator) (env : Environment) (s : State) (value : Value) (line : Nat) :
    AssignTarget → String → Value → Prop
  | «variable» {name} : LeadsTo ev env s value line (.variable name) name value
  | path {root steps current keys stored} (found : s.lookup root = some current)
      (keyed : ev.evalKeys env steps s = .ok keys s)
      (kept : Operator.storeAt current keys value line = .ok stored) :
      LeadsTo ev env s value line (.path root steps) root stored
  | deref {pointer name} (points : ev.eval env pointer s = .ok (.namedPointer name) s) :
      LeadsTo ev env s value line (.deref pointer) name value

/-- How an assignment of a value to a target ends: nothing is changed, or the name
that the target leads to was assigned to. -/
inductive AllOrNothing (ev : Evaluator) (env : Environment) (target : AssignTarget) (value : Value) (line : Nat)
    (s : State) : EStateM.Result (Halt RuntimeError) State Unit → Prop
  | nothing {halt} : AllOrNothing ev env target value line s (.error halt s)
  | all {name stored t} (leads : LeadsTo ev env s value line target name stored)
      (assigned : s.assignVariable name stored line = .ok t) : AllOrNothing ev env target value line s (.ok () t)

section

variable {target : AssignTarget} {value : Value} {line : Nat}

/-- What is evaluated first changes nothing. -/
theorem AllOrNothing.behind {x : Eval α} {f : α → Eval Unit} (quiet : x.after s = s)
    (h : ∀ a, x s = .ok a s → AllOrNothing ev env target value line s (f a s)) :
    AllOrNothing ev env target value line s ((x >>= f) s) := by
  cases hx : x s with
  | error halt t =>
    obtain rfl : t = s := by rw [← Run.after_error hx, quiet]
    rw [Run.bind_error hx]
    exact .nothing
  | ok a t =>
    obtain rfl : t = s := by rw [← Run.after_ok hx, quiet]
    rw [Run.bind_ok hx]
    exact h a hx

theorem AllOrNothing.unless {c : Prop} [Decidable c] {cause : RuntimeError} {f : Unit → Eval Unit}
    (h : AllOrNothing ev env target value line s (f () s)) :
    AllOrNothing ev env target value line s ((if c then Run.fail cause >>= f else f ()) s) := by
  split
  · exact .nothing
  · exact h

theorem AllOrNothing.update {name : String} {stored : Value} (leads : LeadsTo ev env s value line target name stored) :
    AllOrNothing ev env target value line s (Run.update (·.assignVariable name stored line) s) := by
  cases assigned : s.assignVariable name stored line with
  | error cause => rw [Run.update_error assigned]; exact .nothing
  | ok t => rw [Run.update_ok assigned]; exact .all leads assigned

/-- **An assignment to a target that calls nothing happens or does not.** -/
theorem Quiet.assign (quiet : Quiet ev env s) (free : target.CallFree s.functions) :
    AllOrNothing ev env target value line s (ev.assign env target value line s) := by
  cases target with
  | «variable» name => exact .update .variable
  | path root steps =>
    refine .behind (Run.after_get s) fun _ here => ?_
    cases here
    refine .unless ?_
    cases found : s.lookup root with
    | none => exact .nothing
    | some current =>
      refine .behind (quiet.evalKeys free) fun keys keyed => ?_
      cases kept : Operator.storeAt current keys value line with
      | error cause => exact .nothing
      | ok stored => exact .update (.path found keyed kept)
  | deref pointer =>
    refine .behind (quiet.eval pointer free) fun v points => ?_
    cases v with
    | namedPointer name => exact .update (.deref points)
    | _ => exact .nothing

end

/-- **Assigning to a name and looking names up agree**, and an assignment to a
target that calls nothing happens as a whole or not at all. -/
theorem assign_agrees (n : Nat) (env : Environment) {s : State} (opened : s.scopes ≠ []) (value : Value) (line : Nat) :
    (∀ name, s.Agrees name value line ((within n).assign env (.variable name) value line)) ∧
    ∀ target, target.CallFree s.functions →
      AllOrNothing (within n) env target value line s ((within n).assign env target value line s) :=
  ⟨fun name => s.agrees_update opened name value line, fun _ free => (within_quiet n env s).assign free⟩

/-- A text assigned to an integer is read as one, and put into a list it stays a
text. -/
theorem assign_agrees_text :
    let s : State := { scopes := [[("i", .integer 0), ("xs", .list [.integer 1, .integer 2])]] }
    let last : AssignTarget := .path "xs" [.index (.binary (.variable "i" 1) .add (.literal (.integer 1) 1) 1)]
    s.scopes ≠ [] ∧ last.CallFree s.functions ∧
    s.Agrees "i" (.string "7") 1 ((within 8).assign {} (.variable "i") (.string "7") 1) ∧
    (∃ t, (within 8).assign {} (.variable "i") (.string "7") 1 s = .ok () t ∧ t.lookup "i" = some (.integer 7)) ∧
    AllOrNothing (within 8) {} last (.string "7") 1 s ((within 8).assign {} last (.string "7") 1 s) ∧
    ∃ t, (within 8).assign {} last (.string "7") 1 s = .ok () t ∧
      t.lookup "xs" = some (.list [.integer 1, .string "7"]) := by
  intro s last
  have opened : s.scopes ≠ [] := List.cons_ne_nil _ _
  have free : last.CallFree s.functions := by
    intro e he
    obtain ⟨rfl⟩ := List.mem_singleton.mp he
    exact .binary .variable .literal
  obtain ⟨agrees, whole⟩ := assign_agrees 8 {} opened (.string "7") 1
  exact ⟨opened, free, agrees "i", ⟨_, rfl, rfl⟩, whole last free, _, rfl, rfl⟩

end Evaluator

end Guion
