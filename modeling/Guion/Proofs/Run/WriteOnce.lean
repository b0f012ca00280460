/-
What a program defines, it defines once.

Constants and functions have stores of their own. Two changes write to them,
the declaration of a constant and the definition of a function, and both
refuse a name that the store has; everything else that a run does leaves them
alone, and a sub-program has its own. So the stores only grow (`kept_upheld`).

A constant is looked up before anything else, so what is read under its name
stays the same too. A call looks for a function of the program first and for a
built-in one then (`callNamed_eq`). The definition of a function refuses the
names of the built-in ones, so a name that calls something calls the same for
the rest of the run.
-/
import Guion.Proofs.Entries
import Guion.Proofs.Run.Stack

namespace Guion

open Evaluator

/-- Every name of the first map has its value in the second one. -/
def Entries.Extends (entries more : Entries α) : Prop :=
  ∀ name value, Entries.get? name entries = some value → Entries.get? name more = some value

theorem Entries.extends_insert {entries : Entries α} {name : String} (free : Entries.get? name entries = none)
    (value : α) : Entries.Extends entries (Entries.insert name value entries) := by
  intro other found h
  have hn : other ≠ name := by rintro rfl; rw [free] at h; cases h
  rwa [Entries.get?_insert_of_ne hn]

/-! ## What a name calls -/

/-- What a call may find under a name. -/
inductive Callee where
  | defined (function : FunctionDef)
  | builtin (builtin : Builtin)

namespace State

/-- What a name calls: a function of the program in its exact spelling, else a
built-in function in any case. -/
def callee? (name : String) (s : State) : Option Callee :=
  match Entries.get? name s.functions with
  | some function => some (.defined function)
  | none => (Entries.get? (Text.lowerString name) Library.table).map .builtin

theorem callee?_congr {name : String} {s t : State}
    (h : Entries.get? name t.functions = Entries.get? name s.functions) : t.callee? name = s.callee? name := by
  rw [callee?, callee?, h]

/-- No function of the program has the name of a built-in one, in any case. -/
def Unreserved (s : State) : Prop :=
  ∀ name function, Entries.get? name s.functions = some function →
    Library.isBuiltin (Text.lowerString name) = false

end State

/-- Calls what was found under a name. -/
def Evaluator.callFound (ev : Evaluator) (env : Environment) (name : String) (arguments : List Value)
    (line : Nat) : Option Callee → Eval (Option Value)
  | none => return none
  | some (.defined function) => return some (← ev.callDefined env function arguments line)
  | some (.builtin builtin) =>
    if builtin.arity.accepts arguments.length then
      return some (← callBuiltin env builtin name arguments line)
    else Run.fail (.argumentCountMismatch name builtin.arity.display arguments.length line)

/-- A call by name calls what the name stands for in the state. -/
theorem Evaluator.callNamed_eq (ev : Evaluator) (env : Environment) (name : String) (arguments : List Value)
    (line : Nat) (s : State) : ev.callNamed env name arguments line s =
      ev.callFound env name arguments line (s.callee? name) s := by
  refine (Run.bind_ok (x := get) rfl).trans ?_
  unfold State.callee?
  cases Entries.get? name s.functions with
  | some function => rfl
  | none => cases Entries.get? (Text.lowerString name) Library.table <;> rfl

/-- What is listed under a name in lower case is found under the name. -/
theorem Library.get?_table {name : String} {builtin : Builtin} (lower : Text.lowerString name = name)
    (listed : (name, builtin) ∈ functions ++ conversions ++ methods)
    (only : ∀ e ∈ functions ++ conversions ++ methods, e.1 = name → e.2 = builtin) :
    Entries.get? (Text.lowerString name) table = some builtin := by
  rw [lower]
  exact Entries.get?_ofList listed only

theorem State.callee?_builtin {s : State} {name : String} {builtin : Builtin} (free : Entries.get? name s.functions = none)
    (listed : Entries.get? (Text.lowerString name) Library.table = some builtin) :
    s.callee? name = some (.builtin builtin) := by
  rw [callee?, free, listed]
  rfl

/-- Where no function of the program has a reserved name, that of a built-in
function calls it. -/
theorem State.Unreserved.callee? {s : State} (h : s.Unreserved) {name : String} {builtin : Builtin}
    (listed : Entries.get? (Text.lowerString name) Library.table = some builtin) :
    s.callee? name = some (.builtin builtin) := by
  cases defined : Entries.get? name s.functions with
  | none => exact callee?_builtin defined listed
  | some function =>
    have free := h name function defined
    rw [Library.isBuiltin, Entries.contains, listed] at free
    cases free

/-- A call that must find a function is that of the built-in function it finds. -/
theorem Evaluator.callKnown_builtin {ev : Evaluator} {env : Environment} {name : String} {arguments : List Value}
    {line : Nat} {unknown : RuntimeError} {builtin : Builtin} {s : State} (h : s.callee? name = some (.builtin builtin))
    (accepts : builtin.arity.accepts arguments.length = true) :
    ev.callKnown env name arguments line unknown s = callBuiltin env builtin name arguments line s := by
  have named : ev.callNamed env name arguments line s =
      (do return some (← callBuiltin env builtin name arguments line) : Eval (Option Value)) s := by
    rw [callNamed_eq, h, callFound, if_pos accepts]
  cases called : callBuiltin env builtin name arguments line s with
  | ok v t => exact (Run.bind_ok (named.trans (Run.bind_ok called))).trans rfl
  | error halt t => exact Run.bind_error (named.trans (Run.bind_error called))

/-- So is a call with expressions, if nothing is written back. -/
theorem Evaluator.call_builtin {ev : Evaluator} {env : Environment} {name : String} {es : List Expr}
    {arguments : List Value} {line : Nat} {unknown : RuntimeError} {builtin : Builtin} {s t : State}
    (evaluated : ev.evalAll env es s = .ok arguments t) (h : t.callee? name = some (.builtin builtin))
    (accepts : builtin.arity.accepts arguments.length = true)
    (plain : Library.isMutator (Text.lowerString name) = false) :
    ev.call env name es line unknown s = callBuiltin env builtin name arguments line t := by
  have called : ev.callKnown env name arguments line unknown t = _ := callKnown_builtin h accepts
  refine (Run.bind_ok evaluated).trans ?_
  rw [plain]
  cases result : callBuiltin env builtin name arguments line t with
  | ok v u => exact (Run.bind_ok (called.trans result)).trans rfl
  | error halt u => exact Run.bind_error (called.trans result)

/-! ## What stays -/

namespace State

/-- What was defined before is defined behind. -/
structure Upheld (s t : State) : Prop where
  constants : Entries.Extends s.constants t.constants
  functions : Entries.Extends s.functions t.functions
  callees : ∀ name callee, s.callee? name = some callee → t.callee? name = some callee
  unreserved : s.Unreserved → t.Unreserved

/-- Nothing is defined. -/
theorem Upheld.of_eq {s t : State} (constants : t.constants = s.constants) (functions : t.functions = s.functions) :
    s.Upheld t := by
  refine ⟨fun _ _ h => constants ▸ h, fun _ _ h => functions ▸ h, fun name callee h => ?_, fun h => ?_⟩
  · exact (callee?_congr (congrArg (Entries.get? name) functions)).trans h
  · unfold Unreserved
    rw [functions]
    exact h

theorem Upheld.trans {s t u : State} (h : s.Upheld t) (h' : t.Upheld u) : s.Upheld u where
  constants name value hv := h'.constants name value (h.constants name value hv)
  functions name function hf := h'.functions name function (h.functions name function hf)
  callees name callee hc := h'.callees name callee (h.callees name callee hc)
  unreserved hs := h'.unreserved (h.unreserved hs)

theorem Effect.upheld {s t : State} (h : Effect s t) : s.Upheld t := by
  cases h with
  | print line => exact .of_eq rfl rfl
  | identity => exact .of_eq rfl rfl
  | delete h => rw [delete_eq_ok h]; exact .of_eq rfl rfl
  | assign h => cases assigned_of_assignVariable h <;> exact .of_eq rfl rfl

/-- A new constant. -/
theorem upheld_constant {s : State} {name : String} (free : Entries.contains name s.constants = false) (value : Value) :
    s.Upheld { s with constants := Entries.insert name value s.constants } where
  constants := Entries.extends_insert (by simpa [Entries.contains] using free) value
  functions _ _ h := h
  callees _ _ h := h
  unreserved h := h

/-- A new function: its name called nothing before. -/
theorem upheld_defineFunction {s t : State} {function : FunctionDef} (h : defineFunction function s = .ok t) : s.Upheld t := by
  obtain ⟨unreserved, unused⟩ := free_of_defineFunction h
  rw [defineFunction_eq_ok h]
  have elsewhere := fun {other} (hn : other ≠ function.signature.name) =>
    Entries.get?_insert_of_ne hn function s.functions
  refine ⟨fun _ _ hv => hv, Entries.extends_insert unused function, fun name callee hc => ?_,
    fun hs name found hf => ?_⟩
  · have uncalled : s.callee? function.signature.name = none := by
      have unknown : Entries.get? (Text.lowerString function.signature.name) Library.table = none :=
        Entries.contains_eq_false.mp unreserved
      rw [callee?, unused, unknown]
      rfl
    have hn : name ≠ function.signature.name := by rintro rfl; rw [uncalled] at hc; cases hc
    exact (callee?_congr (elsewhere hn)).trans hc
  · by_cases hn : name = function.signature.name
    · rw [hn]; exact unreserved
    · exact hs name found (elsewhere hn ▸ hf)

theorem Change.upheld {s t : State} (h : Change s t) : s.Upheld t := by
  cases h with
  | effect h => exact h.upheld
  | define h => exact upheld_defineFunction h
  | merge own => exact .of_eq rfl rfl
  | bindLoop name value =>
    obtain ⟨scopes, he, -⟩ := bindLoopVariable_eq name value s
    rw [he]
    exact .of_eq rfl rfl
  | declare h =>
    cases declared_of_declareName h with
    | «local» value =>
      obtain ⟨scopes, he, -⟩ := defineLocal_eq _ value s
      rw [he]
      exact .of_eq rfl rfl
    | @«variable» _ stored registry =>
      obtain ⟨scopes, he, -⟩ := defineLocal_eq _ stored { s with registry := registry }
      rw [he]
      exact .of_eq rfl rfl
    | global value => exact .of_eq rfl rfl
    | constant value free => exact upheld_constant free value

/-- What is entered has the definitions of what is around it, and so has what is
left: only a program has others. -/
theorem kept_upheld : Kept Upheld where
  refl s := .of_eq rfl rfl
  trans := .trans
  change := Change.upheld
  enclose {s t _ _} he h := by
    cases he with
    | block =>
      obtain ⟨scopes, hp, -⟩ := popScope_eq t
      show s.Upheld t.popScope
      rw [hp]
      exact ⟨h.constants, h.functions, h.callees, h.unreserved⟩
    | _ => exact ⟨h.constants, h.functions, h.callees, h.unreserved⟩
  program _ _ := .of_eq rfl rfl

/-! ## Runs -/

/-- One state leads to another: by a statement, an expression, the statements of
a program, or one after the other; however these end. -/
inductive Leads : State → State → Prop
  | exec (n : Nat) (env : Environment) (st : Statement) (s : State) :
      Leads s (((within n).exec env st).after s)
  | eval (n : Nat) (env : Environment) (e : Expr) (s : State) : Leads s (((within n).eval env e).after s)
  | topLevel (n : Nat) (env : Environment) (origin : Option String) (depth : Nat) (sts : List Statement)
      (s : State) : Leads s (((within n).topLevel env origin depth sts).after s)
  | trans {s t u} (first : Leads s t) (second : Leads t u) : Leads s u

theorem Leads.upheld {s t : State} (h : Leads s t) : s.Upheld t := by
  induction h with
  | exec n env st s => exact (kept_upheld.within n).exec env st s
  | eval n env e s => exact (kept_upheld.within n).eval env e s
  | topLevel n env origin depth sts s =>
    exact Related.topLevel kept_upheld.executable (kept_upheld.within n) env origin depth sts s
  | trans _ _ first second => exact first.trans second

/-- The states of a run: a program starts without definitions, and comes from
there through whole computations and into the inside of blocks, loops and
calls. -/
inductive Reached : State → Prop
  | start {s} (constants : s.constants = []) (functions : s.functions = []) : Reached s
  | leads {s t} (before : Reached s) (h : Leads s t) : Reached t
  | enter {s enter leave} (before : Reached s) (h : Encloses enter leave s) : Reached (enter s)

theorem Reached.unreserved {s : State} (h : Reached s) : s.Unreserved := by
  induction h with
  | start _ functions => intro name function hf; rw [functions] at hf; cases hf
  | leads _ h ih => exact h.upheld.unreserved ih
  | enter _ h ih => cases h <;> exact ih

/-- **Constants and functions are defined once.** From every state of a run to
every later one: a constant keeps its value and is what its name reads, a
function keeps its definition and never has the name of a built-in one, and a
name that calls something goes on to call the same. -/
theorem Leads.writeOnce {s t : State} (reached : Reached s) (h : Leads s t) :
    (∀ name value, Entries.get? name s.constants = some value →
      Entries.get? name t.constants = some value ∧ s.lookup name = some value ∧ t.lookup name = some value) ∧
    (∀ name function, Entries.get? name s.functions = some function →
      Entries.get? name t.functions = some function ∧ Library.isBuiltin (Text.lowerString name) = false) ∧
    ∀ name callee, s.callee? name = some callee → ∀ ev env arguments line, ∀ u ∈ [s, t],
      Evaluator.callNamed ev env name arguments line u =
        Evaluator.callFound ev env name arguments line (some callee) u := by
  have read : ∀ {u : State} {name value}, Entries.get? name u.constants = some value →
      u.lookup name = some value := fun hv => by rw [lookup, hv]
  refine ⟨fun name value hv => ?_, fun name function hf => ?_, fun name callee hc ev env arguments line u hu => ?_⟩
  · have later := h.upheld.constants name value hv
    exact ⟨later, read hv, read later⟩
  · exact ⟨h.upheld.functions name function hf, reached.unreserved name function hf⟩
  · have called : u.callee? name = some callee := by
      simp only [List.mem_cons, List.not_mem_nil, or_false] at hu
      obtain rfl | rfl := hu
      · exact hc
      · exact h.upheld.callees name callee hc
    rw [callNamed_eq, called]

/-- A constant, the name of which a loop binds, a block declares and an
assignment, which fails, writes to. -/
theorem Leads.writeOnce_loop :
    let constant : Statement := .declaration .constant none ["k"] (some (.literal (.integer 3) 1)) 1
    let loop : Statement := .forLoop "k" (.collection (.list [.literal (.integer 4) 2] 2))
      (.mk [.declaration .variable none ["k"] (some (.literal (.integer 5) 3)) 3,
        .assignment (.variable "k") (.literal (.integer 6) 4) 4] 3) 2
    let s : State := ((within 3).exec {} constant).after { toWorld := {}, toContext := .initial [] }
    let t : State := ((within 6).topLevel {} none 0 [loop]).after s
    (Reached s ∧ Leads s t) ∧ Entries.get? "k" t.constants = some (.integer 3) ∧
      t.lookup "k" = some (.integer 3) ∧ t.registry.get? "k" = some (.integer 5) := by
  intro constant loop s t
  have reached : Reached s := .leads (.start rfl rfl) (.exec 3 {} constant _)
  have leads : Leads s t := .topLevel 6 {} none 0 [loop] s
  obtain ⟨kept, -, read⟩ := (Leads.writeOnce reached leads).1 "k" (.integer 3) rfl
  exact ⟨⟨reached, leads⟩, kept, read, rfl⟩

end State
end Guion
