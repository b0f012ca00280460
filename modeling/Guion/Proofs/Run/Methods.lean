/-
What `agregar` does to the list that it is called on.

A method is called on what its receiver comes to at the end of all pointers. It
writes its result back to a place that is worked out apart from that: to the
variable that the value of the receiver points to, if it is a pointer, else to
the variable or the path that the receiver is. `Receives` are the receivers for
which the two agree: a variable, or a path through lists and dictionaries, that
holds the list itself, and any expression that points to a variable which does.
Then the list grows where it stands, and nothing else changes
(`append_writes_back`). Where a pointer leads to another pointer, or a path goes
through one, the list is found and the write goes elsewhere: it fails
(`append_misses`).
-/
import Guion.Proofs.Run.Stores

namespace Guion

namespace Operator

/-! ## Lists inside of collections -/

/-- The list stands at the end of the keys, with lists and dictionaries on the way
to it. -/
inductive ListAt (items : List Value) : Value → List Key → Prop
  | here : ListAt items (.list items) []
  | inside {c item key slot rest} (collection : c.kind = .list ∨ c.kind = .dictionary)
      (leads : Slot.of? c key = some slot) (holds : Slot.get? c slot = some item) (inner : ListAt items item rest) :
      ListAt items c (key :: rest)

/-- Whatever a slot of a list or a dictionary holds can be replaced. -/
theorem Slot.exists_put {c item : Value} {slot : Slot} (collection : c.kind = .list ∨ c.kind = .dictionary)
    (holds : get? c slot = some item) (v : Value) : ∃ c', Put c slot v c' := by
  cases c with
  | list items =>
    cases slot with
    | position n => exact ⟨_, .list (List.getElem?_eq_some_iff.mp holds).1⟩
    | entry name => cases holds
  | dictionary entries =>
    cases slot with
    | position n => cases holds
    | entry name => exact ⟨_, .entry⟩
  | _ => obtain h | h := collection <;> cases h

namespace ListAt

variable {items : List Value} {c : Value} {keys : List Key}

theorem collection (h : ListAt items c keys) : c.kind = .list ∨ c.kind = .dictionary := by
  cases h with
  | here => exact .inl rfl
  | inside collection => exact collection

theorem read (h : ListAt items c keys) (line : Nat) : readAt c keys line = .ok (.list items) := by
  induction h with
  | here => rfl
  | inside _ leads holds _ ih => exact readAt_cons_eq_ok.mpr ⟨_, _, leads, holds, ih⟩

/-- The list can be replaced, and its collections with it. -/
theorem exists_stores (h : ListAt items c keys) (v : Value) : ∃ c', Stores v c keys c' := by
  induction h with
  | here => exact ⟨v, .here⟩
  | @inside c item key slot rest collection leads holds inner ih =>
    obtain ⟨stored, stores⟩ := ih
    obtain ⟨c', put⟩ := Slot.exists_put collection holds stored
    refine ⟨c', stores_cons.mpr ⟨slot, stored, leads, ?_, put⟩⟩
    cases rest with
    | nil => cases stores; rfl
    | cons next rest => exact ⟨item, holds, stores⟩

/-- The container of the list keeps its kind when the list is replaced by another. -/
theorem kind_eq (h : ListAt items c keys) {more : List Value} {c' : Value} (stores : Stores (.list more) c keys c') :
    c'.kind = c.kind := by
  cases h with
  | here => cases stores; rfl
  | inside => exact stores.kind_eq (List.cons_ne_nil _ _)

end ListAt

end Operator

namespace Evaluator

open Operator (Key ListAt Replaced readAt storeAt)

variable {ev : Evaluator} {env : Environment} {s t : State}

/-! ## Depth

What is evaluated within a depth is evaluated within any greater one. -/

section Depth

variable {n m : Nat}

theorem ok_of_outlasting {ε α : Type} {x y : Run ε α} {a : α} (h : outlasting s x y) (ok : x s = .ok a t) :
    y s = .ok a t := by
  obtain ⟨u, short⟩ | same := h
  · rw [ok] at short; cases short
  · rw [← same, ok]

theorem outlasts (deep : n ≤ m) (env : Environment) : EvalRelated outlasting env (within n) (within m) :=
  (within_outlasting deep).evalRelated outlasting_executable env

theorem eval_of_le (deep : n ≤ m) {e : Expr} {v : Value} (ok : (within n).eval env e s = .ok v t) :
    (within m).eval env e s = .ok v t :=
  ok_of_outlasting ((outlasts deep env).eval e s) ok

theorem evalAll_of_le (deep : n ≤ m) {es : List Expr} {vs : List Value} (ok : (within n).evalAll env es s = .ok vs t) :
    (within m).evalAll env es s = .ok vs t :=
  ok_of_outlasting ((outlasts deep env).evalAll outlasting_executable.toEvaluable es s) ok

theorem evalKeys_of_le (deep : n ≤ m) {steps : List Accessor} {keys : List Key}
    (ok : (within n).evalKeys env steps s = .ok keys t) : (within m).evalKeys env steps s = .ok keys t :=
  ok_of_outlasting ((outlasts deep env).evalKeys outlasting_executable.toEvaluable steps s) ok

end Depth

/-! ## Paths -/

theorem evalAll_length {es : List Expr} {vs : List Value} (h : ev.evalAll env es s = .ok vs t) :
    vs.length = es.length := by
  induction es generalizing vs s with
  | nil => cases h; rfl
  | cons e rest ih =>
    obtain ⟨v, u, -, h⟩ := Run.bind_eq_ok.mp h
    obtain ⟨vs, u, evaluated, h⟩ := Run.bind_eq_ok.mp h
    cases h
    rw [List.length_cons, List.length_cons, ih evaluated]

theorem evalKeys_concat_eq_ok {steps : List Accessor} {step : Accessor} {keys : List Key}
    (h : ev.evalKeys env (steps ++ [step]) s = .ok keys t) :
    ∃ before last u, ev.evalKeys env steps s = .ok before u ∧ ev.evalKeys env [step] u = .ok [last] t ∧
      keys = before ++ [last] := by
  induction steps generalizing s keys with
  | nil =>
    have one := evalKeys_length h
    obtain ⟨last, rfl⟩ := List.length_eq_one_iff.mp one
    exact ⟨[], last, s, rfl, h, rfl⟩
  | cons first rest ih =>
    cases first with
    | index e =>
      obtain ⟨v, u, evaluated, h⟩ := Run.bind_eq_ok.mp h
      obtain ⟨keys, u, more, h⟩ := Run.bind_eq_ok.mp h
      cases h
      obtain ⟨before, last, w, front, back, rfl⟩ := ih more
      exact ⟨.index v :: before, last, w, (Run.bind_ok evaluated).trans (Run.bind_ok front), back, rfl⟩
    | field name =>
      obtain ⟨keys, u, more, h⟩ := Run.bind_eq_ok.mp h
      cases h
      obtain ⟨before, last, w, front, back, rfl⟩ := ih more
      exact ⟨.field name :: before, last, w, Run.bind_ok front, back, rfl⟩

theorem readAt_concat_eq_ok {c item : Value} {before : List Key} {last : Key} {line : Nat} :
    readAt c (before ++ [last]) line = .ok item ↔
      ∃ container, readAt c before line = .ok container ∧ Operator.step container line last = .ok item := by
  induction before generalizing c with
  | nil => simp [readAt, Except.bind_eq_ok]
  | cons key rest ih =>
    rw [List.cons_append, readAt, readAt, Except.bind_eq_ok]
    simp only [Except.bind_eq_ok, ih]
    constructor
    · rintro ⟨next, taken, container, read, stepped⟩
      exact ⟨container, ⟨next, taken, read⟩, stepped⟩
    · rintro ⟨container, ⟨next, taken, read⟩, stepped⟩
      exact ⟨next, taken, container, read, stepped⟩

/-- What has slots is no pointer. -/
theorem follow_of_step {c item : Value} {key : Key} {line line' : Nat} (h : Operator.step c line key = .ok item) :
    s.follow c line' = .ok c := by
  obtain ⟨slot, leads, -⟩ := Operator.step_eq_ok.mp h
  cases c with
  | list | matrix | text | string | dictionary => rfl
  | _ => cases key <;> cases leads

theorem step_line {c item : Value} {key : Key} {line : Nat} (h : Operator.step c line key = .ok item) (line' : Nat) :
    Operator.step c line' key = .ok item :=
  Operator.step_eq_ok.mpr (Operator.step_eq_ok.mp h)

/-- The value of a path is what is read along its keys: none of the containers on
the way is a pointer. -/
theorem eval_path {n : Nat} {e : Expr} {root : String} {steps : List Accessor} {current item : Value} {keys : List Key}
    {line : Nat} (path : e.path? = some (root, steps)) (found : s.lookup root = some current)
    (keyed : (within n).evalKeys env steps s = .ok keys t) (read : readAt current keys line = .ok item) {m : Nat}
    (deep : n + steps.length + 1 ≤ m) : (within m).eval env e s = .ok item t := by
  induction e using Expr.path?.induct generalizing steps keys item t m with
  | case1 name _ =>
    cases path
    cases keyed
    cases read
    obtain ⟨m, rfl⟩ : ∃ k, m = k + 1 := ⟨m - 1, by omega⟩
    show (within m).expression env (.variable root _) s = _
    refine (Run.bind_ok (x := get) rfl).trans ?_
    rw [found]
    rfl
  | case2 target i line' ih =>
    obtain ⟨⟨_, front⟩, inner, he⟩ := Option.map_eq_some_iff.mp path
    cases he
    obtain ⟨before, last, u, first, second, rfl⟩ := evalKeys_concat_eq_ok keyed
    obtain ⟨container, reached, stepped⟩ := readAt_concat_eq_ok.mp read
    rw [List.length_append, List.length_singleton] at deep
    obtain ⟨m, rfl⟩ : ∃ k, m = k + 1 := ⟨m - 1, by omega⟩
    obtain ⟨v, w, evaluated, second⟩ := Run.bind_eq_ok.mp second
    cases second
    refine (Run.bind_ok (ih inner first reached (by omega))).trans ?_
    refine (Run.bind_ok (eval_of_le (by omega) evaluated)).trans ?_
    refine (Run.bind_ok (Run.read_ok (follow_of_step stepped))).trans ?_
    show Run.ofExcept (Operator.step container line' (.index v)) _ = _
    rw [step_line stepped]
    rfl
  | case3 target f line' ih =>
    obtain ⟨⟨_, front⟩, inner, he⟩ := Option.map_eq_some_iff.mp path
    cases he
    obtain ⟨before, last, u, first, second, rfl⟩ := evalKeys_concat_eq_ok keyed
    obtain ⟨container, reached, stepped⟩ := readAt_concat_eq_ok.mp read
    rw [List.length_append, List.length_singleton] at deep
    obtain ⟨m, rfl⟩ : ∃ k, m = k + 1 := ⟨m - 1, by omega⟩
    cases second
    refine (Run.bind_ok (ih inner first reached (by omega))).trans ?_
    refine (Run.bind_ok (Run.read_ok (follow_of_step stepped))).trans ?_
    show Run.ofExcept (Operator.step container line' (.field f)) _ = _
    rw [step_line stepped]
    rfl
  | case4 e => simp [Expr.path?] at path

/-! ## The call -/

theorem get?_table_append : Entries.get? (Text.lowerString "lista.agregar") Library.table = some (.pure .append) :=
  Library.get?_table (by decide +kernel) (by decide +kernel) (by decide +kernel)

theorem callKnown_append (unreserved : s.Unreserved) {items values : List Value} (some : values ≠ []) (line : Nat)
    (unknown : RuntimeError) :
    ev.callKnown env "lista.agregar" (.list items :: values) line unknown s = .ok (.list (items ++ values)) s := by
  have accepts : (Builtin.pure .append).arity.accepts (.list items :: values).length = true := by
    cases values with
    | nil => exact absurd rfl some
    | cons v rest => simp [Builtin.arity, PureFunction.arity, Arity.accepts]
  rw [callKnown_builtin (unreserved.callee? get?_table_append) accepts]
  rfl

/-- The call comes down to what is written back. -/
theorem callMethod_append (unreserved : t.Unreserved) {receiver : Expr} {v : Value} {items : List Value} {line : Nat}
    (received : ev.eval env receiver s = .ok v t) (follows : t.follow v line = .ok (.list items))
    {arguments : List Expr} {values : List Value} (evaluated : ev.evalAll env arguments t = .ok values t)
    (some : arguments ≠ []) : ev.callMethod env receiver "agregar" arguments line s =
      (do
        ev.writeBack env (methodPlace? receiver v) (.list (items ++ values)) line
        return Value.list (items ++ values)) t := by
  have nonempty : values ≠ [] := by
    rintro rfl
    exact some (List.length_eq_zero_iff.mp (evalAll_length evaluated).symm)
  refine (Run.bind_ok received).trans ((Run.bind_ok (Run.read_ok follows)).trans ?_)
  exact (Run.bind_ok evaluated).trans (Run.bind_ok (callKnown_append unreserved nonempty line _))

/-! ## The place that is written -/

/-- A list or a dictionary is coerced to its own kind without a change. -/
theorem coerce_collection {v : Value} (collection : v.kind = .list ∨ v.kind = .dictionary) :
    v.coerce v.kind = .ok v := by
  cases v with
  | list | dictionary => rfl
  | _ => obtain h | h := collection <;> cases h

/-- A variable takes its list or dictionary with another list in it as it is. -/
theorem coerce_stored {items more : List Value} {keys : List Key} {current stored : Value}
    (leads : ListAt items current keys) (stores : Operator.Stores (.list more) current keys stored) :
    stored.coerce current.kind = .ok stored := by
  have same := leads.kind_eq stores
  rw [← same]
  exact coerce_collection (same ▸ leads.collection)

/-- A receiver that is a path is written along its keys. -/
theorem writeBack_path {receiver : Expr} {root : String} {steps : List Accessor} {v current stored : Value}
    {keys : List Key} {line : Nat} (path : receiver.path? = some (root, steps))
    (free : Entries.get? root s.constants = none) (found : s.lookup root = some current)
    (keyed : ev.evalKeys env steps s = .ok keys s) (stores : Operator.Stores v current keys stored)
    (assigned : s.assignVariable root stored line = .ok t) :
    ev.writeBack env receiver.place? v line s = .ok () t := by
  cases steps with
  | nil =>
    cases keyed
    cases stores
    rw [Expr.place?, path]
    exact Run.update_ok assigned
  | cons step rest =>
    rw [Expr.place?, path]
    exact assign_path_eq_ok.mpr ⟨Entries.contains_eq_false.mpr free, current, keys, s, stored, found, keyed,
      Operator.storeAt_eq_ok.mpr stores, assigned⟩

/-! ## Receivers -/

theorem follow_pointer {name : String} {items : List Value} (found : s.lookup name = some (.list items)) (line : Nat) :
    s.follow (.namedPointer name) line = .ok (.list items) := by
  have pointer : (Value.namedPointer name).isPointer = true := rfl
  rw [State.follow, State.maxCallDepth, State.followWithin, if_pos pointer, State.deref, found]
  rfl

/-- Receivers that come to a list where they are written to. The list is at the end
of the keys in the variable `root`, which holds `current` in the state that the
receiver leaves. -/
inductive Receives (n : Nat) (env : Environment) (receiver : Expr) (items : List Value) (s : State) :
    String → List Key → Value → State → Prop
  /-- The receiver is a variable or a path, through lists and dictionaries only. Its
  indexes are evaluated twice, and leave the state as it is. -/
  | path {root steps keys current} (names : receiver.path? = some (root, steps))
      (found : s.lookup root = some current) (keyed : (within n).evalKeys env steps s = .ok keys s)
      (leads : ListAt items current keys) : Receives n env receiver items s root keys current s
  /-- The receiver, which may be any expression, points to the variable that holds
  the list itself. -/
  | pointer {root t} (points : (within n).eval env receiver s = .ok (.namedPointer root) t)
      (found : t.lookup root = some (.list items)) : Receives n env receiver items s root [] (.list items) t

section

variable {n m : Nat} {receiver : Expr} {items : List Value} {root : String} {keys : List Key} {current : Value}

theorem Receives.listAt (h : Receives n env receiver items s root keys current t) : ListAt items current keys := by
  cases h with
  | path _ _ _ leads => exact leads
  | pointer => exact .here

theorem Receives.lookup (h : Receives n env receiver items s root keys current t) : t.lookup root = some current := by
  cases h <;> assumption

/-- The receiver is evaluated to the list, or to a pointer to it. -/
theorem Receives.eval (h : Receives n env receiver items s root keys current t) (deep : n + keys.length + 1 ≤ m) :
    ∃ v, (within m).eval env receiver s = .ok v t ∧ ∀ line, t.follow v line = .ok (.list items) := by
  cases h with
  | path names found keyed leads =>
    rw [evalKeys_length keyed] at deep
    exact ⟨_, eval_path names found keyed (leads.read 0) deep, fun line => rfl⟩
  | pointer points found =>
    exact ⟨_, eval_of_le (by omega) points, follow_pointer found⟩

/-- What the method writes back arrives where the list came from. -/
theorem Receives.writeBack (h : Receives n env receiver items s root keys current t)
    (free : Entries.get? root t.constants = none) {v : Value} (evaluated : (within m).eval env receiver s = .ok v t)
    (deep : n + keys.length + 1 ≤ m) {more : List Value} {stored : Value}
    (stores : Operator.Stores (.list more) current keys stored) {line : Nat} {u : State}
    (assigned : t.assignVariable root stored line = .ok u) :
    (within m).writeBack env (methodPlace? receiver v) (.list more) line t = .ok () u := by
  cases h with
  | path names found keyed leads =>
    rw [evalKeys_length keyed] at deep
    cases evaluated.symm.trans (eval_path names found keyed (leads.read 0) deep)
    exact writeBack_path names free found (evalKeys_of_le (by omega) keyed) stores assigned
  | pointer points found =>
    cases evaluated.symm.trans (eval_of_le (by omega) points)
    cases stores
    exact Run.update_ok assigned

/-- **The list grows where it stands.** `agregar` on a receiver that comes to a list
where it is written to gives the list with the arguments behind it, at every depth
that the receiver and the arguments ask for. The variable in which the list is found
holds it then, in the place of the old one; its mirror follows; and no other binding
has changed. -/
theorem append_writes_back (unreserved : s.Unreserved) (receives : Receives n env receiver items s root keys current t)
    (free : Entries.get? root t.constants = none) {arguments : List Expr} {values : List Value} {u : State}
    (some : arguments ≠ []) (quiet : ∀ e ∈ arguments, e.CallFree t.functions)
    (evaluated : (within n).evalAll env arguments t = .ok values u) (line : Nat) (deep : n + keys.length + 2 ≤ m) :
    ∃ store stored t', (within m).eval env (.methodCall receiver "agregar" arguments line) s =
        .ok (.list (items ++ values)) t' ∧
      State.Found root t store current ∧ State.Rewritten root store stored t t' ∧
      t'.lookup root = Option.some stored ∧ Replaced keys (.list (items ++ values)) current stored := by
  obtain ⟨m, rfl⟩ : ∃ k, m = k + 1 := ⟨m - 1, by omega⟩
  have here : u = t := by rw [← Run.after_ok evaluated, (within_quiet n env t).evalAll quiet]
  subst here
  obtain ⟨v, received, follows⟩ := receives.eval (m := m) (by omega)
  obtain ⟨stored, stores⟩ := receives.listAt.exists_stores (.list (items ++ values))
  have own := coerce_stored receives.listAt stores
  obtain ⟨t', assigned, reads⟩ := (State.assignVariable_of_bound free receives.lookup stored line).1 stored own
  obtain ⟨store, found⟩ := State.exists_found receives.lookup
  obtain ⟨_, kept, rewritten⟩ := State.rewritten_of_assignVariable assigned found
  cases own.symm.trans kept
  have unreserved : u.Unreserved := by
    rw [← Run.after_ok received]
    exact (State.Leads.eval m env receiver s).upheld.unreserved unreserved
  have written := receives.writeBack free received (by omega) stores assigned
  refine ⟨store, stored, t', ?_, found, rewritten, reads, stores.replaced⟩
  show (within m).callMethod env receiver "agregar" arguments line s = _
  rw [callMethod_append unreserved received (follows line) (evalAll_of_le (by omega) evaluated) some]
  exact (Run.bind_ok written).trans rfl

end

/-- A list inside a list inside a dictionary, and one behind a pointer. -/
theorem append_writes_back_nested :
    let d : Value := .dictionary [("xs", .list [.list [.integer 1]])]
    let s : State := { scopes := [[("d", d), ("l", .list []), ("p", .namedPointer "l")]] }
    let two : Expr := .literal (.integer 2) 1
    let first : Expr := .index (.field (.variable "d" 1) "xs" 1) (.literal (.integer 0) 1) 1
    let keys : List Key := [.field "xs", .index (.integer 0)]
    (∃ store stored t, (within 6).eval {} (.methodCall first "agregar" [two] 1) s =
        .ok (.list [.integer 1, .integer 2]) t ∧ State.Found "d" s store d ∧ State.Rewritten "d" store stored s t ∧
        t.lookup "d" = some stored ∧ Replaced keys (.list [.integer 1, .integer 2]) d stored) ∧
    (∃ store stored t, (within 6).eval {} (.methodCall (.variable "p" 1) "agregar" [two] 1) s =
        .ok (.list [.integer 2]) t ∧ State.Found "l" s store (.list []) ∧ State.Rewritten "l" store stored s t ∧
        t.lookup "l" = some stored ∧ Replaced [] (.list [.integer 2]) (.list []) stored) := by
  intro d s two first keys
  have unreserved : s.Unreserved := fun _ _ defined => by cases defined
  have free : ∀ e ∈ [two], e.CallFree s.functions := List.forall_mem_singleton.mpr .literal
  have some : [two] ≠ [] := List.cons_ne_nil _ _
  have leads : ListAt [.integer 1] d keys :=
    .inside (.inr rfl) rfl rfl (.inside (.inl rfl) rfl rfl .here)
  have element : Receives 2 {} first [.integer 1] s "d" keys d s := .path rfl rfl rfl leads
  have target : Receives 2 {} (.variable "p" 1) [] s "l" [] (.list []) s := .pointer rfl rfl
  exact ⟨append_writes_back unreserved element rfl some free rfl 1 (Nat.le_refl 6),
    append_writes_back unreserved target rfl some free rfl 1 (by decide)⟩

/-- Where the write goes elsewhere: `p` points to `q` and `q` to the list, and the
list would go into `q`; `r` points to a list of lists, and `r[0]` would be written
inside the pointer. Nothing is written then. -/
theorem append_misses :
    let lists : List (String × Value) :=
      [("l", .list [.list [.integer 1]]), ("p", .namedPointer "q"), ("q", .namedPointer "l"), ("r", .namedPointer "l")]
    let s : State := { scopes := [lists] }
    let two : Expr := .literal (.integer 2) 1
    let first : Expr := .index (.variable "r" 1) (.literal (.integer 0) 1) 1
    (s.follow (.namedPointer "q") 1 = .ok (.list [.list [.integer 1]]) ∧ Entries.get? "l" s.constants = none ∧
      (within 8).eval {} (.variable "p" 1) s = .ok (.namedPointer "q") s ∧
      (within 8).eval {} (.methodCall (.variable "p" 1) "agregar" [two] 1) s =
        .error (.failure (.conversion ⟨"[[1], 2]", "puntero", "use &variable o nulo"⟩ 1)) s) ∧
    ((within 8).eval {} first s = .ok (.list [.integer 1]) s ∧
      (within 8).eval {} (.methodCall first "agregar" [two] 1) s =
        .error (.failure (.notIndexable "puntero" 1)) s) := by
  intro lists s two first
  have unreserved : s.Unreserved := fun _ _ defined => by cases defined
  have call : ∀ {receiver : Expr} {v : Value} {items : List Value}, (within 7).eval {} receiver s = .ok v s →
      s.follow v 1 = .ok (.list items) → (within 8).eval {} (.methodCall receiver "agregar" [two] 1) s = _ :=
    fun received follows => callMethod_append unreserved received follows rfl (List.cons_ne_nil _ _)
  refine ⟨⟨rfl, rfl, rfl, ?_⟩, rfl, ?_⟩
  · rw [call rfl rfl]; rfl
  · rw [call rfl rfl]; rfl

end Evaluator
end Guion
