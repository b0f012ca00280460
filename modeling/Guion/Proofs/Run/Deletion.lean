/-
What `eliminar` removes.

A lookup stops at the innermost binding of a name. `eliminar` does not: it takes
the name out of the innermost scope that has it, out of the globals and out of the
symbols of the registry, all at once (`get?_of_delete`), and where no scope has the
name it gives the value of the symbol before that of the global. So it removes what
the name means, and its mirror, as long as no other global or symbol hides behind
that; and if one does, it is removed too, or given in the place of the value
(`delete_removes`, `delete_exposed`).
-/
import Guion.Proofs.Run.Stores

namespace Guion

namespace State

variable {s t : State} {name other : String} {store : Store} {value : Value} {line : Nat}

/-! ## Removing a variable -/

/-- Every store that a name can be removed from is a map. -/
structure Ordered (s : State) : Prop where
  scopes : Sorted s.scopes
  globals : Entries.Ascending s.globals
  symbols : Entries.Ascending s.registry.symbols

/-- The variable is gone, with all its copies; every other binding is what it
was. -/
structure Removed (name : String) (store : Store) (s t : State) : Prop where
  gone : ∀ copy, s.Keeps store copy → copy.get? name t = none
  others : ∀ place other, ¬ (other = name ∧ s.Keeps store place) → place.get? other t = place.get? other s
  functions : t.functions = s.functions

/-- A global or a symbol of the same name that is no copy of the variable. -/
def Hidden (name : String) (store : Store) (s : State) : Prop :=
  ∃ place, (place = .globals ∨ place = .symbols) ∧ ¬ s.Keeps store place ∧ place.get? name s ≠ none

/-- Where a deletion takes the name from: the innermost scope that has it, the
globals and the symbols. -/
def Cleared (name : String) (s : State) (place : Store) : Prop :=
  place = .globals ∨ place = .symbols ∨ ∃ i, place = .scope i ∧ scopeOf? name s.scopes = some i

/-- **A deletion reads neither what the name means nor where that stands.** -/
theorem get?_of_delete (ordered : s.Ordered) (h : s.delete name line = .ok (value, t)) (place : Store) (other : String) :
    (other = name ∧ Cleared name s place → place.get? other t = none) ∧
    (¬ (other = name ∧ Cleared name s place) → place.get? other t = place.get? other s) := by
  rw [delete_eq_ok h]
  cases place with
  | constants =>
    refine ⟨fun ⟨_, cleared⟩ => ?_, fun _ => rfl⟩
    obtain h | h | ⟨_, h, _⟩ := cleared <;> cases h
  | scope i =>
    have erased : bound other i (eraseLocal name s.scopes) = _ := bound_eraseLocal ordered.scopes
    have here : Cleared name s (.scope i) ↔ scopeOf? name s.scopes = some i := by simp [Cleared]
    rw [here]
    exact ⟨fun h => erased.trans (if_pos h), fun h => erased.trans (if_neg h)⟩
  | globals =>
    have erased : Entries.get? other (Entries.erase name s.globals) = _ := Entries.get?_erase ordered.globals
    exact ⟨fun h => erased.trans (if_pos h.1), fun h => erased.trans (if_neg fun same => h ⟨same, .inl rfl⟩)⟩
  | symbols =>
    have erased : Entries.get? other (Entries.erase name s.registry.symbols) = _ := Entries.get?_erase ordered.symbols
    exact ⟨fun h => erased.trans (if_pos h.1), fun h => erased.trans (if_neg fun same => h ⟨same, .inr (.inl rfl)⟩)⟩

theorem delete_constant (fixed : Entries.contains name s.constants = true) :
    s.delete name line = .error (.assignmentToConstant name line) := by
  rw [delete, if_pos fixed]

theorem delete_unbound (free : s.lookup name = none) : s.delete name line = .error (.unknownIdentifier name line) := by
  rw [lookup_eq_or] at free
  simp only [Option.or_eq_none_iff] at free
  obtain ⟨unfixed, inner, shared, unknown⟩ := free
  rw [delete, if_neg (Bool.eq_false_iff.mp (Entries.contains_eq_false.mpr unfixed)), inner, unknown, shared]

/-- The value that a deletion gives: of the innermost scope that has the name, else
of the symbol, else of the global. -/
theorem delete_eq_ok_iff {w : Value} (free : Entries.get? name s.constants = none) (line : Nat) :
    (∃ t, s.delete name line = .ok (w, t)) ↔
      (local? name s.scopes).or ((s.registry.get? name).or (Entries.get? name s.globals)) = some w := by
  rw [delete, if_neg (Bool.eq_false_iff.mp (Entries.contains_eq_false.mpr free))]
  cases local? name s.scopes with
  | some v => simp
  | none =>
    cases s.registry.get? name with
    | some v => simp
    | none => cases Entries.get? name s.globals <;> simp

/-- The scope from which a deletion takes the name is the one where it is found. -/
theorem Found.cleared (h : Found name s store value) (erasable : store ≠ .constants) : Cleared name s store := by
  cases h with
  | constant => exact absurd rfl erasable
  | «local» _ inner _ => exact .inr (.inr ⟨_, rfl, inner⟩)
  | global => exact .inl rfl
  | «symbol» => exact .inr (.inl rfl)

theorem Found.eq_scope {i : Nat} (h : Found name s store value) (erasable : store ≠ .constants)
    (inner : scopeOf? name s.scopes = some i) : store = .scope i := by
  cases h with
  | constant => exact absurd rfl erasable
  | «local» _ inner' _ => cases inner.symm.trans inner'; rfl
  | global _ outside _ => rw [inner] at outside; cases outside
  | «symbol» _ outside _ _ => rw [inner] at outside; cases outside

/-- What is not hidden is what a deletion gives. -/
theorem Found.value_eq {w : Value} (h : Found name s store value) (erasable : store ≠ .constants)
    (seen : ¬ Hidden name store s)
    (given : (local? name s.scopes).or ((s.registry.get? name).or (Entries.get? name s.globals)) = some w) :
    w = value := by
  rw [local?_eq_bound] at given
  cases h with
  | constant => exact absurd rfl erasable
  | «local» _ inner here => rw [inner, Option.bind_some, here] at given; cases given; rfl
  | global _ outside here =>
    have unknown : s.registry.get? name = none := by
      by_contra known
      have apart : ¬ s.Keeps .globals .symbols := by
        rintro (same | ⟨-, ⟨_, same⟩, -⟩) <;> cases same
      exact seen ⟨.symbols, .inr rfl, apart, known⟩
    rw [outside, unknown, here] at given
    cases given
    rfl
  | «symbol» _ outside _ here => rw [outside, here] at given; cases given; rfl

/-- **A deletion of a name that is bound**: it gives the value that the name reads
and removes the variable, exactly when nothing is hidden behind it. -/
theorem delete_found (ordered : s.Ordered) (found : Found name s store value) (erasable : store ≠ .constants)
    (line : Nat) : ∃ w t, s.delete name line = .ok (w, t) ∧
      (w = value ∧ Removed name store s t ↔ ¬ Hidden name store s) := by
  have free : Entries.get? name s.constants = none := by
    cases found with
    | constant => exact absurd rfl erasable
    | _ => assumption
  have bound : (local? name s.scopes).or ((s.registry.get? name).or (Entries.get? name s.globals)) ≠ none := by
    have reads := found.lookup
    rw [lookup_eq_or, free, Option.none_or] at reads
    intro none
    simp only [Option.or_eq_none_iff] at none
    simp [none] at reads
  obtain ⟨w, given⟩ := Option.ne_none_iff_exists'.mp bound
  obtain ⟨t, deleted⟩ := (delete_eq_ok_iff free line).mpr given
  have effect := get?_of_delete ordered deleted
  refine ⟨w, t, deleted, fun ⟨_, removed⟩ ⟨place, kind, apart, there⟩ => ?_, fun seen => ⟨?_, ?_, ?_, ?_⟩⟩
  · -- What is hidden is taken away too, and a removal of the variable would leave it.
    have cleared : Cleared name s place := kind.imp_right .inl
    rw [← removed.others place name fun h => apart h.2] at there
    exact there ((effect place name).1 ⟨rfl, cleared⟩)
  · exact found.value_eq erasable seen given
  · intro copy keeps
    refine (effect copy name).1 ⟨rfl, ?_⟩
    obtain rfl | ⟨rfl, -⟩ := keeps
    · exact found.cleared erasable
    · exact .inr (.inl rfl)
  · intro place other apart
    by_cases cleared : other = name ∧ Cleared name s place
    · obtain ⟨rfl, cleared⟩ := cleared
      have hides : ¬ s.Keeps store place := fun keeps => apart ⟨rfl, keeps⟩
      rw [(effect place other).1 ⟨rfl, cleared⟩]
      by_contra there
      have there : place.get? other s ≠ none := Ne.symm there
      obtain rfl | rfl | ⟨i, rfl, inner⟩ := cleared
      · exact seen ⟨_, .inl rfl, hides, there⟩
      · exact seen ⟨_, .inr rfl, hides, there⟩
      · exact hides (.inl (found.eq_scope erasable inner).symm)
    · exact (effect place other).2 cleared
  · rw [delete_eq_ok deleted]

end State

namespace Evaluator

open State (Found Hidden Removed)

/-! ## The call -/

theorem get?_table_delete : Entries.get? (Text.lowerString "eliminar") Library.table = some .delete :=
  Library.get?_table (by decide +kernel) (by decide +kernel) (by decide +kernel)

/-- The result of a deletion, in the state that it leaves. -/
def deletion (name : String) (line : Nat) (s : State) : EStateM.Result (Halt RuntimeError) State Value :=
  match s.delete name line with
  | .ok (value, t) => .ok value t
  | .error cause => .error (.failure cause) s

theorem callBuiltin_delete {env : Environment} {called name : String} {arg : Value} (named : arg.asText? = some name)
    (line : Nat) (s : State) : callBuiltin env .delete called [arg] line s = deletion name line s := by
  have wanted : Operator.textArgument "eliminar" arg line = .ok name := by
    rw [Operator.textArgument, named]
  rw [callBuiltin, wanted, deletion]
  refine (Run.bind_ok (t := s) (a := name) rfl).trans ?_
  cases deleted : s.delete name line with
  | error cause => exact Run.bind_error (Run.read_error deleted)
  | ok result => exact (Run.bind_ok (Run.read_ok deleted)).trans rfl

/-- The call comes down to the deletion of the name that its argument gives. -/
theorem call_delete {ev : Evaluator} {env : Environment} {e : Expr} {s t : State} {arg : Value} {name : String}
    (unreserved : t.Unreserved) (evaluated : ev.eval env e s = .ok arg t) (named : arg.asText? = some name) (line : Nat)
    (unknown : RuntimeError) : ev.call env "eliminar" [e] line unknown s = deletion name line t := by
  have plain : Library.isMutator (Text.lowerString "eliminar") = false := by decide +kernel
  have arguments : ev.evalAll env [e] s = .ok [arg] t := (Run.bind_ok evaluated).trans rfl
  rw [call_builtin arguments (unreserved.callee? get?_table_delete) rfl plain]
  exact callBuiltin_delete named line t

/-- **`eliminar` removes what the name means, if nothing is hidden behind it.** The
argument is any expression that gives a text; the name is looked at in the state
that its evaluation leaves. A constant and a name that nothing is bound to make the
call fail, without a change. A variable is removed with its mirror, its value is
given and everything else stays, exactly when there is no other global or symbol of
that name. The stores are maps here, as they are all along a run (`ordered_of_eval`). -/
theorem delete_removes (n : Nat) {env : Environment} {e : Expr} {s t : State} {arg : Value} {name : String}
    (unreserved : s.Unreserved) (evaluated : (within n).eval env e s = .ok arg t) (named : arg.asText? = some name)
    (ordered : t.Ordered) (line : Nat) :
    let outcome := (within (n + 1)).eval env (.call "eliminar" [e] line) s
    (Entries.contains name t.constants = true → outcome = .error (.failure (.assignmentToConstant name line)) t) ∧
    (t.lookup name = none → outcome = .error (.failure (.unknownIdentifier name line)) t) ∧
    ∀ store v, Found name t store v → store ≠ .constants →
      ∃ w u, outcome = .ok w u ∧ (w = v ∧ Removed name store t u ↔ ¬ Hidden name store t) := by
  intro outcome
  have unreserved : t.Unreserved := by
    rw [← Run.after_ok evaluated]
    exact (State.Leads.eval n env e s).upheld.unreserved unreserved
  have call : outcome = deletion name line t := call_delete unreserved evaluated named line _
  rw [call, deletion]
  refine ⟨fun fixed => ?_, fun free => ?_, fun store v found erasable => ?_⟩
  · rw [State.delete_constant fixed]
  · rw [State.delete_unbound free]
  · obtain ⟨w, u, deleted, removes⟩ := State.delete_found ordered found erasable line
    exact ⟨w, u, by rw [deleted], removes⟩

/-- A variable of a program goes with its mirror, and the one beside it stays. -/
theorem delete_removes_mirror :
    let registry : Registry := { Registry.withBaseTypes with symbols := [("x", .integer 1), ("y", .integer 2)] }
    let s : State := { registry, scopes := [[("x", .integer 1), ("y", .integer 2)]] }
    let x : Expr := .literal (.string "x") 1
    ∃ t, (within 2).eval {} (.call "eliminar" [x] 1) s = .ok (.integer 1) t ∧ Removed "x" (.scope 0) s t ∧
      Store.symbols.get? "x" t = none ∧ Store.symbols.get? "y" t = some (.integer 2) := by
  intro registry s x
  have ordered : s.Ordered := ⟨List.forall_mem_singleton.mpr (by decide), List.Pairwise.nil, by decide⟩
  have unreserved : s.Unreserved := fun _ _ defined => by cases defined
  have found : Found "x" s (.scope 0) (.integer 1) := .local rfl rfl rfl
  have mirrored : s.Keeps (.scope 0) .symbols := .inr ⟨rfl, ⟨0, rfl⟩, rfl⟩
  have seen : ¬ Hidden "x" (.scope 0) s := by
    rintro ⟨place, rfl | rfl, apart, there⟩
    · exact there rfl
    · exact apart mirrored
  have evaluated : (within 1).eval {} x s = .ok (.string "x") s := rfl
  obtain ⟨-, -, bound⟩ := delete_removes 1 unreserved evaluated rfl ordered 1
  obtain ⟨w, t, run, removes⟩ := bound (.scope 0) (.integer 1) found nofun
  obtain ⟨rfl, removed⟩ := removes.mpr seen
  refine ⟨t, run, removed, removed.gone .symbols mirrored, ?_⟩
  rw [removed.others .symbols "y" fun same => absurd same.1 (by decide)]
  rfl

/-- In a function, a deletion of a local takes the global behind it away. And where
a symbol stands behind a global, the value of the symbol is given, although the name
read the global. -/
theorem delete_exposed :
    let x : Expr := .literal (.string "x") 1
    let above : State := { scopes := [[("x", .integer 2)]], globals := [("x", .integer 1)], callDepth := 1 }
    let known : Registry := { Registry.withBaseTypes with symbols := [("x", .integer 1)] }
    let behind : State := { registry := known, globals := [("x", .integer 2)], scopes := [[]], callDepth := 1 }
    Found "x" above (.scope 0) (.integer 2) ∧
    (∃ t, (within 2).eval {} (.call "eliminar" [x] 1) above = .ok (.integer 2) t ∧ t.lookup "x" = none ∧
      Store.globals.get? "x" above = some (.integer 1) ∧ Store.globals.get? "x" t = none) ∧
    Found "x" behind .globals (.integer 2) ∧
    ∃ t, (within 2).eval {} (.call "eliminar" [x] 1) behind = .ok (.integer 1) t := by
  intro x above known behind
  have fresh {s : State} (h : s.functions = []) : s.Unreserved := fun _ _ defined => by
    rw [h] at defined
    cases defined
  have call {s : State} (h : s.functions = []) :
      (within 2).eval {} (.call "eliminar" [x] 1) s = deletion "x" 1 s := by
    have evaluated : (within 1).eval {} x s = .ok (.string "x") s := rfl
    exact call_delete (fresh h) evaluated rfl 1 _
  exact ⟨.local rfl rfl rfl, ⟨_, call rfl, rfl, rfl, rfl⟩, .global rfl rfl rfl, _, call rfl⟩

end Evaluator
end Guion
