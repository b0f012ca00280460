/-
What an assignment along a path does to the root of the path.

The right side is evaluated first. Then the root is read, the indexes of the
path are evaluated, and what was read, with the value in the slot that the path
leads to, is assigned to the root (`assign_path_eq_ok`). A write along keys keeps
the kind of what it changes (`storeAt_kind`), so the coercion of this assignment
leaves it as it is, unless the indexes gave the root another kind.

So what the right side does to the root is kept, and what the indexes do to it is
undone. An index that calls nothing does nothing to it; then the root ends as what
it was when all had been evaluated, with the slot replaced. An index that calls a
function which changes the root loses this change (`path_assignment_forgets`).
-/
import Guion.Proofs.Operator.Slots
import Guion.Proofs.Run.Kinds
import Guion.Proofs.Run.Returns

namespace Guion

theorem Operator.storeAt_kind {keys : List Key} {v c c' : Value} {line : Nat} (h : storeAt c keys v line = .ok c')
    (inside : keys ≠ []) : c'.kind = c.kind :=
  (storeAt_eq_ok.mp h).kind_eq inside

/-! ## What is read behind an assignment to a name -/

namespace State

variable {s t : State} {name : String} {value : Value} {line : Nat}

theorem assignVariable_unfixed (h : s.assignVariable name value line = .ok t) :
    Entries.get? name s.constants = none := by
  unfold assignVariable at h
  split at h
  · cases h
  · next free => exact Entries.contains_eq_false.mp (Bool.eq_false_iff.mpr free)

/-- A name that was bound is read as the value in the kind of what was there. -/
theorem lookup_of_assignVariable {old : Value} (h : s.assignVariable name value line = .ok t)
    (found : s.lookup name = some old) :
    ∃ stored, value.coerce old.kind = .ok stored ∧ t.lookup name = some stored := by
  obtain ⟨written, refused⟩ := assignVariable_of_bound (assignVariable_unfixed h) found value line
  cases kept : old.overwrite value with
  | ok stored =>
    obtain ⟨u, assigned, reads⟩ := written stored kept
    cases assigned.symm.trans h
    exact ⟨stored, kept, reads⟩
  | error e =>
    obtain failed | failed := refused e kept
    · cases failed.symm.trans h
    · cases failed.symm.trans h

/-- A value of the kind of what was there is read as it is. -/
theorem lookup_of_assignVariable_of_kind {old : Value} (h : s.assignVariable name value line = .ok t)
    (found : s.lookup name = some old) (same : value.kind = old.kind) : t.lookup name = some value := by
  obtain ⟨stored, kept, reads⟩ := lookup_of_assignVariable h found
  rw [← same] at kept
  rw [reads, Value.coerce_own kept]

theorem lookup_of_assignVariable_of_unbound (h : s.assignVariable name value line = .ok t) (opened : s.scopes ≠ [])
    (free : s.lookup name = none) : t.lookup name = some value := by
  obtain ⟨assigned, reads⟩ := assignVariable_of_unbound opened free value line
  cases assigned.symm.trans h
  exact reads

end State

namespace Evaluator

open Operator (Key Replaced storeAt)

variable {ev : Evaluator} {env : Environment} {root : String} {steps : List Accessor}

/-- There is a key for every step of a path. -/
theorem evalKeys_length {keys : List Key} {s t : State} (h : ev.evalKeys env steps s = .ok keys t) :
    keys.length = steps.length := by
  induction steps generalizing keys s with
  | nil => cases h; rfl
  | cons step rest ih =>
    cases step with
    | index e =>
      obtain ⟨v, u, -, h⟩ := Run.bind_eq_ok.mp h
      obtain ⟨keys, u, evaluated, h⟩ := Run.bind_eq_ok.mp h
      cases h
      rw [List.length_cons, List.length_cons, ih evaluated]
    | field name =>
      obtain ⟨keys, u, evaluated, h⟩ := Run.bind_eq_ok.mp h
      cases h
      rw [List.length_cons, List.length_cons, ih evaluated]

/-- **The steps of an assignment along a path**, in their order. -/
theorem assign_path_eq_ok {v : Value} {line : Nat} {s t : State} :
    ev.assign env (.path root steps) v line s = .ok () t ↔
      Entries.contains root s.constants = false ∧ ∃ read keys u written, s.lookup root = some read ∧
        ev.evalKeys env steps s = .ok keys u ∧ storeAt read keys v line = .ok written ∧
        u.assignVariable root written line = .ok t := by
  constructor
  · intro h
    obtain ⟨_, _, here, h⟩ := Run.bind_eq_ok.mp h
    cases here
    split at h
    · cases h
    · next free =>
      refine ⟨Bool.eq_false_iff.mpr free, ?_⟩
      cases found : s.lookup root with
      | none => rw [found] at h; cases h
      | some read =>
        rw [found] at h
        obtain ⟨keys, u, evaluated, h⟩ := Run.bind_eq_ok.mp h
        obtain ⟨written, w, stored, h⟩ := Run.bind_eq_ok.mp h
        cases kept : storeAt read keys v line with
        | error cause => rw [kept] at stored; cases stored
        | ok c =>
          rw [kept] at stored
          cases stored
          cases assigned : u.assignVariable root written line with
          | error cause => rw [Run.update_error assigned] at h; cases h
          | ok x =>
            rw [Run.update_ok assigned] at h
            cases h
            exact ⟨read, keys, u, written, rfl, evaluated, kept, assigned⟩
  · rintro ⟨free, read, keys, u, written, found, evaluated, kept, assigned⟩
    refine (Run.bind_ok rfl).trans ?_
    dsimp only
    rw [if_neg (Bool.eq_false_iff.mp free), found]
    refine (Run.bind_ok evaluated).trans ?_
    rw [kept]
    exact Run.update_ok assigned

/-- An index that calls nothing changes nothing. -/
theorem evalKeys_quiet {n : Nat} {keys : List Key} {s t : State} (h : (within n).evalKeys env steps s = .ok keys t)
    (free : ∀ e, .index e ∈ steps → e.CallFree s.functions) : t = s := by
  rw [← Run.after_ok h, (within_quiet n env s).evalKeys free]

/-- What an assignment along keys leaves at the root: `read` is what the root was
before the keys were evaluated, `s` the state behind them, and `t` the state behind
the assignment. -/
structure Updated (root : String) (keys : List Key) (v read : Value) (s t : State) : Prop where
  /-- The root is what was read with the value in its slot, in the kind that the
  root has behind the keys. -/
  written : ∃ written, Replaced keys v read written ∧ written.kind = read.kind ∧
    (∀ now, s.lookup root = some now →
      ∃ stored, written.coerce now.kind = .ok stored ∧ t.lookup root = some stored) ∧
    (s.lookup root = none → s.scopes ≠ [] → t.lookup root = some written)
  /-- If the root is behind the keys what it was before, then only its slot is
  replaced. -/
  replaced : s.lookup root = some read → ∃ stored, t.lookup root = some stored ∧ Replaced keys v read stored
  /-- Any other name is read as behind the keys. -/
  others : ∀ other, other ≠ root → t.lookup other = s.lookup other

theorem updated {v read written : Value} {keys : List Key} {line : Nat} {s t : State} (inside : keys ≠ [])
    (stored : storeAt read keys v line = .ok written) (assigned : s.assignVariable root written line = .ok t) :
    Updated root keys v read s t where
  written := ⟨written, (Operator.storeAt_eq_ok.mp stored).replaced, Operator.storeAt_kind stored inside,
    fun _ found => State.lookup_of_assignVariable assigned found,
    fun free opened => State.lookup_of_assignVariable_of_unbound assigned opened free⟩
  replaced found := ⟨written,
    State.lookup_of_assignVariable_of_kind assigned found (Operator.storeAt_kind stored inside),
    (Operator.storeAt_eq_ok.mp stored).replaced⟩
  others _ ne := (State.assigned_of_assignVariable assigned).lookup_of_ne ne

/-- **An assignment along a path replaces a slot of what the root was before the
indexes of the path were evaluated.** The right side is evaluated before, so what
it does to the root is kept. What the indexes do to it is not; but an index that
calls nothing does nothing. -/
theorem path_assignment_replaces (n : Nat) {env : Environment} (builtin : env.handlers = Handler.builtin)
    {root : String} {steps : List Accessor} (inside : steps ≠ []) {e : Expr} {line : Nat} {s t : State} {flow : Flow}
    (h : (within (n + 1)).exec env (.assignment (.path root steps) e line) s = .ok flow t) :
    flow = .proceed ∧ ∃ v s₁ read keys s₂, (within n).eval env e s = .ok v s₁ ∧ s₁.lookup root = some read ∧
      (within n).evalKeys env steps s₁ = .ok keys s₂ ∧ Updated root keys v read s₂ t ∧
      ((∀ e, .index e ∈ steps → e.CallFree s₁.functions) → s₂ = s₁) := by
  have h : (within n).statement env _ s = .ok flow t := h
  rw [statement_eq (within n) builtin] at h
  obtain ⟨v, s₁, evaluated, h⟩ := Run.bind_eq_ok.mp h
  obtain ⟨⟨⟩, u, assigned, h⟩ := Run.bind_eq_ok.mp h
  cases h
  obtain ⟨-, read, keys, s₂, written, found, keyed, stored, assigned⟩ := assign_path_eq_ok.mp assigned
  have inside : keys ≠ [] := by
    rw [← List.length_pos_iff, evalKeys_length keyed, List.length_pos_iff]
    exact inside
  exact ⟨rfl, v, s₁, read, keys, s₂, evaluated, found, keyed, updated inside stored assigned, evalKeys_quiet keyed⟩

/-- The right side changes the root: `l[1] := f()`, and `f` assigns to `l[0]`. -/
theorem path_assignment_replaces_call :
    let f : FunctionDef := ⟨⟨"f", [], .integer, 2⟩,
      .mk [.assignment (.path "l" [.index (.literal (.integer 0) 3)]) (.literal (.integer 5) 3) 3,
        .returnValue (some (.literal (.integer 7) 4)) 4] 3⟩
    let s : State := { globals := [("l", .list [.integer 1, .integer 2])], functions := [("f", f)] }
    let one : Accessor := .index (.literal (.integer 1) 5)
    ∃ v s₁ read keys s₂ t, (within 8).exec {} (.assignment (.path "l" [one]) (.call "f" [] 5) 5) s = .ok .proceed t ∧
      (within 7).eval {} (.call "f" [] 5) s = .ok v s₁ ∧ s₁.lookup "l" = some read ∧
      (within 7).evalKeys {} [one] s₁ = .ok keys s₂ ∧ Updated "l" keys v read s₂ t ∧ s₂ = s₁ ∧
      read.display = "[5, 2]" ∧ (t.lookup "l").map Value.display = some "[5, 7]" := by
  intro f s one
  obtain ⟨-, v, s₁, read, keys, s₂, evaluated, found, keyed, updated, quiet⟩ :=
    path_assignment_replaces 7 (rfl : ({} : Environment).handlers = _) (List.cons_ne_nil one [])
      (rfl : (within 8).exec {} (.assignment (.path "l" [one]) (.call "f" [] 5) 5) s = _)
  refine ⟨v, s₁, read, keys, s₂, _, rfl, evaluated, found, keyed, updated, quiet ?_, ?_, ?_⟩
  · intro e he
    obtain rfl : e = .literal (.integer 1) 5 := Accessor.index.inj (List.mem_singleton.mp he)
    exact .literal
  · cases evaluated
    cases found
    rfl
  · rfl

/-- An index changes the root: `l[f()] := 9`, and `f` assigns to `l`. The root
does not have the length that it had when all had been evaluated. -/
theorem path_assignment_forgets :
    let f : FunctionDef := ⟨⟨"f", [], .integer, 2⟩,
      .mk [.assignment (.variable "l") (.literal (.list [.integer 1, .integer 2, .integer 3, .integer 4]) 3) 3,
        .returnValue (some (.literal (.integer 0) 4)) 4] 3⟩
    let s : State := { globals := [("l", .list [.integer 1, .integer 2, .integer 3])], functions := [("f", f)] }
    let index : Accessor := .index (.call "f" [] 5)
    ∃ keys s₂ t now after, (within 7).eval {} (.literal (.integer 9) 5) s = .ok (.integer 9) s ∧
      (within 7).evalKeys {} [index] s = .ok keys s₂ ∧
      (within 8).exec {} (.assignment (.path "l" [index]) (.literal (.integer 9) 5) 5) s = .ok .proceed t ∧
      s₂.lookup "l" = some now ∧ t.lookup "l" = some after ∧ ¬ Replaced keys (.integer 9) now after := by
  intro f s index
  refine ⟨[.index (.integer 0)], _, _, .list [.integer 1, .integer 2, .integer 3, .integer 4],
    .list [.integer 9, .integer 2, .integer 3], rfl, rfl, rfl, rfl, rfl, fun replaced => ?_⟩
  obtain ⟨c, c', before, behind, shape⟩ := replaced.reshaped [] _ [] 5 rfl
  cases before
  cases behind
  cases shape with
  | list same => cases same

end Evaluator

end Guion
