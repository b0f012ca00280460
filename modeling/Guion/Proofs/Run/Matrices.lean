/-
What a matrix in a program is like.

The rows of a matrix have one length, wherever it is held and whatever was done
to it: a coercion refuses any other rows, and a write inside a matrix replaces a
row by one of its length, or a cell. A program needs no guard for this.

The cells are numeric as well, as long as writes inside variables leave them
numeric. Such a write is followed by a coercion to the kind of the variable,
which looks at the cells if the variable is a matrix, and does not if the matrix
is inside a list or a dictionary (`matrices_spoiled`). So the second part of
`matrices_kept` is about runs under a guard that looks at those.
-/
import Guion.Proofs.Run.Observed

namespace Guion

namespace Standard

/-- The rows of every matrix have one length. -/
def rectangular : Standard where
  real _ := True
  complex _ := True
  text _ := True
  shape lengths := ∀ n ∈ lengths, ∀ m ∈ lengths, n = m
  matrix _ := True

/-- The rows of every matrix have one length, and its cells are numeric. -/
def matrices : Standard := { rectangular with matrix := fun rows => ∀ row ∈ rows, ∀ v ∈ row, v.isCell = true }

theorem matrices_lasting : matrices.Lasting where
  real _ := trivial
  sign _ _ := trivial
  complex _ := trivial
  negated _ := trivial
  ofReal _ := trivial
  text _ := trivial
  trimmed _ := trivial
  shape h n hn m hm := (h n hn).trans (h m hm).symm
  matrix h := h
  numbers := .inl fun _ => trivial

theorem rectangular_lasting : rectangular.Lasting := { matrices_lasting with matrix := fun _ => trivial }

end Standard

/-- A guard of the cells of matrices. -/
def Guard.cells : Guard := { matrix := fun rows => rows.all (·.all Value.isCell) }

theorem Guard.cells_suits : Guard.cells.Suits .matrices where
  literal spells _ := spells.meets fun _ => trivial
  increment _ := .inl fun _ => trivial
  matrix rows h row hr v hv := by
    have rows : ∀ row ∈ rows, ∀ v ∈ row, v.isCell = true := by simpa [Guard.cells] using h
    exact rows row hr v hv
  text := .inl fun _ _ => ⟨trivial, trivial⟩
  complex _ _ := trivial

theorem Guard.idle_suits_rectangular : Guard.Suits {} .rectangular where
  literal spells _ := spells.meets fun _ => trivial
  increment _ := .inl fun _ => trivial
  matrix _ _ := trivial
  text := .inl fun _ _ => ⟨trivial, trivial⟩
  complex _ _ := trivial

/-- Whether a value is a list of one matrix with a cell that is not numeric. -/
def Value.isSpoiled : Value → Bool
  | .list [.matrix rows] => !rows.all (·.all Value.isCell)
  | _ => false

namespace Evaluator

/-- **Every matrix is one.** In every state of a run, and in every value that an
expression has, the rows of a matrix have one length. If a guard stops the run
before a write inside a variable leaves a cell that is not numeric, the cells of
every matrix are numeric too. -/
theorem matrices_kept (stop alarm : Halt Empty) (n : Nat) (env : Environment) (source : String)
    (origin : Option String) (arguments : List Value) (depth : Nat) (s : State) :
    (s.Meets .rectangular → (∀ v ∈ arguments, v.Meets .rectangular true) →
      Run.Upheld (State.Meets .rectangular) (Context.Meets .rectangular) s
        ((within n).program env source origin arguments depth)
        ((observed .rectangular {} stop alarm n).program env source origin arguments depth)) ∧
    (s.Meets .matrices → (∀ v ∈ arguments, v.Meets .matrices true) →
      Run.Upheld (State.Meets .matrices) (Context.Meets .matrices) s
        ((guarded .cells stop n).program env source origin arguments depth)
        ((observed .matrices .cells stop alarm n).program env source origin arguments depth) ∧
      cutShort stop s ((guarded .cells stop n).program env source origin arguments depth)
        ((within n).program env source origin arguments depth)) := by
  refine ⟨fun hs ha => ?_, fun hs ha => ⟨?_, guarded_program .cells stop n env source origin arguments depth s⟩⟩
  · rw [← guarded_idle stop n]
    exact observed_program Standard.rectangular_lasting Guard.idle_suits_rectangular stop alarm n env source origin
      ha depth hs
  · exact observed_program Standard.matrices_lasting Guard.cells_suits stop alarm n env source origin ha depth hs

/-- A matrix in a list, of which a cell is written. -/
theorem matrices_kept_nested :
    (State.fresh.Meets .rectangular ∧ State.fresh.Meets .matrices) ∧
    (∃ context t, (observed .rectangular {} .outOfFuel .outOfFuel 24).program {}
        "variable matriz m := [[1, 2]]\nl := [m]\nl[0][0][1] := 5\n" none [] 0 .fresh = .ok context t ∧
      context.Meets .rectangular ∧ (Entries.get? "l" context.bindings).map Value.display = some "[[[1, 5]]]") ∧
    ∃ context t, (observed .matrices .cells .outOfFuel .outOfFuel 24).program {}
        "variable matriz m := [[1, 2]]\nl := [m]\nl[0][0][1] := 5\n" none [] 0 .fresh = .ok context t ∧
      context.Meets .matrices ∧ (Entries.get? "l" context.bindings).map Value.display = some "[[[1, 5]]]" := by
  have rectangular : State.fresh.Meets .rectangular := State.fresh_meets Standard.rectangular_lasting
  have matrices : State.fresh.Meets .matrices := State.fresh_meets Standard.matrices_lasting
  obtain ⟨first, second⟩ := matrices_kept .outOfFuel .outOfFuel 24 {}
    "variable matriz m := [[1, 2]]\nl := [m]\nl[0][0][1] := 5\n" none [] 0 .fresh
  refine ⟨⟨rectangular, matrices⟩, ?_, ?_⟩
  · obtain ⟨context, t, ends, shown⟩ := Run.exists_of_yields (show Run.yields
      (fun context : Context => (Entries.get? "l" context.bindings).map Value.display == some "[[[1, 5]]]")
      ((within 24).program {} "variable matriz m := [[1, 2]]\nl := [m]\nl[0][0][1] := 5\n" none [] 0)
      .fresh = true by decide +kernel)
    have upheld := first rectangular fun _ h => nomatch h
    exact ⟨context, t, upheld.same ▸ ends, upheld.result context t ends, eq_of_beq shown⟩
  · obtain ⟨context, t, ends, shown⟩ := Run.exists_of_yields (show Run.yields
      (fun context : Context => (Entries.get? "l" context.bindings).map Value.display == some "[[[1, 5]]]")
      ((guarded .cells .outOfFuel 24).program {} "variable matriz m := [[1, 2]]\nl := [m]\nl[0][0][1] := 5\n" none [] 0)
      .fresh = true by decide +kernel)
    have upheld := (second matrices fun _ h => nomatch h).1
    exact ⟨context, t, upheld.same ▸ ends, upheld.result context t ends, eq_of_beq shown⟩

/-- A cell of a matrix in a list becomes a text. -/
theorem matrices_spoiled :
    State.fresh.Meets .matrices ∧ ∃ context t,
      (within 24).program {} "variable matriz m := [[1, 2]]\nl := [m]\nl[0][0][1] := \"x\"\n" none [] 0 .fresh =
        .ok context t ∧
      ¬ context.Meets .matrices := by
  obtain ⟨context, t, ends, shown⟩ := Run.exists_of_yields (show Run.yields
    (fun context : Context =>
      (Entries.get? "l" context.bindings).any Value.isSpoiled)
    ((within 24).program {} "variable matriz m := [[1, 2]]\nl := [m]\nl[0][0][1] := \"x\"\n" none [] 0)
    .fresh = true by decide +kernel)
  refine ⟨State.fresh_meets Standard.matrices_lasting, context, t, ends, fun meets => ?_⟩
  obtain ⟨v, found, spoiled⟩ := (Option.any_eq_true _ _).mp shown
  have list := meets.bindings.get? found
  unfold Value.isSpoiled at spoiled
  split at spoiled
  · next rows =>
    have matrix := Value.meets_list.mp list _ List.mem_cons_self
    have cells : ∀ row ∈ rows, ∀ v ∈ row, v.isCell = true := (Value.meets_matrix.mp matrix).2.1 rfl
    rw [show rows.all (·.all Value.isCell) = true by simpa using cells] at spoiled
    cases spoiled
  · cases spoiled

end Evaluator
end Guion
