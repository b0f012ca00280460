/-
Every dictionary is a map, and so is every store.

The entries of a dictionary stand in a list, and nothing in the type says that
their names ascend. They do in whatever a program makes: a literal and a text are
read entry by entry into a map, a write inside a dictionary puts its entry in
place, and a coercion of the items leaves the names as they are. `Standard.mapped`
asks for just this, of the values and of the stores of a state. It needs no guard,
so it holds all along a run of the language (`maps_kept`).

This is what a loop over the keys of a dictionary (`ascending_of_follow`) and a
deletion (`State.Hold.ordered`) rely on.
-/
import Guion.Proofs.Run.Deletion
import Guion.Proofs.Run.Observed

namespace Guion

namespace Standard

/-- Dictionaries and stores are maps. -/
def mapped : Standard where
  real _ := True
  complex _ := True
  text _ := True
  shape _ := True
  matrix _ := True
  maps := True

theorem mapped_lasting : mapped.Lasting where
  real _ := trivial
  sign _ _ := trivial
  complex _ := trivial
  negated _ := trivial
  ofReal _ := trivial
  text _ := trivial
  trimmed _ := trivial
  shape _ := trivial
  matrix _ := trivial
  numbers := .inl fun _ => trivial

end Standard

theorem Guard.idle_suits_mapped : Guard.Suits {} .mapped where
  literal spells _ := spells.meets fun _ => trivial
  increment _ := .inl fun _ => trivial
  matrix _ _ := trivial
  text := .inl fun _ _ => ⟨trivial, trivial⟩
  complex _ _ := trivial

/-- A dictionary that meets a standard of maps is one. -/
theorem Value.Meets.ascending {std : Standard} {strict : Bool} {entries : Entries Value}
    (h : (Value.dictionary entries).Meets std strict) (maps : std.maps) : entries.Ascending :=
  (Value.meets_dictionary.mp h).1 maps

/-- The stores of a state that meets a standard of maps are maps. -/
theorem State.Hold.ordered {std : Standard} {P : Value → Prop} {s : State} (h : s.Hold std P) (maps : std.maps) :
    s.Ordered where
  scopes := fun scope hs => (h.context.scopes scope hs).ascending maps
  globals := h.world.globals.ascending maps
  symbols := h.world.symbols.ascending maps

namespace Evaluator

variable {n : Nat} {env : Environment} {s t : State}

/-- A run of the language raises no alarm. -/
theorem within_upholds (alarm : Halt Empty) (n : Nat) :
    Upholds .mapped {} (within n) (observed .mapped {} alarm alarm n) := by
  rw [← guarded_idle alarm n]
  exact guarded_upholds Standard.mapped_lasting Guard.idle_suits_mapped alarm alarm n

/-- **Dictionaries and stores are maps**, in any state of a run and in any value that
an expression has. -/
theorem maps_kept (alarm : Halt Empty) (n : Nat) (env : Environment) (source : String) (origin : Option String)
    (arguments : List Value) (depth : Nat) (s : State) (hs : s.Meets .mapped)
    (ha : ∀ v ∈ arguments, v.Meets .mapped true) :
    Run.Upheld (State.Meets .mapped) (Context.Meets .mapped) s
      ((within n).program env source origin arguments depth)
      ((observed .mapped {} alarm alarm n).program env source origin arguments depth) :=
  (within_upholds alarm n).program ha hs

/-- The value of an expression and the state behind it. -/
theorem maps_of_eval {e : Expr} {v : Value} (he : e.Spelled) (hs : s.Meets .mapped)
    (evaluates : (within n).eval env e s = .ok v t) : v.Meets .mapped true ∧ t.Meets .mapped := by
  have upheld : Run.Upheld _ _ s ((within n).eval env e) _ := (within_upholds .outOfFuel n).eval he hs
  exact ⟨upheld.result v t evaluates, Run.after_ok evaluates ▸ upheld.state⟩

/-- The collection of a loop: if it is a dictionary, its keys ascend. -/
theorem ascending_of_follow {e : Expr} {v collection : Value} {line : Nat} (he : e.Spelled) (hs : s.Meets .mapped)
    (evaluates : (within n).eval env e { s with loopDepth := s.loopDepth + 1 } = .ok v t)
    (follows : t.follow v line = .ok collection) (entries : Entries Value) (h : collection = .dictionary entries) :
    entries.Ascending := by
  have entered : State.Meets .mapped { s with loopDepth := s.loopDepth + 1 } := ⟨hs.world, { hs.context with }⟩
  obtain ⟨hv, ht⟩ := maps_of_eval he entered evaluates
  have collected := ht.follow hv follows
  subst h
  exact collected.ascending trivial

/-- The stores that a deletion takes a name from are maps. -/
theorem ordered_of_eval {e : Expr} {v : Value} (he : e.Spelled) (hs : s.Meets .mapped)
    (evaluates : (within n).eval env e s = .ok v t) : t.Ordered :=
  (maps_of_eval he hs evaluates).2.ordered trivial

end Evaluator
end Guion
