/-
A coercion is a projection onto a kind, and what this means for names.

What was coerced to a kind is not changed by another coercion to it, and a value
that keeps to what its own kind asks is not changed by a coercion to that kind.
So a name that is assigned the value it has is read as before
(`assignVariable_self`), and a symbol that is declared again in its kind holds
exactly the new value (`redeclare_of_kind`). A `texto` beyond its capacity and
a matrix with a cell that is no number are left out: the language lets them
come into being elsewhere, and refuses them here.
-/
import Guion.Proofs.Run.Assignment

namespace Guion

/-- A symbol that is declared again in its kind holds exactly the new value. -/
theorem Registry.redeclare_of_kind {name : String} {existing value : Value} {r : Registry} (sound : value.Sound)
    (found : r.get? name = some existing) (same : existing.kind = value.kind) :
    r.redeclare name value = .ok (value, r.put name value) ∧ (r.put name value).get? name = some value := by
  refine ⟨?_, get?_put_self name value r⟩
  have kept : existing.overwrite value = .ok value := by
    rw [Value.overwrite, same]
    exact Value.coerce_self sound
  simp only [redeclare, modify, found, same, if_true, kept]

/-- A variable that is assigned the value it has changes nothing that can be looked
up. -/
theorem State.assignVariable_self {name : String} {v : Value} {s : State} (sound : v.Sound)
    (free : Entries.get? name s.constants = none) (found : s.lookup name = some v) (line : Nat) :
    ∃ t, s.assignVariable name v line = .ok t ∧ ∀ other, t.lookup other = s.lookup other := by
  obtain ⟨t, assigned, reads⟩ := (assignVariable_of_bound free found v line).1 v (Value.coerce_self sound)
  refine ⟨t, assigned, fun other => ?_⟩
  by_cases same : other = name
  · rw [same, reads, found]
  · exact (assigned_of_assignVariable assigned).lookup_of_ne same

/-- **Coercion is a projection onto the kind.** Its results have the kind and are
their own coercions. A value that keeps to what its kind asks is its own coercion,
so assigning it to the name that holds it is a no-op, and a name that is declared
again in its kind holds exactly the new value. -/
theorem Value.coerce_projects :
    (∀ kind v w, coerce kind v = .ok w → w.kind = kind ∧ coerce kind w = .ok w) ∧
    (∀ v, Sound v → coerce v.kind v = .ok v) ∧
    (∀ (s : State) name v line, Sound v → Entries.get? name s.constants = none → s.lookup name = some v →
      ∃ t, s.assignVariable name v line = .ok t ∧ ∀ other, t.lookup other = s.lookup other) ∧
    ∀ (r : Registry) name existing value, Sound value → r.get? name = some existing → existing.kind = value.kind →
      r.redeclare name value = .ok (value, r.put name value) ∧ (r.put name value).get? name = some value := by
  refine ⟨fun kind v w h => ?_, fun v sound => coerce_self sound,
    fun s name v line sound free found => State.assignVariable_self sound free found line,
    fun r name existing value sound found same => Registry.redeclare_of_kind sound found same⟩
  have own := coerce_kind h
  exact ⟨own, own ▸ coerce_self (coerce_sound h)⟩

/-- A matrix made of a list, assigned to itself and declared over another one. -/
theorem Value.coerce_projects_matrix :
    let m : Value := .matrix [[.integer 1, .bit true], [.real .one, .integer 2]]
    let s : State := { scopes := [[("m", m)]] }
    let r : Registry := { Registry.withBaseTypes with symbols := [("m", .matrix [])] }
    Sound m ∧ (∃ v, coerce .matrix v = .ok m ∧ m.kind = .matrix ∧ coerce .matrix m = .ok m ∧ v.kind = .list) ∧
      (∃ t, s.assignVariable "m" m 1 = .ok t ∧ ∀ other, t.lookup other = s.lookup other) ∧
      r.redeclare "m" m = .ok (m, r.put "m" m) := by
  intro m s r
  obtain ⟨projects, own, assigned, declared⟩ := coerce_projects
  have sound : Sound m := ⟨⟨2, by simp⟩, by simp [Value.kind, Kind.isNumeric]⟩
  have made : coerce .matrix (.list [.list [.integer 1, .bit true], .list [.real .one, .integer 2]]) = .ok m := rfl
  exact ⟨sound, ⟨_, made, (projects _ _ _ made).1, own m sound, rfl⟩, assigned s "m" m 1 sound rfl rfl,
    (declared r "m" _ m sound rfl rfl).1⟩

end Guion
