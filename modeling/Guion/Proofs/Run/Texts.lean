/-
How long a `texto` in a program is.

A coercion to `texto` refuses more than 255 characters. But `mayusculas` and
`minusculas` give a `texto` for a `texto` without a coercion, and some
characters become two or three in another case, so the result may be longer
(`texts_outgrown`). A change of case makes no text heavier, though, and a text
is no longer than it is heavy. So whatever a program does, no `texto` has more
than three times the capacity.

The capacity itself holds as long as no call gives a longer `texto`: for runs
under a guard that looks at what calls give.
-/
import Guion.Proofs.Run.Observed
import Guion.Proofs.Run.WriteOnce
import Guion.Proofs.Text.Weight

namespace Guion

namespace Standard

/-- A `texto` is within its capacity. -/
def capped : Standard where
  real _ := True
  complex _ := True
  text s := s.length ≤ textCapacity
  shape _ := True
  matrix _ := True

/-- A `texto` is no heavier than three times the capacity. -/
def texts : Standard := { capped with text := fun s => Text.weight s.toList ≤ 3 * textCapacity }

theorem length_le_of_texts {s : String} (h : texts.text s) : s.length ≤ 3 * textCapacity :=
  Nat.le_trans (Text.length_le_weight s.toList) h

theorem capped_lasting : capped.Lasting where
  real _ := trivial
  sign _ _ := trivial
  complex _ := trivial
  negated _ := trivial
  ofReal _ := trivial
  text h := h
  trimmed {s} h := by
    have shorter := (Text.trim_sublist s.toList).length_le
    rw [String.length_toList] at shorter
    exact Nat.le_trans (by simpa using shorter) h
  shape _ := trivial
  matrix _ := trivial
  numbers := .inl fun _ => trivial

theorem texts_lasting : texts.Lasting where
  toClosed := { capped_lasting.toClosed with
    text := fun {s} h => Nat.le_trans (Text.weight_le s.toList) (Nat.mul_le_mul_left 3 h)
    trimmed := fun {s} h => by
      have lighter := Text.weight_sublist (Text.trim_sublist s.toList)
      exact Nat.le_trans (by simpa using lighter) h }
  numbers := .inl fun _ => trivial

theorem texts_recased : texts.Recased := fun s h => by
  have upper := Nat.le_trans (Text.weight_upper s.toList) h
  have lower := Nat.le_trans (Text.weight_lower s.toList) h
  exact ⟨by simpa [texts] using upper, by simpa [texts] using lower⟩

end Standard

/-- The `texto` that a program left under a name. -/
def Context.text? (context : Context) (name : String) : Option String :=
  match Entries.get? name context.bindings with
  | some (.text s) => some s
  | _ => none

/-- A guard of what calls give. -/
def Guard.capped : Guard := { text := fun s => decide (s.length ≤ textCapacity) }

theorem Guard.capped_suits : Guard.capped.Suits .capped where
  literal spells _ := spells.meets fun _ => trivial
  increment _ := .inl fun _ => trivial
  matrix _ _ := trivial
  text := .inr fun s short => of_decide_eq_true (p := s.length ≤ textCapacity) short
  complex _ _ := trivial

theorem Guard.idle_suits_texts : Guard.Suits {} .texts where
  literal spells _ := spells.meets fun _ => trivial
  increment _ := .inl fun _ => trivial
  matrix _ _ := trivial
  text := .inl Standard.texts_recased
  complex _ _ := trivial

namespace Evaluator

/-- **No `texto` outgrows three times its capacity**, in any state of a run and in any
value that an expression has. If a guard stops the run before a call gives a
`texto` above the capacity, all are within it. -/
theorem texts_kept (stop alarm : Halt Empty) (n : Nat) (env : Environment) (source : String)
    (origin : Option String) (arguments : List Value) (depth : Nat) (s : State) :
    (∀ text, Standard.texts.text text → text.length ≤ 3 * textCapacity) ∧
    (s.Meets .texts → (∀ v ∈ arguments, v.Meets .texts true) →
      Run.Upheld (State.Meets .texts) (Context.Meets .texts) s
        ((within n).program env source origin arguments depth)
        ((observed .texts {} stop alarm n).program env source origin arguments depth)) ∧
    (s.Meets .capped → (∀ v ∈ arguments, v.Meets .capped true) →
      Run.Upheld (State.Meets .capped) (Context.Meets .capped) s
        ((guarded .capped stop n).program env source origin arguments depth)
        ((observed .capped .capped stop alarm n).program env source origin arguments depth) ∧
      cutShort stop s ((guarded .capped stop n).program env source origin arguments depth)
        ((within n).program env source origin arguments depth)) := by
  refine ⟨fun _ => Standard.length_le_of_texts, fun hs ha => ?_, fun hs ha =>
    ⟨?_, guarded_program .capped stop n env source origin arguments depth s⟩⟩
  · rw [← guarded_idle stop n]
    exact observed_program Standard.texts_lasting Guard.idle_suits_texts stop alarm n env source origin ha depth hs
  · exact observed_program Standard.capped_lasting Guard.capped_suits stop alarm n env source origin ha depth hs

/-- A `texto` and a copy of it. -/
theorem texts_kept_copy :
    (State.fresh.Meets .texts ∧ State.fresh.Meets .capped) ∧
    (∃ context t, (observed .texts {} .outOfFuel .outOfFuel 24).program {}
        "variable texto t := \"ab\"\nu := t\n" none [] 0 .fresh = .ok context t ∧
      context.Meets .texts ∧ context.text? "u" = some "ab") ∧
    ∃ context t, (observed .capped .capped .outOfFuel .outOfFuel 24).program {}
        "variable texto t := \"ab\"\nu := t\n" none [] 0 .fresh = .ok context t ∧
      context.Meets .capped ∧ context.text? "u" = some "ab" := by
  have texts : State.fresh.Meets .texts := State.fresh_meets Standard.texts_lasting
  have capped : State.fresh.Meets .capped := State.fresh_meets Standard.capped_lasting
  obtain ⟨-, first, second⟩ := texts_kept .outOfFuel .outOfFuel 24 {}
    "variable texto t := \"ab\"\nu := t\n" none [] 0 .fresh
  refine ⟨⟨texts, capped⟩, ?_, ?_⟩
  · obtain ⟨context, t, ends, shown⟩ := Run.exists_of_yields (show Run.yields
      (fun context : Context => context.text? "u" == some "ab")
      ((within 24).program {} "variable texto t := \"ab\"\nu := t\n" none [] 0) .fresh = true by
        decide +kernel)
    have upheld := first texts fun _ h => nomatch h
    exact ⟨context, t, upheld.same ▸ ends, upheld.result context t ends, eq_of_beq shown⟩
  · obtain ⟨context, t, ends, shown⟩ := Run.exists_of_yields (show Run.yields
      (fun context : Context => context.text? "u" == some "ab")
      ((guarded .capped .outOfFuel 24).program {} "variable texto t := \"ab\"\nu := t\n" none [] 0)
      .fresh = true by decide +kernel)
    have upheld := (second capped fun _ h => nomatch h).1
    exact ⟨context, t, upheld.same ▸ ends, upheld.result context t ends, eq_of_beq shown⟩

/-! ## Beyond the capacity -/

/-- `mayusculas` of a variable that holds a `texto`. -/
theorem eval_upper (n : Nat) (env : Environment) {s : State} {name content : String} (line : Nat)
    (held : s.lookup name = some (.text content)) (free : Entries.get? "mayusculas" s.functions = none) :
    (within (n + 2)).eval env (.call "mayusculas" [.variable name line] line) s =
      .ok (.text (String.ofList (Text.upper content.toList))) s := by
  have known : Entries.get? (Text.lowerString "mayusculas") Library.table = some (.pure .upper) :=
    Library.get?_table (by decide +kernel) (by decide +kernel) (by decide +kernel)
  have plain : Library.isMutator (Text.lowerString "mayusculas") = false := by decide +kernel
  have read : (within (n + 1)).eval env (.variable name line) s = .ok (.text content) s := by
    refine (Run.bind_ok (show (get : Eval State) s = .ok s s from rfl)).trans ?_
    rw [held]
    rfl
  have argument : (within (n + 1)).evalAll env [.variable name line] s = .ok [.text content] s :=
    (Run.bind_ok read).trans rfl
  show (within (n + 1)).call env "mayusculas" [.variable name line] line (.unknownFunction "mayusculas" line) s = _
  rw [call_builtin argument (State.callee?_builtin free known) rfl plain]
  rfl

/-- A state with a `texto` at the capacity, of characters that become three. -/
def brimming : State :=
  { toWorld := { globals := [("t", .text (String.ofList (List.replicate textCapacity 'ΐ')))] }, toContext := {} }

/-- In upper case the text is three times as long. -/
theorem texts_outgrown :
    brimming.Meets .capped ∧ ∃ s,
      (within 2).eval {} (.call "mayusculas" [.variable "t" 1] 1) brimming = .ok (.text s) brimming ∧
      s.length = 3 * textCapacity ∧ ¬ (Value.text s).Meets .capped true := by
  have fresh := State.fresh_meets Standard.capped_lasting
  have brim : (String.ofList (List.replicate textCapacity 'ΐ')).length ≤ textCapacity := by simp
  have globals : brimming.globals.Meet .capped := .singleton "t" (.text brim)
  have image : (Text.upperChar 'ΐ').length = 3 := by decide +kernel
  have length : (String.ofList (Text.upper (String.ofList (List.replicate textCapacity 'ΐ')).toList)).length =
      3 * textCapacity := by
    simp [Text.upper, List.length_flatMap, image, Nat.mul_comm]
  refine ⟨⟨{ fresh.world with globals := globals }, fresh.context⟩, _, eval_upper 0 {} 1 rfl rfl, length, fun h => ?_⟩
  have short : _ ≤ textCapacity := Value.meets_text.mp h
  rw [length] at short
  exact absurd short (by decide)

end Evaluator
end Guion
