/-
The lines in error of a tree.

`Block.faults` lists the lines in error in source order, at every depth and
in the bodies of functions: each is an `error` statement that stands somewhere
in the tree, and none is left out (`Block.mem_faults`). So a tree without
lines in error is one whose list is empty (`faults_eq_nil`).
-/
import Guion.Proofs.Syntax.WithoutErrors

namespace Guion

mutual

/-- The message and the line of every line in error of a block, in source order. -/
def Block.faults : Block → List (String × Nat)
  | .mk statements _ => faultsIn statements

def faultsIn : List Statement → List (String × Nat)
  | [] => []
  | statement :: rest => statement.faults ++ faultsIn rest

def Statement.faults : Statement → List (String × Nat)
  | .error message line => [(message, line)]
  | .conditional branches otherwise _ => faultsInBranches branches ++ faultsInOption otherwise
  | .whileLoop _ body _ => body.faults
  | .forLoop _ _ body _ => body.faults
  | .function _ body => body.faults
  | .block body => body.faults
  | _ => []

def faultsInBranches : List (Expr × Block) → List (String × Nat)
  | [] => []
  | (_, body) :: rest => body.faults ++ faultsInBranches rest

def faultsInOption : Option Block → List (String × Nat)
  | none => []
  | some body => body.faults

end

theorem faultsIn_append (first second : List Statement) :
    faultsIn (first ++ second) = faultsIn first ++ faultsIn second := by
  induction first with
  | nil => simp [faultsIn]
  | cons statement rest ih => simp [faultsIn, ih]

theorem faultsInBranches_append (first second : List (Expr × Block)) :
    faultsInBranches (first ++ second) = faultsInBranches first ++ faultsInBranches second := by
  induction first with
  | nil => simp [faultsInBranches]
  | cons branch rest ih => simp [faultsInBranches, ih]

/-! ## Where statements stand -/

namespace Statement

theorem standsIn_cons {st first : Statement} {rest : List Statement} :
    st.StandsIn (first :: rest) ↔
      st = first ∨ (∃ body, first.Holds body ∧ st.StandsIn body.statements) ∨ st.StandsIn rest := by
  constructor
  · rintro (⟨h⟩ | ⟨h, holds, deeper⟩)
    · exact (List.mem_cons.mp h).imp_right fun h => .inr (.here h)
    · obtain rfl | h := List.mem_cons.mp h
      · exact .inr (.inl ⟨_, holds, deeper⟩)
      · exact .inr (.inr (.inside h holds deeper))
  · rintro (rfl | ⟨body, holds, deeper⟩ | h)
    · exact .here List.mem_cons_self
    · exact .inside List.mem_cons_self holds deeper
    · cases h with
      | here h => exact .here (List.mem_cons_of_mem _ h)
      | inside h holds deeper => exact .inside (List.mem_cons_of_mem _ h) holds deeper

theorem not_standsIn_nil {st : Statement} : ¬ st.StandsIn [] := by
  rintro (⟨h⟩ | ⟨h, -, -⟩) <;> cases h

theorem holds_conditional {branches : List (Expr × Block)} {otherwise : Option Block} {line : Nat} {body : Block} :
    (Statement.conditional branches otherwise line).Holds body ↔
      (∃ branch ∈ branches, branch.2 = body) ∨ otherwise = some body := by
  constructor
  · rintro (h | _)
    · exact .inl ⟨_, h, rfl⟩
    · exact .inr rfl
  · rintro (⟨branch, h, rfl⟩ | rfl)
    · exact .branch h
    · exact .otherwise

/-- What stands in a statement with a single block stands in the block. -/
theorem standsIn_only {st outer : Statement} {body : Block} (holds : outer.Holds body)
    (only : ∀ {other : Block}, outer.Holds other → other = body) (ne : st ≠ outer) :
    st.StandsIn body.statements ↔
      st = outer ∨ ∃ other, outer.Holds other ∧ st.StandsIn other.statements := by
  constructor
  · exact fun h => .inr ⟨body, holds, h⟩
  · rintro (h | ⟨other, ho, h⟩)
    · exact absurd h ne
    · exact only ho ▸ h

end Statement

/-- A property of every statement of a tree, at any depth. -/
def Throughout (P : Statement → Prop) (sts : List Statement) : Prop := ∀ st : Statement, st.StandsIn sts → P st

theorem throughout_nil {P : Statement → Prop} : Throughout P [] :=
  fun _ h => (Statement.not_standsIn_nil h).elim

theorem throughout_cons {P : Statement → Prop} {first : Statement} {rest : List Statement} :
    Throughout P (first :: rest) ↔
      P first ∧ (∀ body, first.Holds body → Throughout P body.statements) ∧ Throughout P rest := by
  constructor
  · intro h
    exact ⟨h _ (Statement.standsIn_cons.mpr (.inl rfl)),
      fun body holds st hst => h st (Statement.standsIn_cons.mpr (.inr (.inl ⟨body, holds, hst⟩))),
      fun st hst => h st (Statement.standsIn_cons.mpr (.inr (.inr hst)))⟩
  · rintro ⟨hf, hb, hr⟩ st hst
    obtain rfl | ⟨body, holds, deeper⟩ | hst := Statement.standsIn_cons.mp hst
    · exact hf
    · exact hb body holds st deeper
    · exact hr st hst

theorem Throughout.perm {P : Statement → Prop} {first second : List Statement} (h : Throughout P first)
    (same : first.Perm second) : Throughout P second := by
  rintro st (⟨hst⟩ | ⟨hst, holds, deeper⟩)
  · exact h st (.here (same.mem_iff.mpr hst))
  · exact h st (.inside (same.mem_iff.mpr hst) holds deeper)

/-! ## The list is complete -/

mutual

theorem Block.mem_faults {message : String} {line : Nat} : ∀ body : Block,
    (message, line) ∈ body.faults ↔ (Statement.error message line).StandsIn body.statements
  | .mk statements _ => mem_faultsIn statements

theorem mem_faultsIn {message : String} {line : Nat} : ∀ statements : List Statement,
    (message, line) ∈ faultsIn statements ↔ (Statement.error message line).StandsIn statements
  | [] => iff_of_false List.not_mem_nil Statement.not_standsIn_nil
  | statement :: rest => by
    rw [faultsIn, List.mem_append, statement.mem_faults, mem_faultsIn rest, Statement.standsIn_cons, or_assoc]

theorem Statement.mem_faults {message : String} {line : Nat} : ∀ statement : Statement,
    (message, line) ∈ statement.faults ↔ Statement.error message line = statement ∨
      ∃ body, statement.Holds body ∧ (Statement.error message line).StandsIn body.statements
  | .error text place => by
    have none : ¬ ∃ body, (Statement.error text place).Holds body ∧
        (Statement.error message line).StandsIn body.statements := by
      rintro ⟨body, holds, -⟩
      cases holds
    rw [or_iff_left none, Statement.faults, List.mem_singleton, Prod.mk.injEq, Statement.error.injEq]
  | .conditional branches otherwise _ => by
    rw [Statement.faults, List.mem_append, mem_faultsInBranches branches, mem_faultsInOption otherwise]
    constructor
    · rintro (⟨branch, h, stands⟩ | ⟨body, h, stands⟩)
      · exact .inr ⟨branch.2, .branch h, stands⟩
      · exact .inr ⟨body, Statement.holds_conditional.mpr (.inr h), stands⟩
    · rintro (h | ⟨body, holds, stands⟩)
      · cases h
      · obtain ⟨branch, h, rfl⟩ | h := Statement.holds_conditional.mp holds
        · exact .inl ⟨branch, h, stands⟩
        · exact .inr ⟨body, h, stands⟩
  | .whileLoop _ body _ => by
    rw [Statement.faults, body.mem_faults]
    exact Statement.standsIn_only .whileLoop (fun h => by cases h; rfl) nofun
  | .forLoop _ _ body _ => by
    rw [Statement.faults, body.mem_faults]
    exact Statement.standsIn_only .forLoop (fun h => by cases h; rfl) nofun
  | .function _ body => by
    rw [Statement.faults, body.mem_faults]
    exact Statement.standsIn_only .function (fun h => by cases h; rfl) nofun
  | .block body => by
    rw [Statement.faults, body.mem_faults]
    exact Statement.standsIn_only .block (fun h => by cases h; rfl) nofun
  | .declaration .. | .assignment .. | .returnValue .. | .breakLoop .. | .call .. | .invoke ..
  | .expression .. => by
    refine iff_of_false List.not_mem_nil ?_
    rintro (h | ⟨body, holds, -⟩)
    · cases h
    · cases holds

theorem mem_faultsInBranches {message : String} {line : Nat} : ∀ branches : List (Expr × Block),
    (message, line) ∈ faultsInBranches branches ↔
      ∃ branch ∈ branches, (Statement.error message line).StandsIn branch.2.statements
  | [] => by simp [faultsInBranches]
  | (_, body) :: rest => by
    rw [faultsInBranches, List.mem_append, body.mem_faults, mem_faultsInBranches rest]
    simp

theorem mem_faultsInOption {message : String} {line : Nat} : ∀ otherwise : Option Block,
    (message, line) ∈ faultsInOption otherwise ↔
      ∃ body ∈ otherwise, (Statement.error message line).StandsIn body.statements
  | none => by simp [faultsInOption]
  | some body => by simpa [faultsInOption] using body.mem_faults

end

/-- A tree is free of lines in error when its list of them is empty. -/
theorem faults_eq_nil {body : Block} : body.faults = [] ↔ ErrorFree body.statements := by
  rw [List.eq_nil_iff_forall_not_mem]
  constructor
  · intro h st hst
    cases hs : st.isError with
    | false => rfl
    | true =>
      obtain ⟨message, line, rfl⟩ := Statement.eq_error hs
      exact absurd (body.mem_faults.mpr hst) (h (message, line))
  · rintro h ⟨message, line⟩ hf
    cases h _ (body.mem_faults.mp hf)

end Guion
