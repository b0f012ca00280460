/-
Programs without lines in error.

A line that could not be read stays in its block as an `error` statement.
`withoutErrors` takes these statements out, at every depth and in the bodies
of functions, and leaves everything else as it is (`withoutErrorsIn_eq`). No
line in error stands anywhere in what is left (`errorFree_withoutErrorsIn`).
-/
import Guion.Syntax.Statement

namespace Guion

/-- Whether a statement stands for a line that could not be read. -/
def Statement.isError : Statement → Bool
  | .error .. => true
  | _ => false

mutual

/-- The block without lines in error, at any depth. -/
def Block.withoutErrors : Block → Block
  | .mk statements line => .mk (withoutErrorsIn statements) line

def withoutErrorsIn : List Statement → List Statement
  | [] => []
  | statement :: rest =>
    if statement.isError then withoutErrorsIn rest
    else statement.withoutErrors :: withoutErrorsIn rest

/-- The statement with blocks without lines in error. -/
def Statement.withoutErrors : Statement → Statement
  | .conditional branches otherwise line =>
    .conditional (withoutErrorsInBranches branches) (withoutErrorsInOption otherwise) line
  | .whileLoop condition body line => .whileLoop condition body.withoutErrors line
  | .forLoop name source body line => .forLoop name source body.withoutErrors line
  | .function signature body => .function signature body.withoutErrors
  | .block body => .block body.withoutErrors
  | statement => statement

def withoutErrorsInBranches : List (Expr × Block) → List (Expr × Block)
  | [] => []
  | (condition, body) :: rest => (condition, body.withoutErrors) :: withoutErrorsInBranches rest

def withoutErrorsInOption : Option Block → Option Block
  | none => none
  | some body => some body.withoutErrors

end

def FunctionDef.withoutErrors (function : FunctionDef) : FunctionDef :=
  ⟨function.signature, function.body.withoutErrors⟩

theorem Block.statements_withoutErrors (body : Block) :
    body.withoutErrors.statements = withoutErrorsIn body.statements := by
  cases body
  rfl

theorem Statement.eq_error {st : Statement} (h : st.isError = true) : ∃ message line, st = .error message line := by
  cases st with
  | error message line => exact ⟨message, line, rfl⟩
  | _ => cases h

@[simp] theorem Statement.kind_withoutErrors (st : Statement) : st.withoutErrors.kind = st.kind := by
  cases st <;> rfl

@[simp] theorem Statement.line_withoutErrors (st : Statement) : st.withoutErrors.line = st.line := by
  cases st with
  | block body => cases body; rfl
  | _ => rfl

@[simp] theorem Statement.isError_withoutErrors (st : Statement) : st.withoutErrors.isError = st.isError := by
  cases st <;> rfl

theorem withoutErrorsIn_eq (sts : List Statement) :
    withoutErrorsIn sts = (sts.filter (!·.isError)).map Statement.withoutErrors := by
  induction sts with
  | nil => rfl
  | cons st rest ih =>
    unfold withoutErrorsIn
    rw [ih]
    cases h : st.isError <;> simp [h]

theorem withoutErrorsInBranches_eq_map (branches : List (Expr × Block)) :
    withoutErrorsInBranches branches = branches.map fun branch => (branch.1, branch.2.withoutErrors) := by
  induction branches with
  | nil => rfl
  | cons branch rest ih => rw [withoutErrorsInBranches, ih, List.map_cons]

/-! ## Nothing in error is left -/

/-- A statement has a block. -/
inductive Statement.Holds : Statement → Block → Prop
  | branch {test body branches otherwise line} (h : (test, body) ∈ branches) :
      Holds (.conditional branches otherwise line) body
  | otherwise {body branches line} : Holds (.conditional branches (some body) line) body
  | whileLoop {test body line} : Holds (.whileLoop test body line) body
  | forLoop {name source body line} : Holds (.forLoop name source body line) body
  | function {signature body} : Holds (.function signature body) body
  | block {body} : Holds (.block body) body

/-- A statement is one of some statements, or stands in a block of one of them,
at any depth. -/
inductive Statement.StandsIn (st : Statement) : List Statement → Prop
  | here {sts} (h : st ∈ sts) : StandsIn st sts
  | inside {sts outer body} (h : outer ∈ sts) (holds : outer.Holds body) (deeper : StandsIn st body.statements) :
      StandsIn st sts

/-- No line in error stands anywhere in some statements. -/
def ErrorFree (sts : List Statement) : Prop := ∀ st : Statement, st.StandsIn sts → st.isError = false

/-- The blocks of a pruned statement are pruned. -/
theorem Statement.Holds.of_withoutErrors {st : Statement} {body : Block} (h : st.withoutErrors.Holds body) :
    ∃ original : Block, body = original.withoutErrors := by
  cases st with
  | conditional branches otherwise line =>
    simp only [withoutErrors, withoutErrorsInBranches_eq_map] at h
    generalize ho : withoutErrorsInOption otherwise = pruned at h
    cases h with
    | branch h =>
      obtain ⟨branch, -, hb⟩ := List.mem_map.mp h
      cases hb
      exact ⟨_, rfl⟩
    | «otherwise» =>
      cases otherwise with
      | none => cases ho
      | some body => cases ho; exact ⟨_, rfl⟩
  | whileLoop test body line => cases h; exact ⟨_, rfl⟩
  | forLoop name source body line => cases h; exact ⟨_, rfl⟩
  | function signature body => cases h; exact ⟨_, rfl⟩
  | block body => cases h; exact ⟨_, rfl⟩
  | _ => cases h

theorem errorFree_withoutErrorsIn (sts : List Statement) : ErrorFree (withoutErrorsIn sts) := by
  intro st h
  -- By induction on where the statement stands, for pruned statements of any kind.
  generalize hl : withoutErrorsIn sts = pruned at h
  induction h generalizing sts with
  | here h =>
    rw [← hl, withoutErrorsIn_eq] at h
    obtain ⟨original, kept, rfl⟩ := List.mem_map.mp h
    simpa using (List.mem_filter.mp kept).2
  | inside h holds _ ih =>
    rw [← hl, withoutErrorsIn_eq] at h
    obtain ⟨original, -, rfl⟩ := List.mem_map.mp h
    obtain ⟨body, rfl⟩ := holds.of_withoutErrors
    exact ih body.statements body.statements_withoutErrors.symm

end Guion
