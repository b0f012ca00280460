/-
Syntax without its lines.

`eraseLines` puts line 0 in place of every line that a node carries. Two
programs that are the same without their lines say the same on other lines.
What a function returns is read off its body without looking at lines
(`Block.returnKind_eraseLines`).
-/
import Guion.Syntax.Statement

namespace Guion

/-! ## Expressions -/

mutual

/-- The expression with line 0 everywhere. -/
def Expr.eraseLines : Expr → Expr
  | .literal value _ => .literal value 0
  | .variable name _ => .variable name 0
  | .unary op operand _ => .unary op operand.eraseLines 0
  | .binary left op right _ => .binary left.eraseLines op right.eraseLines 0
  | .call name arguments _ => .call name (eraseLinesIn arguments) 0
  | .methodCall receiver method arguments _ =>
    .methodCall receiver.eraseLines method (eraseLinesIn arguments) 0
  | .index target index _ => .index target.eraseLines index.eraseLines 0
  | .field target field _ => .field target.eraseLines field 0
  | .reference operand _ => .reference operand.eraseLines 0
  | .deref operand _ => .deref operand.eraseLines 0
  | .cast typeName pointer operand _ => .cast typeName pointer operand.eraseLines 0
  | .list elements _ => .list (eraseLinesIn elements) 0
  | .dictionary entries _ => .dictionary (eraseLinesInEntries entries) 0
  | .raw text _ => .raw text 0

def eraseLinesIn : List Expr → List Expr
  | [] => []
  | expr :: rest => expr.eraseLines :: eraseLinesIn rest

def eraseLinesInEntries : List (Expr × Expr) → List (Expr × Expr)
  | [] => []
  | (key, value) :: rest => (key.eraseLines, value.eraseLines) :: eraseLinesInEntries rest

end

theorem eraseLinesIn_eq_map (exprs : List Expr) : eraseLinesIn exprs = exprs.map Expr.eraseLines := by
  induction exprs with
  | nil => rfl
  | cons expr rest ih => rw [eraseLinesIn, ih, List.map_cons]

@[simp] theorem Expr.line_eraseLines (expr : Expr) : expr.eraseLines.line = 0 := by
  cases expr <;> rfl

def Accessor.eraseLines : Accessor → Accessor
  | .index expr => .index expr.eraseLines
  | .field name => .field name

def AssignTarget.eraseLines : AssignTarget → AssignTarget
  | .variable name => .variable name
  | .path root steps => .path root (steps.map Accessor.eraseLines)
  | .deref pointer => .deref pointer.eraseLines

def ForSource.eraseLines : ForSource → ForSource
  | .range start stop step =>
    .range start.eraseLines stop.eraseLines (step.map Expr.eraseLines)
  | .collection expr => .collection expr.eraseLines

/-! ## Statements -/

mutual

/-- The block with line 0 everywhere. -/
def Block.eraseLines : Block → Block
  | .mk statements _ => .mk (eraseLinesInBlock statements) 0

def eraseLinesInBlock : List Statement → List Statement
  | [] => []
  | statement :: rest => statement.eraseLines :: eraseLinesInBlock rest

/-- The statement with line 0 everywhere. -/
def Statement.eraseLines : Statement → Statement
  | .declaration scope type names value _ =>
    .declaration scope type names (value.map Expr.eraseLines) 0
  | .assignment target value _ => .assignment target.eraseLines value.eraseLines 0
  | .conditional branches otherwise _ =>
    .conditional (eraseLinesInBranches branches) (eraseLinesInOption otherwise) 0
  | .whileLoop condition body _ => .whileLoop condition.eraseLines body.eraseLines 0
  | .forLoop name source body _ => .forLoop name source.eraseLines body.eraseLines 0
  | .function signature body => .function { signature with line := 0 } body.eraseLines
  | .returnValue value _ => .returnValue (value.map Expr.eraseLines) 0
  | .breakLoop _ => .breakLoop 0
  | .block body => .block body.eraseLines
  | .call name arguments _ => .call name (eraseLinesIn arguments) 0
  | .invoke path arguments _ => .invoke path.eraseLines (eraseLinesIn arguments) 0
  | .expression expr _ => .expression expr.eraseLines 0
  | .error message _ => .error message 0

def eraseLinesInBranches : List (Expr × Block) → List (Expr × Block)
  | [] => []
  | (condition, body) :: rest => (condition.eraseLines, body.eraseLines) :: eraseLinesInBranches rest

def eraseLinesInOption : Option Block → Option Block
  | none => none
  | some body => some body.eraseLines

end

theorem eraseLinesInBlock_eq_map (statements : List Statement) :
    eraseLinesInBlock statements = statements.map Statement.eraseLines := by
  induction statements with
  | nil => rfl
  | cons statement rest ih => rw [eraseLinesInBlock, ih, List.map_cons]

/-! ## The first `regresa` -/

mutual

theorem Block.firstReturn?_eraseLines : ∀ block : Block,
    block.eraseLines.firstReturn? = block.firstReturn?.map (·.map Expr.eraseLines)
  | .mk statements _ => firstReturnIn?_eraseLines statements

theorem firstReturnIn?_eraseLines : ∀ statements : List Statement,
    firstReturnIn? (eraseLinesInBlock statements) =
      (firstReturnIn? statements).map (·.map Expr.eraseLines)
  | [] => rfl
  | statement :: rest => by
    rw [eraseLinesInBlock, firstReturnIn?, firstReturnIn?, statement.firstReturn?_eraseLines,
      firstReturnIn?_eraseLines rest]
    cases statement.firstReturn? <;> rfl

theorem Statement.firstReturn?_eraseLines : ∀ statement : Statement,
    statement.eraseLines.firstReturn? = statement.firstReturn?.map (·.map Expr.eraseLines)
  | .returnValue .. => rfl
  | .conditional branches otherwise _ => by
    rw [Statement.eraseLines, Statement.firstReturn?, Statement.firstReturn?,
      firstReturnInBranches?_eraseLines branches, firstReturnInOption?_eraseLines otherwise]
    cases firstReturnInBranches? branches <;> rfl
  | .whileLoop _ body _ => body.firstReturn?_eraseLines
  | .forLoop _ _ body _ => body.firstReturn?_eraseLines
  | .block body => body.firstReturn?_eraseLines
  | .declaration .. | .assignment .. | .function .. | .breakLoop .. | .call .. | .invoke ..
  | .expression .. | .error .. => rfl

theorem firstReturnInBranches?_eraseLines : ∀ branches : List (Expr × Block),
    firstReturnInBranches? (eraseLinesInBranches branches) =
      (firstReturnInBranches? branches).map (·.map Expr.eraseLines)
  | [] => rfl
  | (_, body) :: rest => by
    rw [eraseLinesInBranches, firstReturnInBranches?, firstReturnInBranches?,
      body.firstReturn?_eraseLines, firstReturnInBranches?_eraseLines rest]
    cases body.firstReturn? <;> rfl

theorem firstReturnInOption?_eraseLines : ∀ otherwise : Option Block,
    firstReturnInOption? (eraseLinesInOption otherwise) =
      (firstReturnInOption? otherwise).map (·.map Expr.eraseLines)
  | none => rfl
  | some body => body.firstReturn?_eraseLines

end

theorem Expr.isList_eraseLines (expr : Expr) : expr.eraseLines.isList = expr.isList := by
  cases expr <;> rfl

theorem Block.returnKind_eraseLines (block : Block) : block.eraseLines.returnKind = block.returnKind := by
  rw [Block.returnKind, Block.returnKind, block.firstReturn?_eraseLines]
  rcases block.firstReturn? with _ | _ | expr
  · rfl
  · rfl
  · cases expr with
    | literal value line => cases value <;> rfl
    | list elements line =>
      simp only [Option.map_some, Expr.eraseLines, eraseLinesIn_eq_map, List.isEmpty_map, List.all_map,
        Function.comp_def, Expr.isList_eraseLines]
    | «variable» | unary | binary | call | methodCall | index | field | reference | deref | cast
    | dictionary | raw => rfl

end Guion
