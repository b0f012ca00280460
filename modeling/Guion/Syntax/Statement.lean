/-
Statements and blocks as they are written.

A block is the statements of one indentation level. A line that could not be
read stays in its place as an `error` statement, so the lines around it keep
their meaning. The kind of a statement is the name under which its handler is
registered.
-/
import Guion.Syntax.Expr

namespace Guion

inductive DeclarationScope where
  | variable
  | global
  | constant
  deriving DecidableEq, Inhabited

/-- One step of a path into a value. -/
inductive Accessor where
  | index (expr : Expr)
  | field (name : String)

/-- What an assignment writes to. -/
inductive AssignTarget where
  | variable (name : String)
  | path (root : String) (steps : List Accessor)
  | deref (pointer : Expr)

/-- What a `para` loop runs over. -/
inductive ForSource where
  | range (start stop : Expr) (step : Option Expr)
  | collection (expr : Expr)

/-- What a function returns, as far as its first `regresa` tells. -/
inductive ReturnKind where
  | integer
  | real
  | text
  | list
  | matrix
  | dynamic
  deriving DecidableEq, Inhabited

structure Param where
  name : String
  typeName : Option String
  deriving DecidableEq, Inhabited

/-- A function without its body. -/
structure Signature where
  name : String
  params : List Param
  returns : ReturnKind
  line : Nat
  deriving DecidableEq, Inhabited

mutual

/-- The statements of one level, and the line that the block starts on. -/
inductive Block where
  | mk (statements : List Statement) (line : Nat)

inductive Statement where
  | declaration (scope : DeclarationScope) (type : Option TypeSpec) (names : List String)
      (value : Option Expr) (line : Nat)
  | assignment (target : AssignTarget) (value : Expr) (line : Nat)
  | conditional (branches : List (Expr × Block)) (otherwise : Option Block) (line : Nat)
  | whileLoop (condition : Expr) (body : Block) (line : Nat)
  | forLoop (name : String) (source : ForSource) (body : Block) (line : Nat)
  | function (signature : Signature) (body : Block)
  | returnValue (value : Option Expr) (line : Nat)
  | breakLoop (line : Nat)
  | block (body : Block)
  | call (name : String) (arguments : List Expr) (line : Nat)
  | invoke (path : Expr) (arguments : List Expr) (line : Nat)
  | expression (expr : Expr) (line : Nat)
  | error (message : String) (line : Nat)

end

namespace Block

def statements : Block → List Statement
  | .mk statements _ => statements

def line : Block → Nat
  | .mk _ line => line

end Block

instance : Inhabited Block := ⟨.mk [] 0⟩

instance : Inhabited Statement := ⟨.breakLoop 0⟩

/-- A function of a program. -/
structure FunctionDef where
  signature : Signature
  body : Block

namespace Statement

/-- The name under which the statement's handler is registered. -/
def kind : Statement → String
  | .declaration .variable .. => "declarar"
  | .declaration .global .. => "global"
  | .declaration .constant .. => "constante"
  | .assignment .. => "asignar"
  | .conditional .. => "si_es"
  | .whileLoop .. => "mientras"
  | .forLoop .. => "para"
  | .function .. => "funcion"
  | .returnValue .. => "regresa"
  | .breakLoop .. => "rompe"
  | .block .. => "bloque"
  | .call .. => "llamada"
  | .invoke .. => "ejecutar"
  | .expression .. => "expresion"
  | .error .. => "error"

def line : Statement → Nat
  | .declaration _ _ _ _ line
  | .assignment _ _ line
  | .conditional _ _ line
  | .whileLoop _ _ line
  | .forLoop _ _ _ line
  | .returnValue _ line
  | .breakLoop line
  | .call _ _ line
  | .invoke _ _ line
  | .expression _ line
  | .error _ line => line
  | .function signature _ => signature.line
  | .block body => body.line

end Statement

/-! ## Places -/

/-- The variable that an expression starts from and the steps into it, if the
expression is nothing else. -/
def Expr.path? : Expr → Option (String × List Accessor)
  | .variable name _ => some (name, [])
  | .index target i _ => target.path?.map fun (root, steps) => (root, steps ++ [.index i])
  | .field target f _ => target.path?.map fun (root, steps) => (root, steps ++ [.field f])
  | _ => none

/-- The place that an expression reads. -/
def Expr.place? (e : Expr) : Option AssignTarget :=
  match e.path? with
  | none => none
  | some (name, []) => some (.variable name)
  | some (root, steps) => some (.path root steps)

/-! ## The first `regresa` -/

mutual

/-- The value of the first `regresa` of a block in source order, inside nested
blocks too but not inside nested functions. -/
def Block.firstReturn? : Block → Option (Option Expr)
  | .mk statements _ => firstReturnIn? statements

def firstReturnIn? : List Statement → Option (Option Expr)
  | [] => none
  | statement :: rest =>
    match statement.firstReturn? with
    | some value => some value
    | none => firstReturnIn? rest

def Statement.firstReturn? : Statement → Option (Option Expr)
  | .returnValue value _ => some value
  | .conditional branches otherwise _ =>
    match firstReturnInBranches? branches with
    | some value => some value
    | none => firstReturnInOption? otherwise
  | .whileLoop _ body _ => body.firstReturn?
  | .forLoop _ _ body _ => body.firstReturn?
  | .block body => body.firstReturn?
  | _ => none

def firstReturnInBranches? : List (Expr × Block) → Option (Option Expr)
  | [] => none
  | (_, body) :: rest =>
    match body.firstReturn? with
    | some value => some value
    | none => firstReturnInBranches? rest

def firstReturnInOption? : Option Block → Option (Option Expr)
  | none => none
  | some body => body.firstReturn?

end

/-- Whether an expression is written as a list. -/
def Expr.isList : Expr → Bool
  | .list .. => true
  | _ => false

/-- What a function with this body returns: read off the first `regresa`, an
integer when there is none. -/
def Block.returnKind (body : Block) : ReturnKind :=
  match body.firstReturn? with
  | none | some none => .integer
  | some (some expr) =>
    match expr with
    | .literal (.real _) _ => .real
    | .literal (.integer _) _ => .integer
    | .literal (.string _) _ | .literal (.text _) _ => .text
    | .list elements _ =>
      if !elements.isEmpty && elements.all Expr.isList then .matrix else .list
    | _ => .dynamic

/-! ## Depths -/

mutual

/-- Every statement with its nesting depth, in source order. -/
def Block.depths (depth : Nat) : Block → List (Statement × Nat)
  | .mk statements _ => depthsIn depth statements

def depthsIn (depth : Nat) : List Statement → List (Statement × Nat)
  | [] => []
  | statement :: rest => (statement, depth) :: statement.bodyDepths (depth + 1) ++ depthsIn depth rest

/-- The statements inside the blocks of a statement. -/
def Statement.bodyDepths (depth : Nat) : Statement → List (Statement × Nat)
  | .conditional branches otherwise _ =>
    depthsInBranches depth branches ++ depthsInOption depth otherwise
  | .whileLoop _ body _ => body.depths depth
  | .forLoop _ _ body _ => body.depths depth
  | .function _ body => body.depths depth
  | _ => []

def depthsInBranches (depth : Nat) : List (Expr × Block) → List (Statement × Nat)
  | [] => []
  | (_, body) :: rest => body.depths depth ++ depthsInBranches depth rest

def depthsInOption (depth : Nat) : Option Block → List (Statement × Nat)
  | none => []
  | some body => body.depths depth

end

end Guion
