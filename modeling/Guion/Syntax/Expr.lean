/-
Expressions and types as they are written.

Every node carries the line that it was written on. An initial value that is
no expression is kept as `raw` text and read as a literal when it is needed.
-/
import Guion.Value.Basic

namespace Guion

inductive BinaryOperator where
  | add
  | sub
  | mul
  | div
  | mod
  | less
  | greater
  | lessEqual
  | greaterEqual
  | equal
  | notEqual
  | and
  | or
  deriving DecidableEq, Inhabited

def BinaryOperator.all : List BinaryOperator :=
  [.add, .sub, .mul, .div, .mod, .less, .greater, .lessEqual, .greaterEqual, .equal, .notEqual,
    .and, .or]

/-- The operator as it is written. -/
def BinaryOperator.text : BinaryOperator → String
  | .add => "+"
  | .sub => "-"
  | .mul => "*"
  | .div => "/"
  | .mod => "%"
  | .less => "<"
  | .greater => ">"
  | .lessEqual => "<="
  | .greaterEqual => ">="
  | .equal => "=="
  | .notEqual => "!="
  | .and => "&&"
  | .or => "||"

inductive UnaryOperator where
  | negate
  | plus
  | not
  deriving DecidableEq, Inhabited

def UnaryOperator.all : List UnaryOperator := [.negate, .plus, .not]

/-- The operator as it is written. -/
def UnaryOperator.text : UnaryOperator → String
  | .negate => "-"
  | .plus => "+"
  | .not => "!"

inductive Expr where
  | literal (value : Value) (line : Nat)
  | variable (name : String) (line : Nat)
  | unary (op : UnaryOperator) (operand : Expr) (line : Nat)
  | binary (left : Expr) (op : BinaryOperator) (right : Expr) (line : Nat)
  | call (name : String) (arguments : List Expr) (line : Nat)
  | methodCall (receiver : Expr) (method : String) (arguments : List Expr) (line : Nat)
  | index (target index : Expr) (line : Nat)
  | field (target : Expr) (field : String) (line : Nat)
  | reference (operand : Expr) (line : Nat)
  | deref (operand : Expr) (line : Nat)
  | cast (typeName : String) (pointer : Bool) (operand : Expr) (line : Nat)
  | list (elements : List Expr) (line : Nat)
  | dictionary (entries : List (Expr × Expr)) (line : Nat)
  | raw (text : String) (line : Nat)

instance : Inhabited Expr := ⟨.variable "" 0⟩

/-- The line that an expression was written on. -/
def Expr.line : Expr → Nat
  | .literal _ line
  | .variable _ line
  | .unary _ _ line
  | .binary _ _ _ line
  | .call _ _ line
  | .methodCall _ _ _ line
  | .index _ _ line
  | .field _ _ line
  | .reference _ line
  | .deref _ line
  | .cast _ _ _ line
  | .list _ line
  | .dictionary _ line
  | .raw _ line => line

/-- A declared type: markers, a base type, and how many pairs of brackets. -/
structure TypeSpec where
  markers : List String
  dims : Nat
  base : String
  deriving DecidableEq, Inhabited

namespace TypeSpec

/-- The kind of the collection that the type describes, if it is one. -/
def container? (spec : TypeSpec) : Option Kind :=
  match spec.markers with
  | marker :: _ => Kind.ofName? marker
  | [] => if spec.dims = 0 then none else if spec.dims = 1 then some .list else some .matrix

def display (spec : TypeSpec) : String :=
  String.join (spec.markers.map (· ++ " ")) ++ spec.base ++
    String.join (List.replicate spec.dims "[]")

end TypeSpec
end Guion
