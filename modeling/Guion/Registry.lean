/-
The registry that all programs of a session share: symbols, and the
constructors of types.

A constructor makes a value of its type from a name and an initial value that
may be missing. The built-in types construct the values of their kinds. Every
operation on the symbols either succeeds or leaves them as they were.
-/
import Guion.Error.Runtime
import Guion.Syntax.Expr
import Guion.Value.Coerce

namespace Guion

/-- Makes the value of a variable from its name and its initial value. -/
abbrev Constructor := String → Option Value → Except ConversionError Value

structure Registry where
  symbols : Entries Value := []
  constructors : Entries Constructor := []

namespace Registry

/-- The built-in types, in the order of their names. -/
def baseTypes : List (String × Kind) :=
  [("bit", .bit), ("booleano", .boolean), ("cadena", .string), ("caracter", .character),
    ("complejo", .complex), ("decimal", .decimal), ("diccionario", .dictionary),
    ("entero", .integer), ("estructura", .dictionary), ("fecha", .date), ("hora", .time),
    ("lista", .list), ("matriz", .matrix), ("objeto", .object), ("puntero", .pointer),
    ("real", .real), ("texto", .text), ("tiempo", .duration)]

/-- A registry with neither symbols nor types. -/
def empty : Registry := {}

/-- A registry with the built-in types. -/
def withBaseTypes : Registry :=
  { constructors := baseTypes.map fun (name, kind) => (name, fun _ => Value.construct kind) }

/-- Adds or replaces a type. -/
def registerType (name : String) (constructor : Constructor) (r : Registry) : Registry :=
  { r with constructors := Entries.insert name constructor r.constructors }

/-- The names of the types, in ascending order. -/
def typeNames (r : Registry) : List String := Entries.names r.constructors

def hasType (name : String) (r : Registry) : Bool := Entries.contains name r.constructors

/-- Makes a value of a type. -/
def construct (typeName name : String) (initial : Option Value) (r : Registry) :
    Except RegistryError Value :=
  match Entries.get? typeName r.constructors with
  | none => .error (.noSuchConstructor typeName)
  | some constructor => (constructor name initial).mapError .conversion

/-- Coerces every item to a kind. -/
def coerceItems (element : Kind) (items : List Value) : Except ConversionError (List Value) :=
  items.mapM (Value.coerce element)

/-- Coerces the value of an entry to a kind. -/
def coerceEntry (element : Kind) (entry : String × Value) :
    Except ConversionError (String × Value) :=
  (Value.coerce element entry.2).map fun value => (entry.1, value)

/-- Coerces the parts of a collection to a kind. A matrix holds numeric kinds
only. -/
def coerceParts (element : Kind) (v : Value) : Except ConversionError Value :=
  match v with
  | .list items => (coerceItems element items).map .list
  | .dictionary entries => (entries.mapM (coerceEntry element)).map .dictionary
  | .matrix rows =>
    if element.isNumeric then (rows.mapM (coerceItems element)).map .matrix else .ok v
  | _ => .ok v

/-- Makes a value of a declared type: a collection takes the parts of its
initial value in the base type. -/
def constructTyped (spec : TypeSpec) (name : String) (initial : Option Value) (r : Registry) :
    Except RegistryError Value :=
  match spec.container? with
  | none => r.construct spec.base name initial
  | some container =>
    if !r.hasType spec.base then .error (.noSuchConstructor spec.base)
    else do
      let value ← (Value.construct container initial).mapError .conversion
      match Kind.ofName? spec.base with
      | none => return value
      | some element =>
        if element = container then return value
        else (coerceParts element value).mapError .conversion

/-! ## Symbols -/

def get? (name : String) (r : Registry) : Option Value := Entries.get? name r.symbols

def contains (name : String) (r : Registry) : Bool := Entries.contains name r.symbols

/-- Puts a value under a name, whatever was there. -/
def put (name : String) (value : Value) (r : Registry) : Registry :=
  { r with symbols := Entries.insert name value r.symbols }

/-- Adds a symbol under a free name. -/
def insert (name : String) (value : Value) (r : Registry) : Except RegistryError Registry :=
  if r.contains name then .error (.alreadyExists name) else .ok (r.put name value)

/-- Makes a value of a type and adds it under a free name. -/
def create (typeName name : String) (initial : Option Value) (r : Registry) :
    Except RegistryError (Value × Registry) :=
  if r.contains name then .error (.alreadyExists name)
  else do
    let value ← r.construct typeName name initial
    return (value, r.put name value)

/-- Writes a value to a symbol, in the kind that the symbol has. -/
def modify (name : String) (value : Value) (r : Registry) :
    Except RegistryError (Value × Registry) :=
  match r.get? name with
  | none => .error (.notFound name)
  | some slot =>
    match slot.overwrite value with
    | .ok stored => .ok (stored, r.put name stored)
    | .error e => .error (.conversion e)

/-- Replaces the value of a symbol. -/
def replace (name : String) (value : Value) (r : Registry) : Except RegistryError Registry :=
  if r.contains name then .ok (r.put name value) else .error (.notFound name)

/-- Removes a symbol and gives its value. -/
def delete (name : String) (r : Registry) : Except RegistryError (Value × Registry) :=
  match r.get? name with
  | none => .error (.notFound name)
  | some value => .ok (value, { r with symbols := Entries.erase name r.symbols })

/-- Declares a program-level variable: a symbol of the same kind takes the
value in that kind, any other symbol is replaced, and a new one is added. -/
def redeclare (name : String) (value : Value) (r : Registry) :
    Except RegistryError (Value × Registry) :=
  match r.get? name with
  | none => .ok (value, r.put name value)
  | some existing =>
    if existing.kind = value.kind then r.modify name value else .ok (value, r.put name value)

end Registry
end Guion
