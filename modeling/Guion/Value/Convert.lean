/-
Conversions of a value to a truth value, an integer and a real.

Each conversion accepts the values whose meaning is plain: numbers, truth
values, and texts that spell one. Everything else is a `ConversionError` that
carries the displayed form of the value.
-/
import Guion.Error.Conversion
import Guion.Value.Basic

namespace Guion

/-- A failed conversion of a value. -/
def ConversionError.of (v : Value) (target hint : String) : ConversionError :=
  ⟨v.display, target, hint⟩

namespace Value

/-- The truth value that a word spells. -/
def readBoolean? (s : String) : Option Bool :=
  match Text.trimString s with
  | "verdadero" | "true" | "1" => some true
  | "falso" | "false" | "0" => some false
  | _ => none

/-- The truth value of a value. Numbers are true when not zero, `nulo` is
false, objects and pointers are true. -/
def toBoolean (v : Value) : Except ConversionError Bool :=
  match v with
  | .boolean b | .bit b => .ok b
  | .integer i => .ok (i != 0)
  | .real x | .decimal x => .ok (!x.isZero)
  | .text s | .string s =>
    match readBoolean? s with
    | some b => .ok b
    | none => .error ⟨s, "booleano", "use verdadero o falso"⟩
  | .null | .nullPointer => .ok false
  | .object .. | .namedPointer _ | .valuePointer _ => .ok true
  | _ => .error (.of v "booleano" s!"un valor {v.typeName} no es lógico")

/-- The integer of a value; reals lose their fraction. -/
def toInteger (v : Value) : Except ConversionError Int64 :=
  let found : Option Int64 :=
    match v with
    | .integer i => some i
    | .bit b | .boolean b => some (if b then 1 else 0)
    | .real x | .decimal x => Number.truncatedInteger? x
    | .duration d => some d.seconds
    | .text s | .string s =>
      let trimmed := Text.trim s.toList
      match readInt64? trimmed with
      | some i => some i
      | none => (Number.readFinite? trimmed).bind Number.truncatedInteger?
    | _ => none
  match found with
  | some i => .ok i
  | none => .error (.of v "entero" "se esperaba un número entero representable")

/-- The real of a value: the one numeric conversion that arithmetic uses. -/
def toReal (v : Value) : Except ConversionError Binary64 :=
  let found : Option Binary64 :=
    match v with
    | .integer i => some (Number.realOfInteger i)
    | .real x | .decimal x => some x
    | .bit b | .boolean b => some (if b then .one else .zero false)
    | .text s | .string s => Number.readFinite? (Text.trim s.toList)
    | _ => none
  match found with
  | some x => .ok x
  | none => .error (.of v "real" s!"un valor {v.typeName} no es numérico")

end Value
end Guion
