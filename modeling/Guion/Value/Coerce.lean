/-
Coercion: the value of a given kind that another value stands for.

Each kind has its own policy. A value that meets its kind's constraint is its
own coercion; the result always has the requested kind. Two kinds constrain
their values: a `texto` has a capacity, and a `matriz` is rectangular with
numeric cells.
-/
import Guion.Value.Convert
import Guion.Value.FromText
import Guion.Value.Literal

namespace Guion.Value

/-- The rows of a list of lists. -/
def listRows? : List Value → Option (List (List Value))
  | [] => some []
  | .list row :: rest => (listRows? rest).map (row :: ·)
  | _ :: _ => none

/-- Whether a matrix may hold the value. -/
def isCell (v : Value) : Bool := v.kind.isNumeric

/-- What keeps rows from being a matrix. -/
def matrixFault? (rows : List (List Value)) : Option String :=
  let width := (rows.head?.map List.length).getD 0
  if rows.any fun row => row.length != width then
    some "todas las filas deben tener la misma longitud"
  else if rows.all fun row => row.all isCell then none
  else some "los elementos deben ser numéricos"

/-- The truth value that a bit or a boolean may take from a value. -/
def truth? : Value → Option Bool
  | .bit b | .boolean b => some b
  | .integer i => if i = 0 then some false else if i = 1 then some true else none
  | .text s | .string s => readBoolean? s
  | _ => none

/-- Converts a value to a kind, following that kind's policy. -/
def coerce (kind : Kind) (source : Value) : Except ConversionError Value :=
  let reject (hint : String) : Except ConversionError Value := .error (.of source kind.name hint)
  let matrixOf (rows : List (List Value)) : Except ConversionError Value :=
    match matrixFault? rows with
    | some hint => reject hint
    | none => .ok (.matrix rows)
  match kind with
  | .bit =>
    match source.truth? with
    | some b => .ok (.bit b)
    | none => reject "solo acepta 0, 1, verdadero o falso"
  | .boolean =>
    match source.truth? with
    | some b => .ok (.boolean b)
    | none => reject "solo acepta 0, 1, verdadero o falso"
  | .integer => source.toInteger.map .integer
  | .real => source.toReal.map .real
  | .decimal => source.toReal.map .decimal
  | .character =>
    match source with
    | .character c => .ok (.character c)
    | .text s | .string s =>
      match s.toList with
      | [c] => .ok (.character c)
      | _ => reject "se esperaba exactamente un carácter"
    | _ => reject "se esperaba exactamente un carácter"
  | .text =>
    let form := source.textForm
    if textCapacity < form.length then
      .error ⟨String.ofList (form.toList.take 20) ++ "...", kind.name,
        s!"admite hasta {textCapacity} caracteres"⟩
    else .ok (.text form)
  | .string => .ok (.string source.textForm)
  | .complex =>
    match source with
    | .complex z => .ok (.complex z)
    | .text s | .string s => (Complex.ofText s).map .complex
    | _ =>
      match source.toReal with
      | .ok x => .ok (.complex (.ofReal x))
      | .error _ => reject "use la forma a+bi"
  | .date =>
    match source with
    | .date d => .ok (.date d)
    | .text s | .string s => (Date.ofText (Text.trimString s)).map .date
    | _ => reject "use el formato AAAA-MM-DD"
  | .time =>
    match source with
    | .time t => .ok (.time t)
    | .date d =>
      match d.time with
      | some t => .ok (.time t)
      | none => reject "use el formato HH:MM:SS"
    | .text s | .string s => (TimeOfDay.ofText (Text.trimString s)).map .time
    | _ => reject "use el formato HH:MM:SS"
  | .duration =>
    match source with
    | .duration d => .ok (.duration d)
    | .integer i => .ok (.duration ⟨i⟩)
    | .text s | .string s => (Duration.ofText s).map .duration
    | _ => reject "use unidades h, m y s, por ejemplo 2h30m"
  | .list =>
    match source with
    | .list items => .ok (.list items)
    | .matrix rows => .ok (.list (rows.map .list))
    | .text s | .string s =>
      match readLiteral s with
      | .list items => .ok (.list items)
      | _ => reject "se esperaba una lista [a, b, ...]"
    | _ => reject "se esperaba una lista [a, b, ...]"
  | .matrix =>
    match source with
    | .matrix rows => matrixOf rows
    | .list items =>
      match listRows? items with
      | some rows => matrixOf rows
      | none => reject "se esperaba una lista de filas"
    | .text s | .string s =>
      match readLiteral s with
      | .list items =>
        match listRows? items with
        | some rows => matrixOf rows
        | none => reject "se esperaba una lista de filas"
      | _ => reject "se esperaba [[a, b], [c, d]]"
    | _ => reject "se esperaba [[a, b], [c, d]]"
  | .dictionary =>
    match source with
    | .dictionary entries => .ok (.dictionary entries)
    | _ => reject "solo acepta un diccionario"
  | .object =>
    match source with
    | .null | .nullPointer => .ok .null
    | .object identity name description contents =>
      .ok (.object identity name description contents)
    | _ => reject "solo acepta un objeto o nulo"
  | .pointer =>
    match source with
    | .null | .nullPointer => .ok .nullPointer
    | .namedPointer name => .ok (.namedPointer name)
    | .valuePointer target => .ok (.valuePointer target)
    | _ => reject "use &variable o nulo"

/-- A value of a kind: the given one coerced, or the default. -/
def construct (kind : Kind) (initial : Option Value) : Except ConversionError Value :=
  match initial with
  | some source => coerce kind source
  | none => .ok (default kind)

/-- What a slot holds after a value is written to it: the value in the kind of
the slot. -/
def overwrite (slot source : Value) : Except ConversionError Value := coerce slot.kind source

end Guion.Value
