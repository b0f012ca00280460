/-
The functions on texts and collections.
-/
import Guion.Operator.Numeric
import Guion.Text.Case
import Guion.Text.Pieces
import Guion.Value.Json

namespace Guion.Library

open Operator

/-! ## Texts -/

/-- A text of the same kind as another one. -/
def sameTextKind (v : Value) (content : List Char) : Value :=
  match v with
  | .text _ => .text (String.ofList content)
  | _ => .string (String.ofList content)

/-- A character as long as there is one only, else a text. -/
def characterOrText : List Char → Value
  | [c] => .character c
  | content => .string (String.ofList content)

/-- `mayusculas(t)`. -/
def upper (v : Value) (line : Nat) : Except RuntimeError Value :=
  match v with
  | .character c => .ok (characterOrText (Text.upperChar c))
  | _ => do return sameTextKind v (Text.upper (← textArgument "mayusculas" v line).toList)

/-- `minusculas(t)`. -/
def lower (v : Value) (line : Nat) : Except RuntimeError Value :=
  match v with
  | .character c => .ok (characterOrText (Text.lowerChar c))
  | _ => do return sameTextKind v (Text.lower (← textArgument "minusculas" v line).toList)

/-- `recortar(t)`. -/
def trim (v : Value) (line : Nat) : Except RuntimeError Value := do
  return sameTextKind v (Text.trim (← textArgument "recortar" v line).toList)

/-- A list of texts. -/
def textList (pieces : List (List Char)) : Value :=
  .list (pieces.map fun piece => .string (String.ofList piece))

/-- `dividir(t)`: the words. -/
def splitWords (v : Value) (line : Nat) : Except RuntimeError Value := do
  return textList (Text.words (← textArgument "dividir" v line).toList)

/-- `dividir(t, separador)`. -/
def split (v separator : Value) (line : Nat) : Except RuntimeError Value := do
  let s ← textArgument "dividir" v line
  let separator := separator.textForm.toList
  if separator.isEmpty then
    .error (.invalidArgument "dividir" "el separador no puede estar vacío" line)
  else return textList (Text.splitOn separator s.toList)

/-! ## Lists and dictionaries -/

/-- `longitud(x)`. -/
def length (v : Value) (line : Nat) : Except RuntimeError Value :=
  match v with
  | .text s | .string s => integerResult s.length line
  | .list items => integerResult items.length line
  | .matrix rows => integerResult rows.length line
  | .dictionary entries => integerResult entries.length line
  | _ =>
    .error (.invalidArgument "longitud" ("un valor " ++ v.typeName ++ " no tiene longitud") line)

/-- `agregar(lista, x, …)`: the list with the values behind it. -/
def append (v : Value) (more : List Value) (line : Nat) : Except RuntimeError Value :=
  match v with
  | .list items => .ok (.list (items ++ more))
  | _ =>
    .error (.invalidArgument "agregar" ("se esperaba una lista, se recibió " ++ v.typeName) line)

/-- `claves(d)`: the keys in ascending order. -/
def keys (v : Value) (line : Nat) : Except RuntimeError Value :=
  match v with
  | .dictionary entries => .ok (.list ((Entries.names entries).map .string))
  | _ =>
    .error (.invalidArgument "claves"
      ("se esperaba un diccionario, se recibió " ++ v.typeName) line)

/-- `valores(d)`: the values in the order of their keys. -/
def values (v : Value) (line : Nat) : Except RuntimeError Value :=
  match v with
  | .dictionary entries => .ok (.list (Entries.values entries))
  | _ =>
    .error (.invalidArgument "valores"
      ("se esperaba un diccionario, se recibió " ++ v.typeName) line)

/-- `contiene(c, x)`: an item of a list, a key of a dictionary, or a part of a
text. -/
def contains (v needle : Value) (line : Nat) : Except RuntimeError Value :=
  match v with
  | .list items => .ok (.boolean (items.any fun item => item.same needle))
  | .dictionary entries => .ok (.boolean (Entries.contains needle.textForm entries))
  | .text s | .string s => .ok (.boolean (Text.occursIn needle.textForm.toList s.toList))
  | _ =>
    .error (.invalidArgument "contiene"
      ("un valor " ++ v.typeName ++ " no es una colección") line)

/-- The real by which a number is sorted. -/
def sortKey? (v : Value) : Option Binary64 :=
  match v with
  | .integer _ | .real _ | .decimal _ | .bit _ | .boolean _ => v.toReal.toOption
  | _ => none

/-- Sorts values by keys; values with equal keys keep their order. -/
def sortByKey (le : κ → κ → Bool) (keyed : List (κ × Value)) : List Value :=
  (keyed.mergeSort fun a b => le a.1 b.1).map (·.2)

/-- The items in ascending order: by value when all are numbers, else by text. -/
def sortItems (items : List Value) : List Value :=
  match items.mapM sortKey? with
  | some sortKeys => sortByKey (fun a b => a.keyCompare b != .gt) (sortKeys.zip items)
  | none => sortByKey (fun a b => compare a b != .gt) (items.map fun v => (v.textForm, v))

/-- `ordenar(lista)`. -/
def sort (v : Value) (line : Nat) : Except RuntimeError Value :=
  match v with
  | .list items => .ok (.list (sortItems items))
  | _ =>
    .error (.invalidArgument "ordenar" ("se esperaba una lista, se recibió " ++ v.typeName) line)

/-- The longest list that `rango` builds, `2 ^ 24` items. -/
def maxRangeLength : Nat := 0x100_0000

/-- Whether a number comes strictly before the end of a range, in the direction of
its step. -/
def precedes (current stop step : Int64) : Bool :=
  (0 < step.toInt && current.toInt < stop.toInt) || (step.toInt < 0 && stop.toInt < current.toInt)

/-- The numbers from the current one on, step by step, as long as they come before
the end, behind those that are there (the last one first). A number that does not fit
64 bits ends the range; one that comes before the end but has no room is an error. -/
def rangeFrom (stop step : Int64) (line : Nat) :
    Nat → Int64 → List Value → Except RuntimeError Value
  | room, current, found =>
    if precedes current stop step then
      match room with
      | 0 => .error (.invalidArgument "rango" "el rango es demasiado grande" line)
      | room + 1 =>
        match int64? (current.toInt + step.toInt) with
        | some next => rangeFrom stop step line room next (.integer current :: found)
        | none => .ok (.list (.integer current :: found).reverse)
    else .ok (.list found.reverse)
termination_by structural room => room

/-- The integers `start`, `start + step`, … strictly before `stop`. -/
def range (start stop step : Int64) (line : Nat) : Except RuntimeError Value :=
  if step = 0 then
    .error (.invalidArgument "rango" "el incremento no puede ser cero" line)
  else rangeFrom stop step line maxRangeLength start []

/-! ## Any value -/

/-- `tipo(x)`. -/
def typeOf (v : Value) : Value := .string v.typeName

/-- `afirmar(condicion)`. -/
def assertTrue (v : Value) (line : Nat) : Except RuntimeError Value := do
  let holds ← v.toBoolean.mapError (.conversion · line)
  if holds then return .boolean true else .error (.assertionFailed line)

/-- `a_json(x)`. -/
def json (v : Value) : Value := .string v.toJson.compress

end Guion.Library
