/-
Reading and writing inside collections.

A key is an index, with a value, or a field. Positions count from zero.
Reading along keys and `storeAt` agree: what is stored is read back, and
nothing else changes. A list never grows; only the last key may add an entry
to a dictionary.
-/
import Guion.Operator.Numeric

namespace Guion.Operator

/-- One step into a value. -/
inductive Key where
  | index (value : Value)
  | field (name : String)

/-- The position that an index stands for in a sequence. -/
def position (index : Value) (length line : Nat) : Except RuntimeError Nat := do
  let i ← integerOf line index
  match Number.position? i length with
  | some n => return n
  | none => .error (.indexOutOfBounds i length line)

/-- The item at a position that an index stands for. -/
def itemAt (items : List α) (index : Value) (line : Nat) : Except RuntimeError α := do
  let n ← position index items.length line
  match items[n]? with
  | some item => return item
  | none => .error (.indexOutOfBounds (Int64.ofNat n) items.length line)

/-- The character that comes after so many others, from a place in a string on. -/
def characterFrom (s : String) : Nat → String.Pos.Raw → Option Char
  | 0, place => place.get? s
  | count + 1, place => characterFrom s count (place.next s)

/-- The character at a position that an index stands for. -/
def characterAt (s : String) (index : Value) (line : Nat) : Except RuntimeError Char := do
  let n ← position index s.length line
  match characterFrom s n 0 with
  | some c => return c
  | none => .error (.indexOutOfBounds (Int64.ofNat n) s.length line)

/-- The entry under a key. -/
def entryAt (entries : Entries Value) (key : String) (line : Nat) : Except RuntimeError Value :=
  match Entries.get? key entries with
  | some value => .ok value
  | none => .error (.keyNotFound key line)

/-- `target[index]`: an element, a row, a character, or the entry under the text
of the index. -/
def indexValue (target index : Value) (line : Nat) : Except RuntimeError Value :=
  match target with
  | .list items => itemAt items index line
  | .matrix rows => (itemAt rows index line).map .list
  | .text s | .string s => (characterAt s index line).map .character
  | .dictionary entries => entryAt entries index.textForm line
  | _ => .error (.notIndexable target.typeName line)

/-- `target.field`: a dictionary entry. -/
def fieldValue (target : Value) (field : String) (line : Nat) : Except RuntimeError Value :=
  match target with
  | .dictionary entries => entryAt entries field line
  | _ => .error (.notIndexable target.typeName line)

/-- One step of a read. -/
def step (target : Value) (line : Nat) : Key → Except RuntimeError Value
  | .index index => indexValue target index line
  | .field name => fieldValue target name line

/-- The name of the dictionary entry that a key stands for. -/
def Key.entryName : Key → String
  | .index value => value.textForm
  | .field name => name

/-- The value with another one at the end of the keys. -/
def storeAt : Value → List Key → Value → Nat → Except RuntimeError Value
  | _, [], value, _ => .ok value
  | .list items, .index index :: rest, value, line => do
    let n ← position index items.length line
    let item ← itemAt items index line
    let stored ← storeAt item rest value line
    return .list (items.set n stored)
  | .matrix rows, .index index :: rest, value, line => do
    let n ← position index rows.length line
    let row ← itemAt rows index line
    match rest with
    | [] =>
      match value with
      | .list cells =>
        if cells.length = row.length then return .matrix (rows.set n cells)
        else .error (.typeMismatch ("'" ++ value.display ++ "' no es una fila válida") line)
      | _ => .error (.typeMismatch ("'" ++ value.display ++ "' no es una fila válida") line)
    | .index column :: tail => do
      let m ← position column row.length line
      let cell ← itemAt row column line
      let stored ← storeAt cell tail value line
      return .matrix (rows.set n (row.set m stored))
    | .field _ :: _ => .error (.notIndexable "fila de matriz" line)
  | .dictionary entries, key :: rest, value, line =>
    let name := key.entryName
    if rest.isEmpty then .ok (.dictionary (Entries.insert name value entries))
    else do
      let entry ← entryAt entries name line
      let stored ← storeAt entry rest value line
      return .dictionary (Entries.insert name stored entries)
  | container, _ :: _, _, line => .error (.notIndexable container.typeName line)
termination_by structural _ keys => keys

end Guion.Operator
