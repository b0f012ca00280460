/-
Values as JSON documents.

Numbers, truth values, texts, lists and dictionaries have counterparts; dates
and times are written as their texts, an object as its description, a complex
number and a pointer as small objects. A real that is not finite is `null`.
In the other direction an object with exactly the two numeric members of a
complex number is one.
-/
import Guion.Json.Reader
import Guion.Value.Basic

namespace Guion.Value

/-- The document of a real. -/
def realToJson (x : Binary64) : Json := if x.isFinite then .real x else .null

mutual

/-- The document of a value. -/
def toJson : Value → Json
  | .bit b => .integer (if b then 1 else 0)
  | .boolean b => .bool b
  | .integer i => .integer i.toInt
  | .real x | .decimal x => realToJson x
  | .character c => .string (String.ofList [c])
  | .text s | .string s => .string s
  | .complex z =>
    .object [("imaginario", realToJson z.imaginary), ("real", realToJson z.real)]
  | .date d => .string (String.ofList d.render)
  | .time t => .string (String.ofList t.render)
  | .duration d => .string (String.ofList d.render)
  | .list items => .array (itemsToJson items)
  | .matrix rows => .array (rowsToJson rows)
  | .dictionary entries => .object (entriesToJson entries)
  | .object _ _ description _ => .string description
  | .null | .nullPointer => .null
  | .namedPointer name => .object [("puntero", .string name)]
  | .valuePointer target => .object [("puntero", toJson target)]

def itemsToJson : List Value → List Json
  | [] => []
  | v :: rest => toJson v :: itemsToJson rest

def rowsToJson : List (List Value) → List Json
  | [] => []
  | row :: rest => .array (itemsToJson row) :: rowsToJson rest

def entriesToJson : List (String × Value) → List (String × Json)
  | [] => []
  | (key, v) :: rest => (key, toJson v) :: entriesToJson rest

end

/-- The real of a numeric document. -/
def realOfJson? : Json → Option Binary64
  | .integer n => some (.ofInt n)
  | .real x => some x
  | _ => none

/-- The complex number that two members stand for. -/
def complexOfMembers? (members : Entries Json) : Option Complex :=
  if members.length ≠ 2 then none
  else do
    let real ← (Entries.get? "real" members).bind realOfJson?
    let imaginary ← (Entries.get? "imaginario" members).bind realOfJson?
    some ⟨real, imaginary⟩

mutual

/-- The value of a document. -/
def ofJson : Json → Value
  | .null => .null
  | .bool b => .boolean b
  | .integer n =>
    match int64? n with
    | some i => .integer i
    | none => .real (.ofInt n)
  | .real x => .real x
  | .string s => .string s
  | .array items => .list (itemsOfJson items)
  | .object members =>
    match complexOfMembers? members with
    | some z => .complex z
    | none => .dictionary (entriesOfJson members)

def itemsOfJson : List Json → List Value
  | [] => []
  | json :: rest => ofJson json :: itemsOfJson rest

def entriesOfJson : List (String × Json) → List (String × Value)
  | [] => []
  | (key, json) :: rest => (key, ofJson json) :: entriesOfJson rest

end

end Guion.Value
