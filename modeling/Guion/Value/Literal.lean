/-
Values written as plain text.

`Value.readLiteral` tries the readings in a fixed order: truth words, `nulo`,
integer, real, quoted text, list in brackets, dictionary in braces; a text
that is none of these is itself. Lists and dictionaries split where nothing
is open and read their pieces the same way, so reading descends into shorter
and shorter texts: the length of the text is depth enough.
-/
import Guion.Text.Pieces
import Guion.Text.Quoted
import Guion.Value.Basic

namespace Guion.Value

/-- What stands between an opening and a closing character, in a balanced text
that starts and ends with them. -/
def enclosed? (opener closer : Char) (source : List Char) : Option (List Char) :=
  match source with
  | c :: rest =>
    match rest.reverse with
    | d :: inner =>
      if c = opener ∧ d = closer ∧ Text.isBalanced source then some inner.reverse else none
    | [] => none
  | [] => none

/-- The literals without parts. -/
def readScalar? (source : List Char) : Option Value :=
  match String.ofList source with
  | "verdadero" | "true" => some (.boolean true)
  | "falso" | "false" => some (.boolean false)
  | "nulo" => some .null
  | _ =>
    match readInt64? source with
    | some i => some (.integer i)
    | none =>
      match Number.readFinite? source with
      | some x => some (.real x)
      | none => (Text.unquote source).map fun content => .string (String.ofList content)

/-- The key and the value of a dictionary entry, as texts. -/
def splitEntry? (entry : List Char) : Option (List Char × List Char) :=
  match Text.splitTopLevel [':'] entry with
  | [key, value] => some (key, value)
  | _ => none

/-- Reads a literal of at most the given nesting depth. -/
def readLiteralWithin : Nat → List Char → Value
  | 0, source => .string (String.ofList source)
  | depth + 1, source =>
    let source := Text.trim source
    match readScalar? source with
    | some v => v
    | none =>
      match enclosed? '[' ']' source with
      | some inner => .list ((Text.splitTopLevel [','] inner).map (readLiteralWithin depth))
      | none =>
        match (enclosed? '\x7b' '\x7d' source).bind fun inner =>
          (Text.splitTopLevel [','] inner).mapM splitEntry? with
        | some entries =>
          .dictionary (Entries.ofList (entries.map fun (key, value) =>
            ((readLiteralWithin depth key).textForm, readLiteralWithin depth value)))
        | none => .string (String.ofList source)

/-- Reads a literal. -/
def readLiteral (source : String) : Value :=
  readLiteralWithin (source.length + 1) source.toList

end Guion.Value
