/-
Values of the language.

A value is a scalar, a text, a date or time, a collection, an object or a
pointer. Two kinds of text differ in their capacity only. A pointer never
owns a variable: it names it, holds a temporary value, or points nowhere.

An object comes from outside the language. It has an identity, a type name, a
description, and contents that a loop may draw from: nothing, a source that
cannot be opened, a finite stream that may break off with a failure, or the
lines of a file, read when the loop starts.
-/
import Guion.Calendar.Date
import Guion.Calendar.Duration
import Guion.Complex
import Guion.Entries
import Guion.Kind

namespace Guion

mutual

/-- A value. `nulo` is `null`, the object that is not there. -/
inductive Value where
  | bit (b : Bool)
  | boolean (b : Bool)
  | integer (i : Int64)
  | real (x : Binary64)
  | decimal (x : Binary64)
  | character (c : Char)
  | text (s : String)
  | string (s : String)
  | complex (z : Complex)
  | date (d : Date)
  | time (t : TimeOfDay)
  | duration (d : Duration)
  | list (items : List Value)
  | matrix (rows : List (List Value))
  | dictionary (entries : List (String × Value))
  | null
  | object (identity : Nat) (typeName description : String) (contents : Contents)
  | nullPointer
  | namedPointer (name : String)
  | valuePointer (target : Value)

/-- What a loop over an object draws from. -/
inductive Contents where
  /-- The object is a single item. -/
  | single
  /-- Opening the object fails. -/
  | refused (reason : String)
  /-- An iterator that is asked for one item after the other: `pull n` is what it
  gives after `n` items. -/
  | stream (pull : Nat → Pull)
  /-- The lines of the file at a path. -/
  | file (path : String)

/-- What an iterator gives when it is asked for the next item. -/
inductive Pull where
  | item (value : Value)
  /-- There are no more items. -/
  | finished
  | failed (reason : String)

end

instance : Inhabited Value := ⟨.null⟩

/-- The number of characters that a `texto` may hold. -/
def textCapacity : Nat := 255

namespace Value

def kind : Value → Kind
  | .bit _ => .bit
  | .boolean _ => .boolean
  | .integer _ => .integer
  | .real _ => .real
  | .decimal _ => .decimal
  | .character _ => .character
  | .text _ => .text
  | .string _ => .string
  | .complex _ => .complex
  | .date _ => .date
  | .time _ => .time
  | .duration _ => .duration
  | .list _ => .list
  | .matrix _ => .matrix
  | .dictionary _ => .dictionary
  | .null | .object .. => .object
  | .nullPointer | .namedPointer _ | .valuePointer _ => .pointer

/-- The type name shown to programs; an object gives its own. -/
def typeName : Value → String
  | .object _ name _ _ => name
  | v => v.kind.name

/-- `nulo`, or a pointer to nothing. -/
def isNull : Value → Bool
  | .null | .nullPointer => true
  | _ => false

def isPointer : Value → Bool
  | .nullPointer | .namedPointer _ | .valuePointer _ => true
  | _ => false

/-- The integer behind an integer, a bit or a boolean. -/
def asInteger? : Value → Option Int64
  | .integer i => some i
  | .bit b | .boolean b => some (if b then 1 else 0)
  | _ => none

/-- Whether arithmetic takes the value as an integer. -/
def isIntegral (v : Value) : Bool := v.asInteger?.isSome

/-- The content of a `texto` or a `cadena`. -/
def asText? : Value → Option String
  | .text s | .string s => some s
  | _ => none

/-- Whether `+` concatenates. -/
def isTextual : Value → Bool
  | .text _ | .string _ | .character _ => true
  | _ => false

/-- The value that a declaration without an initial value starts with. -/
def default : Kind → Value
  | .bit => .bit false
  | .boolean => .boolean false
  | .integer => .integer 0
  | .real => .real (.zero false)
  | .decimal => .decimal (.zero false)
  | .character => .character ' '
  | .text => .text ""
  | .string => .string ""
  | .complex => .complex (.ofReal (.zero false))
  | .date => .date { year := 1970, month := 1, day := 1 }
  | .time => .time ⟨0, 0, 0⟩
  | .duration => .duration ⟨0⟩
  | .list => .list []
  | .matrix => .matrix []
  | .dictionary => .dictionary []
  | .object => .null
  | .pointer => .nullPointer

/-! ## Text -/

/-- Puts `", "` between texts. -/
def separated : List (List Char) → List Char
  | [] => []
  | [piece] => piece
  | piece :: rest => piece ++ ',' :: ' ' :: separated rest

/-- A text inside a collection: in quotes, with the quotes in it escaped. -/
def quoteNested (s : String) : List Char :=
  '"' :: s.toList.flatMap (fun c => if c = '"' then ['\\', '"'] else [c]) ++ ['"']

mutual

/-- The form of a value on its own, or inside another one, where texts and
characters are quoted. -/
def renderAs (nested : Bool) : Value → List Char
  | .bit b => if b then ['1'] else ['0']
  | .boolean b => if b then "verdadero".toList else "falso".toList
  | .integer i => Decimal.ofInt i.toInt
  | .real x => Number.formatReal x
  | .decimal x => Number.formatDecimal x
  | .character c => if nested then ['\'', c, '\''] else [c]
  | .text s | .string s => if nested then quoteNested s else s.toList
  | .complex z => z.render
  | .date d => d.render
  | .time t => t.render
  | .duration d => d.render
  | .list items => '[' :: separated (renderItems items) ++ [']']
  | .matrix rows => '[' :: separated (renderRows rows) ++ [']']
  | .dictionary entries => '\x7b' :: separated (renderEntries entries) ++ ['\x7d']
  | .object _ _ description _ => description.toList
  | .null | .nullPointer => "nulo".toList
  | .namedPointer name => '&' :: name.toList
  | .valuePointer target => '&' :: '(' :: renderAs true target ++ [')']

def renderItems : List Value → List (List Char)
  | [] => []
  | v :: rest => renderAs true v :: renderItems rest

def renderRows : List (List Value) → List (List Char)
  | [] => []
  | row :: rest => ('[' :: separated (renderItems row) ++ [']']) :: renderRows rest

def renderEntries : List (String × Value) → List (List Char)
  | [] => []
  | (key, v) :: rest =>
    ('"' :: key.toList ++ '"' :: ':' :: ' ' :: renderAs true v) :: renderEntries rest

end

/-- The displayed form of a value. -/
def render (v : Value) : List Char := renderAs false v

/-- The displayed form as a string. -/
def display (v : Value) : String := String.ofList v.render

/-- The content of a text, the displayed form of anything else. -/
def textForm (v : Value) : String := v.asText?.getD v.display

/-! ## Equality -/

mutual

/-- Equality without numeric conversion: the two kinds of text compare by
content, a null pointer equals `nulo`, objects are equal when they are the
same object. -/
def same : Value → Value → Bool
  | .bit a, w => match w with | .bit b => a == b | _ => false
  | .boolean a, w => match w with | .boolean b => a == b | _ => false
  | .integer a, w => match w with | .integer b => a == b | _ => false
  | .real a, w => match w with | .real b => a.same b | _ => false
  | .decimal a, w => match w with | .decimal b => a.same b | _ => false
  | .character a, w => match w with | .character b => a == b | _ => false
  | .text a, w | .string a, w => w.asText? == some a
  | .complex a, w => match w with | .complex b => a.same b | _ => false
  | .date a, w => match w with | .date b => a == b | _ => false
  | .time a, w => match w with | .time b => a == b | _ => false
  | .duration a, w => match w with | .duration b => a == b | _ => false
  | .list a, w => match w with | .list b => sameItems a b | _ => false
  | .matrix a, w => match w with | .matrix b => sameRows a b | _ => false
  | .dictionary a, w => match w with | .dictionary b => sameEntries a b | _ => false
  | .object a _ _ _, w => match w with | .object b _ _ _ => a == b | _ => false
  | .null, w | .nullPointer, w => w.isNull
  | .namedPointer a, w => match w with | .namedPointer b => a == b | _ => false
  | .valuePointer a, w => match w with | .valuePointer b => same a b | _ => false
termination_by structural v => v

def sameItems : List Value → List Value → Bool
  | [], bs => bs.isEmpty
  | a :: as, bs => match bs with | [] => false | b :: bs => same a b && sameItems as bs
termination_by structural v => v

def sameRows : List (List Value) → List (List Value) → Bool
  | [], bs => bs.isEmpty
  | a :: as, bs => match bs with | [] => false | b :: bs => sameItems a b && sameRows as bs
termination_by structural v => v

def sameEntries : List (String × Value) → List (String × Value) → Bool
  | [], bs => bs.isEmpty
  | (k, a) :: as, bs =>
    match bs with
    | [] => false
    | (l, b) :: bs => k == l && same a b && sameEntries as bs
termination_by structural v => v

end

end Value
end Guion
