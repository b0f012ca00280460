/-
The files that programs may read.

`Files` answers, for a path, what stands there. It need not know every path:
a run that asks for an unknown one stops and says so, and can be repeated
with the answer. `Files.ofList` is a closed tree, in which every path is
known.
-/
import Guion.Text.Pieces

namespace Guion

/-- Why a path cannot be read. -/
inductive FileError where
  | notFound
  | notADirectory
  | isADirectory
  | invalidText
  /-- A name with the character that ends names. -/
  | invalidName
  | nameTooLong
  | other (reason : String)
  deriving DecidableEq, Inhabited

def FileError.message : FileError → String
  | .notFound => "No such file or directory (os error 2)"
  | .notADirectory => "Not a directory (os error 20)"
  | .isADirectory => "Is a directory (os error 21)"
  | .invalidText => "stream did not contain valid UTF-8"
  | .invalidName => "file name contained an unexpected NUL byte"
  | .nameTooLong => "File name too long (os error 36)"
  | .other reason => reason

/-- What stands at a path. -/
inductive Node where
  | file (bytes : ByteArray)
  | directory

/-- What stands at a path, or why nothing can be found there. -/
abbrev FileAnswer := Except FileError Node

structure Files where
  /-- The answer for a path, if it is known. -/
  find? : String → Option FileAnswer

namespace Files

/-- The number of bytes from which on a path is too long. -/
def pathLimit : Nat := 4096

/-- The number of bytes that a component may have. -/
def componentLimit : Nat := 255

/-- What is wrong with a path whatever stands there. -/
def fault? (path : String) : Option FileError :=
  if path.toList.contains (Char.ofNat 0) then some .invalidName
  else if pathLimit ≤ path.utf8ByteSize then some .nameTooLong
  else none

/-- The components of a path. -/
def components (path : String) : List String :=
  (Text.splitOn ['/'] path.toList).map String.ofList

/-- The components that name something. -/
def significant (path : String) : List String :=
  (components path).filter fun c => c != "" && c != "."

/-- What stands at a place of a tree of files. -/
def nodeAt (tree : List (List String × ByteArray)) (place : List String) : Option Node :=
  match tree.find? fun entry => entry.1 == place with
  | some (_, bytes) => some (.file bytes)
  | none =>
    if place.isEmpty || tree.any fun entry => place.isPrefixOf entry.1 then some .directory
    else none

/-- Whether a component stays outside the tree, from a place outside it. -/
def staysOutside (c : String) : Bool := c == "" || c == "." || c == ".."

/-- What stands at the end of components outside the tree. There are directories
only, and no known names. -/
def outside (components : List String) : FileAnswer :=
  match components.find? fun c => !staysOutside c with
  | none => .ok .directory
  | some c => .error (if componentLimit < c.utf8ByteSize then .nameTooLong else .notFound)

/-- Follows components from a place; the place is in reverse. -/
def walk (tree : List (List String × ByteArray)) : List String → List String → FileAnswer
  | place, [] =>
    match nodeAt tree place.reverse with
    | some node => .ok node
    | none => .error .notFound
  | place, c :: rest =>
    match nodeAt tree place.reverse with
    | none => .error .notFound
    | some (.file _) => .error .notADirectory
    | some .directory =>
      if c = "" ∨ c = "." then walk tree place rest
      else if c = ".." then
        match place with
        | _ :: outer => walk tree outer rest
        | [] => outside rest
      else if componentLimit < c.utf8ByteSize then .error .nameTooLong
      else walk tree (c :: place) rest

/-- The answer of a tree for a path. -/
def answerIn (tree : List (List String × ByteArray)) (path : String) : FileAnswer :=
  match fault? path with
  | some fault => .error fault
  | none =>
    if path.isEmpty then .error .notFound
    else if path.toList.head? == some '/' then outside (components path)
    else walk tree [] (components path)

/-- The tree of some files under relative paths. -/
def ofList (files : List (String × ByteArray)) : Files :=
  let tree := files.map fun (path, bytes) => (significant path, bytes)
  ⟨fun path => some (answerIn tree path)⟩

end Files

namespace FileAnswer

/-- The text of a file. -/
def text (answer : FileAnswer) : Except FileError String :=
  match answer with
  | .error e => .error e
  | .ok .directory => .error .isADirectory
  | .ok (.file bytes) =>
    match String.fromUTF8? bytes with
    | some s => .ok s
    | none => .error .invalidText

def isFile (answer : FileAnswer) : Bool :=
  match answer with
  | .ok (.file _) => true
  | _ => false

end FileAnswer

/-- The lines of some bytes: each ends at a line feed; the last one may not.
The current line is in reverse. -/
def byteLines : List UInt8 → List UInt8 → List (List UInt8)
  | line, [] => if line.isEmpty then [] else [line.reverse]
  | line, b :: rest =>
    if b = 10 then
      let line := match line with
        | 13 :: before => before
        | all => all
      line.reverse :: byteLines [] rest
    else byteLines (b :: line) rest

/-- The texts of some lines, up to the first that is not valid. -/
def decodeLines : List (List UInt8) → List String × Option FileError
  | [] => ([], none)
  | line :: rest =>
    match String.fromUTF8? ⟨line.toArray⟩ with
    | none => ([], some .invalidText)
    | some s =>
      let (more, failure) := decodeLines rest
      (s :: more, failure)

/-- The lines that reading a node gives, and the failure that ends them. -/
def Node.lines : Node → List String × Option FileError
  | .directory => ([], some .isADirectory)
  | .file bytes => decodeLines (byteLines [] bytes.toList)

end Guion
