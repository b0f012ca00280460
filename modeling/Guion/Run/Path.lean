/-
Paths, as far as locating a sub-program needs them: whether a path starts at
the root, what its directory is, and how a name is placed in a directory.

An empty component and a `.` behind a slash mean nothing at the end of a
path, so they do not count as its last component.
-/

namespace Guion.Path

def isAbsolute (path : String) : Bool := path.toList.head? == some '/'

/-- Drops slashes, and dots behind slashes, from the end of a path in reverse. -/
def dropTrailing : List Char → List Char
  | '/' :: rest => dropTrailing rest
  | '.' :: '/' :: rest => dropTrailing rest
  | reversed => reversed

/-- The directory of a path, unless the path is empty or the root. -/
def parent? (path : String) : Option String :=
  match dropTrailing path.toList.reverse with
  | [] => none
  | reversed =>
    let before := reversed.dropWhile (· != '/')
    let trimmed := dropTrailing before
    if trimmed.isEmpty && !before.isEmpty && isAbsolute path then some "/"
    else some (String.ofList trimmed.reverse)

/-- A path seen from a directory. -/
def join (directory path : String) : String :=
  if isAbsolute path || directory.isEmpty then path
  else if directory.toList.getLast? == some '/' then directory ++ path
  else directory ++ "/" ++ path

end Guion.Path
