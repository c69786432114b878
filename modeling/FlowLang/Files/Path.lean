/-!
# Paths

A path is a text; slashes separate its parts.  A part that is empty or a single full stop leads
nowhere else, and two full stops lead to the directory above.

* `Path.tidy` : the path without parts that lead nowhere else.
* `Path.ending?` : the ending of a file name.
* `Path.withEnding?` : the path with another ending behind its name.
-/

namespace FlowLang

namespace Path

/-- The parts of a path. -/
def parts (path : String) : List String := path.splitOn "/"

/-- A part leads nowhere else. -/
def isIdle (part : String) : Bool := part == "" || part == "."

/-- The path without parts that lead nowhere else.  A path from the root stays as it is. -/
def tidy (path : String) : String :=
  if "/".isPrefixOf path then path
  else "/".intercalate ((parts path).filter (!isIdle ·))

/-- The ending of a file name: what follows the last full stop, unless that is its first
character. -/
def ending? (path : String) : Option String :=
  let name := (parts path).getLastD ""
  match (name.splitOn ".").reverse with
  | ending :: before :: earlier =>
    if before = "" ∧ earlier = [] then none else some ending
  | _ => none

/-- The path with an ending added to its last name.  What stands behind that name and leads nowhere
else is left out; a path that leads upwards at last has no such name. -/
def withEnding? (path ending : String) : Option String :=
  let parts := ((parts path).reverse.dropWhile isIdle).reverse
  match parts.getLast? with
  | none => none
  | some name =>
    if name = ".." then none else some ("/".intercalate parts ++ "." ++ ending)

end Path

end FlowLang
