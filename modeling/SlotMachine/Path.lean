/-!
# File paths

Paths are texts whose parts are separated by slashes. An empty part, and a part that is a single
point anywhere but at the front, say nothing.
-/

namespace SlotMachine.Path

/-- The parts between slashes. An absolute path has an empty first part. -/
def parts (path : String) : List String :=
  path.splitOn "/"

/-- Whether the path starts at the root. -/
def isAbsolute (path : String) : Bool :=
  path.startsWith "/"

/-- Whether the path holds a zero character. -/
def hasZero (path : String) : Bool :=
  path.toList.contains '\x00'

/-- Whether a part behind the first one says nothing. -/
def isFiller (part : String) : Bool :=
  part == "" || part == "."

/-- The parts that say something. Two paths are the same when these agree. -/
def components (path : String) : List String :=
  match parts path with
  | [] => []
  | first :: others =>
    let named := others.filter fun part => !isFiller part
    if isAbsolute path then "/" :: named
    else if first = "" then named
    else first :: named

/-- A path below a directory; an absolute path stays as it is. -/
def join (dir path : String) : String :=
  if isAbsolute path then path
  else if dir = "" ∨ dir.endsWith "/" then dir ++ path
  else dir ++ "/" ++ path

/-- Drop the parts at the end that say nothing, given the parts behind the first one from the
back. -/
def trimBack (reversed : List String) : List String :=
  reversed.dropWhile isFiller

/-- The directory of a file; empty for a file without one. -/
def parent (path : String) : String :=
  match parts path with
  | [] => ""
  | first :: others =>
    match trimBack others.reverse with
    | [] => ""
    | _ :: kept =>
      match trimBack kept with
      | [] => if isAbsolute path then "/" else first
      | kept => String.intercalate "/" (first :: kept.reverse)

end SlotMachine.Path
