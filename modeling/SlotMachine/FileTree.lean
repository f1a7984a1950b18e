import SlotMachine.Path

/-!
# Files in memory

A directory with files below it, read in the way an operating system does: every part of a path but
the last has to lead to a directory, names and paths must not be too long, and only files can be
read.
-/

namespace SlotMachine

/-- Why a file cannot be read. -/
inductive ReadFailure where
  /-- There is no such file. -/
  | missing
  /-- A file is used as a directory. -/
  | notDirectory
  /-- The path names a directory. -/
  | isDirectory
  /-- The path, or a name in it, is longer than the system allows. -/
  | nameTooLong
  /-- The path holds a zero character, which no file name can have. -/
  | zeroInPath
  /-- The contents are not UTF-8. -/
  | notText
  /-- Any other reason, in the words of the system. -/
  | other (reason : String)
  deriving DecidableEq

/-- The wording of a failure. -/
def ReadFailure.message : ReadFailure → String
  | missing => "No such file or directory (os error 2)"
  | notDirectory => "Not a directory (os error 20)"
  | isDirectory => "Is a directory (os error 21)"
  | nameTooLong => "File name too long (os error 36)"
  | zeroInPath => "file name contained an unexpected NUL byte"
  | notText => "stream did not contain valid UTF-8"
  | other reason => reason

/-- Files and directories below one directory, the top. Each is given by the names on the way back
to the top, its own name first. -/
structure FileTree where
  /-- The files and their contents. -/
  files : List (List String × List UInt8)
  /-- The directories other than the top. -/
  directories : List (List String)
  deriving DecidableEq

namespace FileTree

/-- The tree without files. -/
def empty : FileTree := ⟨[], []⟩

/-- Whether there is a directory at a place. The top is always there. -/
def hasDirectory (t : FileTree) (names : List String) : Bool :=
  names.isEmpty || t.directories.contains names

/-! ## Adding files -/

/-- Where one part of a path leads, inside a tree. -/
def follow (names : List String) (part : String) : List String :=
  if Path.isFiller part then names
  else if part = ".." then names.tail
  else part :: names

/-- The places that the parts of a path lead through, the last one first. -/
def trail (parts : List String) : List (List String) :=
  parts.foldl (fun places part => follow (places.headD []) part :: places) []

/-- Add a file with the directories that its path leads through. A file that was there before is
replaced. -/
def insert (t : FileTree) (path : String) (bytes : List UInt8) : FileTree :=
  match trail (Path.parts path) with
  | [] => t
  | names :: through =>
    { files := (names, bytes) :: t.files
      directories := through.filter (fun names => !t.hasDirectory names) ++ t.directories }

/-- The tree with the given files. -/
def ofFiles (files : List (String × List UInt8)) : FileTree :=
  files.foldl (fun t (path, bytes) => t.insert path bytes) empty

/-! ## Reading files -/

/-- Where a walk has come. -/
inductive Place where
  /-- At the end of these names, the last one first. -/
  | inside (names : List String)
  /-- In a directory above the top. Nothing is known of what else lies there. -/
  | above
  deriving DecidableEq

/-- How many bytes a name may have. -/
def nameLimit : Nat := 255

/-- How many bytes a path may have. -/
def pathLimit : Nat := 4095

/-- Make sure that a place is a directory, as it has to be for a walk to go on from there. -/
def enter (t : FileTree) : Place → Except ReadFailure Unit
  | .above => .ok ()
  | .inside names =>
    if (t.files.lookup names).isSome then .error .notDirectory
    else if t.hasDirectory names then .ok ()
    else .error .missing

/-- Follow one part of a path. -/
def step (t : FileTree) (place : Place) (part : String) : Except ReadFailure Place := do
  t.enter place
  if Path.isFiller part then .ok place
  else if part = ".." then
    match place with
    | .inside (_ :: names) => .ok (.inside names)
    | _ => .ok .above
  else if nameLimit < part.utf8ByteSize then .error .nameTooLong
  else
    match place with
    | .inside names => .ok (.inside (part :: names))
    | .above => .error .missing

/-- Follow the parts of a path. -/
def walk (t : FileTree) (place : Place) : List String → Except ReadFailure Place
  | [] => .ok place
  | part :: others => do t.walk (← t.step place part) others

/-- The contents at the end of a path. -/
def contents (t : FileTree) : Place → Except ReadFailure (List UInt8)
  | .above => .error .isDirectory
  | .inside names =>
    match t.files.lookup names with
    | some bytes => .ok bytes
    | none => if t.hasDirectory names then .error .isDirectory else .error .missing

/-- What lies below the root of every system: the customary directories, and a device that is
always empty. -/
def system : FileTree where
  files := [(["null", "dev"], [])]
  directories := ["bin", "boot", "dev", "etc", "home", "lib", "media", "mnt", "opt", "proc", "run",
    "sbin", "srv", "sys", "tmp", "usr", "var"].map fun name => [name]

/-- The contents of a file. A path that starts at the root leads out of the tree. -/
def read (t : FileTree) (path : String) : Except ReadFailure (List UInt8) :=
  if Path.hasZero path then .error .zeroInPath
  else if pathLimit < path.utf8ByteSize then .error .nameTooLong
  else if path = "" then .error .missing
  else do
    let tree := if Path.isAbsolute path then system else t
    tree.contents (← tree.walk (.inside []) (Path.parts path))

end FileTree

end SlotMachine
