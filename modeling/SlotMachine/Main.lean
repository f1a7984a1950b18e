import SlotMachine.CommandLine

/-!
# The program

Reads the files that a command asks for and prints what it comes to. The command is a pure function
of the files, so it is carried out again whenever it has asked for a file that was not at hand.
-/

namespace SlotMachine.Main

/-- The files read so far. -/
abbrev Known := List (String × Except ReadFailure (List UInt8))

/-- Read one file from the system. -/
def readFile (path : String) : IO (Except ReadFailure (List UInt8)) := do
  if Path.hasZero path then return .error .zeroInPath
  try
    let bytes ← IO.FS.readBinFile path
    pure (.ok bytes.data.toList)
  catch
    | .noFileOrDirectory .. => pure (.error .missing)
    | .inappropriateType _ 20 _ => pure (.error .notDirectory)
    | .inappropriateType _ 21 _ => pure (.error .isDirectory)
    | .invalidArgument _ 36 _ => pure (.error .nameTooLong)
    | e => pure (.error (.other (toString e)))

/-- How many steps a program may take. -/
def fuel : Nat := 1 <<< 62

/-- Carry out the command until every file it asks for is at hand. -/
partial def settle (args : List String) (known : Known) : IO (Option CommandLine.Outcome) := do
  let read : CommandLine.Reader := fun path => (known.lookup path).getD (.error .missing)
  match CommandLine.run fuel read args with
  | none => pure none
  | some outcome =>
    match outcome.consulted.find? fun path => (known.lookup path).isNone with
    | none => pure (some outcome)
    | some path =>
      let contents ← readFile path
      settle args ((path, contents) :: known)

end SlotMachine.Main

open SlotMachine in
/-- Carry out the command given on the command line. -/
def main (args : List String) : IO UInt32 := do
  match ← Main.settle args [] with
  | none => pure 1
  | some outcome =>
    let out ← IO.getStdout
    out.putStr outcome.output
    out.flush
    match outcome.trouble with
    | some trouble => IO.eprintln ("Error: " ++ trouble.report)
    | none => pure ()
    pure (UInt32.ofNat outcome.exitCode)
