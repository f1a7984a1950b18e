import SlotMachine.Command
import SlotMachine.FileTree
import SlotMachine.Listing
import SlotMachine.Machine.Run
import SlotMachine.Settings.Document

/-!
# The command line

What a command prints and how it ends, as a function of the files it can read.
-/

namespace SlotMachine.CommandLine

/-- How files are read. -/
abbrev Reader := String → Except ReadFailure (List UInt8)

/-- A failure and the reasons behind it, the outermost first. -/
structure Trouble where
  /-- What the command was doing. -/
  context : String
  /-- Why that failed, and why that. -/
  causes : List String
  deriving DecidableEq

namespace Trouble

/-- The reasons behind a fault. Outside faults have one of their own. -/
def ofFault (context : String) (e : Fault) : Trouble :=
  match e with
  | .io _ cause => ⟨context, [e.message, cause]⟩
  | .settings flaw => ⟨context, [e.message, flaw.message]⟩
  | e => ⟨context, [e.message]⟩

/-- A text whose lines after the first are indented. -/
def indentLines (indent s : String) : String :=
  String.intercalate ("\n" ++ indent) (s.splitOn "\n")

/-- The report of a failure: the context, then the causes, numbered if there are several. -/
def report (t : Trouble) : String :=
  let lines := match t.causes with
    | [] => []
    | [cause] => ["    " ++ indentLines "    " cause]
    | causes => causes.zipIdx.map fun (cause, n) =>
        "    " ++ toString n ++ ": " ++ indentLines "       " cause
  match lines with
  | [] => t.context
  | lines => t.context ++ "\n\nCaused by:\n" ++ String.intercalate "\n" lines

end Trouble

/-- How a command ends. -/
structure Outcome where
  /-- The exit code. -/
  exitCode : Nat
  /-- What was printed. -/
  output : String
  /-- What went wrong. -/
  trouble : Option Trouble
  /-- The files that were asked for. -/
  consulted : List String
  deriving DecidableEq

/-- The version line. -/
def versionLine : String := "aq 0.3.0\n"

/-- The usage line. -/
def usageLine : String := "Usage: aq run [OPTIONS] <FILE>\n"

/-- The modules that lie in a directory. -/
def directorySource (read : Reader) (dir : String) : Source where
  fetch := fun file =>
    let path := Path.join dir file
    match read path with
    | .ok bytes => .ok bytes
    | .error failure => .error (.io path failure.message)
  requests := []

/-- The settings in a file. -/
def readSettings (read : Reader) (path : String) : Except Fault Settings :=
  match read path with
  | .error failure => .error (.io path failure.message)
  | .ok bytes =>
    match Text.ofUtf8? bytes with
    | some text => Settings.ofDocument text
    | none => .error (.io path ReadFailure.notText.message)

/-- The directory of a module file, in which the modules it names are looked for. -/
def moduleDirOf (file : String) : String :=
  match Path.parent file with
  | "" => "."
  | dir => dir

/-- The settings for a run: those of the settings file, or the standard ones with the directory of
the module, and the options on top. -/
def chooseSettings (read : Reader) (file : String) (o : RunOptions) : Except Trouble Settings :=
  let base : Except Trouble Settings := match o.config with
    | none => .ok { Settings.standard with moduleDir := moduleDirOf file }
    | some path =>
      (readSettings read path).mapError (Trouble.ofFault ("failed to read config " ++ path))
  base.map fun s =>
    { s with
      moduleDir := o.moduleDir.getD s.moduleDir
      maxCallDepth := o.maxCallDepth.getD s.maxCallDepth }

/-- The outcome of a command that succeeds. -/
def success (output : String) (consulted : List String) : Outcome := ⟨0, output, none, consulted⟩

/-- The outcome of a command that fails. -/
def failed (output : String) (t : Trouble) (consulted : List String) : Outcome :=
  ⟨1, output, some t, consulted⟩

/-- The outcome of a command in which the machine breaks down. -/
def brokenDown (output : String) (consulted : List String) : Outcome :=
  ⟨101, output, none, consulted⟩

/-- List a module. -/
def list (file : String) (bytes : List UInt8) : Outcome :=
  match Image.decode bytes with
  | .ok m => success (Listing.image m) [file]
  | .error e => failed "" (Trouble.ofFault ("failed to decode " ++ file) e) [file]

/-- Run a module. There is no outcome when the steps do not suffice. -/
def execute (fuel : Nat) (read : Reader) (file : String) (o : RunOptions) (bytes : List UInt8) :
    Option Outcome :=
  let opened := file :: o.config.toList
  match chooseSettings read file o with
  | .error t => some (failed "" t opened)
  | .ok settings =>
    let source := directorySource read settings.moduleDir
    let machine := Machine.create settings source Sink.empty NativeTable.standard
    let consulted (m : Machine) : List String :=
      opened ++ m.registry.source.requests.map (Path.join settings.moduleDir)
    (machine.run fuel bytes).map fun
      | .returned (.ok () m) => success m.sink.written (consulted m)
      | .returned (.error e m) =>
        failed m.sink.written (Trouble.ofFault ("failed to run " ++ file) e) (consulted m)
      | .crashed _ m => brokenDown m.sink.written (consulted m)

/-- Carry out the command that the arguments ask for. -/
def run (fuel : Nat) (read : Reader) (args : List String) : Option Outcome :=
  match Command.parse args with
  | .misuse => some ⟨2, "", none, []⟩
  | .version => some (success versionLine [])
  | .help => some (success usageLine [])
  | .run file o =>
    match read file with
    | .error failure =>
      some (failed "" ⟨"failed to read " ++ file, [failure.message]⟩ [file])
    | .ok bytes => if o.disassemble then some (list file bytes) else execute fuel read file o bytes

end SlotMachine.CommandLine
