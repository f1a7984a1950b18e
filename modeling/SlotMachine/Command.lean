import SlotMachine.Text.Digits

/-!
# Command line arguments

The command `run FILE` with its options, and the command `help`. Options may stand before or after
the file, each at most once; an option with a value takes it after an equals sign or from the next
argument; everything after `--` is a file.
-/

namespace SlotMachine

/-- What to run, and how. -/
structure RunOptions where
  /-- The module file. -/
  file : Option String
  /-- Whether to list the module instead of running it. -/
  disassemble : Bool
  /-- The settings file. -/
  config : Option String
  /-- The directory of linked modules. -/
  moduleDir : Option String
  /-- How many calls may be active at once. -/
  maxCallDepth : Option Nat
  /-- Whether to log. -/
  verbose : Bool
  deriving DecidableEq

/-- What the arguments ask for. -/
inductive Command where
  /-- Run or list a module. -/
  | run (file : String) (options : RunOptions)
  /-- Tell the version. -/
  | version
  /-- Tell how to use the program. -/
  | help
  /-- The arguments make no sense. -/
  | misuse
  deriving DecidableEq

namespace RunOptions

/-- No options. -/
def none : RunOptions := ⟨.none, false, .none, .none, .none, false⟩

/-- Give a path that is not empty for an option that has not been given. -/
def path? (given : Option String) (value : String) : Option (Option String) :=
  if given.isSome ∨ value = "" then .none else some (some value)

/-- Give the file. -/
def setFile (o : RunOptions) (value : String) : Option RunOptions := do
  return { o with file := ← path? o.file value }

/-- Give an option that has a value. -/
def setValue (o : RunOptions) (name value : String) : Option RunOptions := do
  if name = "config" then return { o with config := ← path? o.config value }
  else if name = "module-dir" then return { o with moduleDir := ← path? o.moduleDir value }
  else if name = "max-call-depth" ∧ o.maxCallDepth.isNone ∧ !value.startsWith "-" then
    match ← Text.readInteger UInt64.size value.toList with
    | .ofNat n => if n < UInt64.size then return { o with maxCallDepth := some n } else failure
    | .negSucc _ => failure
  else failure

/-- Give an option that has no value. -/
def setFlag (o : RunOptions) (name : String) : Option RunOptions :=
  if name = "disassemble" ∧ !o.disassemble then some { o with disassemble := true }
  else if name = "verbose" ∧ !o.verbose then some { o with verbose := true }
  else .none

/-- Whether an option has a value. -/
def takesValue (name : String) : Bool :=
  ["config", "module-dir", "max-call-depth"].contains name

end RunOptions

namespace Command

/-- Whether an argument is an option. A single dash is not. -/
def isOption (arg : String) : Bool :=
  arg.startsWith "-" && arg != "-"

/-- The command, once all arguments are read. -/
def finish (o : RunOptions) : Command :=
  match o.file with
  | some file => .run file o
  | none => .misuse

/-- Read one-letter options that follow a single dash. -/
def readLetters (o : RunOptions) : List Char → Option RunOptions ⊕ Command
  | [] => .inl (some o)
  | 'h' :: _ => .inr .help
  | 'v' :: letters =>
    match o.setFlag "verbose" with
    | some o => readLetters o letters
    | none => .inl none
  | _ => .inl none

/-- The name and the value of an option written with an equals sign. -/
def splitOption (body : List Char) : String × Option String :=
  let name := String.ofList (body.takeWhile (· != '='))
  match body.dropWhile (· != '=') with
  | [] => (name, none)
  | _ :: value => (name, some (String.ofList value))

/-- Read the files after `--`. -/
def readFiles (o : RunOptions) : List String → Command
  | [] => finish o
  | file :: others =>
    match o.setFile file with
    | some o => readFiles o others
    | none => .misuse

/-- Read the arguments of `run`. -/
def readRun (o : RunOptions) (args : List String) : Command :=
  match args with
  | [] => finish o
  | arg :: others =>
    match arg.toList with
    | ['-', '-'] => readFiles o others
    | '-' :: '-' :: body =>
      let (name, value) := splitOption body
      if RunOptions.takesValue name then
        match value with
        | some value =>
          match o.setValue name value with
          | some o => readRun o others
          | none => .misuse
        | none =>
          match others with
          | [] => .misuse
          | value :: others =>
            match if isOption value then none else o.setValue name value with
            | some o => readRun o others
            | none => .misuse
      else if name = "help" ∧ value.isNone then .help
      else
        match if value.isSome then none else o.setFlag name with
        | some o => readRun o others
        | none => .misuse
    | '-' :: letter :: letters =>
      match readLetters o (letter :: letters) with
      | .inr command => command
      | .inl (some o) => readRun o others
      | .inl none => .misuse
    | _ =>
      match o.setFile arg with
      | some o => readRun o others
      | none => .misuse
termination_by args.length

/-- Read the arguments of `help`: the name of one of the two commands, or nothing. -/
def readHelp (args : List String) : Command :=
  if args = [] ∨ args = ["run"] ∨ args = ["help"] then .help else .misuse

/-- Read all arguments. -/
def parse (args : List String) : Command :=
  match args with
  | [] => .misuse
  | first :: others =>
    if first = "run" then readRun RunOptions.none others
    else if first = "help" then readHelp others
    else if first = "--help" then .help
    else if first = "--version" then .version
    else
      match first.toList with
      | '-' :: 'V' :: _ => .version
      | '-' :: 'h' :: _ => .help
      | _ => .misuse

end Command

end SlotMachine
