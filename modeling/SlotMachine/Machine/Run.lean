import SlotMachine.Machine.Object

/-!
# Runs

A step executes one instruction of the innermost frame, or ends the frame when its code is over. A
fault leaves the frames one by one, but for a crash, after which the machine stands still. A run
takes steps until no frame is left or the machine stands still; since programs need not end, it is
given a number of steps and has no result when they do not suffice.
-/

namespace SlotMachine

namespace MachineM

/-- Execute one instruction of a frame. -/
def execute (f : Frame) (i : Instruction) : MachineM Flow := do
  match i.opcode with
  | .new => new f i
  | .array => array f i
  | .loadMember => loadMember f i
  | .invoke => invoke f i
  | .invokeMethod => invokeMethod f i
  | _ =>
    let registry := (← get).registry
    onStore (Simple.execute registry f i)

/-- Go where an instruction leads. A jump may go at most to the end of the code. -/
def follow (f : Frame) : Flow → MachineM Unit
  | .next => setIp fun f => f.ip + 1
  | .jump target =>
    if target ≤ f.function.code.size then setIp fun _ => target
    else throw (.invalidJump target f.function.code.size)
  | .enter => pure ()

/-- Take one step. -/
def step : MachineM Unit := do
  match (← get).frames with
  | [] => throw .stackUnderflow
  | f :: _ =>
    match f.function.code[f.ip]? with
    | none => leave f
    | some i => do
      let flow ← execute f i
      follow f flow

end MachineM

/-- A machine that is running, or that is leaving its frames because of a fault, or that has broken
down. -/
structure Activity where
  /-- The machine. -/
  machine : Machine
  /-- The fault on its way out. -/
  fault : Option Fault

namespace Activity

/-- Whether the machine has broken down. -/
def isCrashed (a : Activity) : Bool :=
  a.fault.any Fault.isCrash

/-- Take one step, or leave one frame when there is a fault. After a crash nothing happens. -/
def step (a : Activity) : Activity :=
  match a with
  | ⟨machine, some e⟩ =>
    if e.isCrash then ⟨machine, some e⟩
    else ⟨{ machine with frames := machine.frames.tail }, some e⟩
  | ⟨machine, none⟩ =>
    match MachineM.step machine with
    | .ok () machine => ⟨machine, none⟩
    | .error e machine => ⟨machine, some e⟩

/-- Whether there is nothing left to do. -/
def isOver (a : Activity) : Bool :=
  a.machine.frames.isEmpty || a.isCrashed

/-- Take steps until there is nothing left to do. -/
def run : Nat → Activity → Option Activity
  | 0, a => if a.isOver then some a else none
  | fuel + 1, a => if a.isOver then some a else run fuel a.step

end Activity

/-- How an operation of the host on a machine ends: with a machine, and a fault if there was one. -/
abbrev Ending := EStateM.Result Fault Machine Unit

namespace Machine

/-- What comes of an operation of the host. -/
inductive Outcome where
  /-- It returns. -/
  | returned (ending : Ending)
  /-- The machine breaks down and is left as it stands, with the frames of its calls. -/
  | crashed (cause : Crash) (m : Machine)

/-- An ending is returned unless its fault is a crash. -/
def Outcome.ofEnding : Ending → Outcome
  | .error (.crash cause) m => .crashed cause m
  | ending => .returned ending

/-- Run the active calls to their end. -/
def finish (fuel : Nat) (m : Machine) : Option Outcome :=
  (Activity.run fuel ⟨m, none⟩).map fun
    | ⟨m, none⟩ => .returned (.ok () m)
    | ⟨m, some e⟩ => .ofEnding (.error e m)

/-- Install a program. -/
def loadImage (image : Image) : MachineM ModuleId := do
  let id ← MachineM.onLinkage (LinkM.install none image)
  modify fun m => { m with program := some id }
  pure id

/-- Decode and install a program. -/
def load (bytes : List UInt8) : MachineM ModuleId := do
  let image ← MachineM.ask fun _ => Image.decode bytes
  loadImage image

/-- Begin to make the instance of the program's top-level class. -/
def prepare : MachineM (ModuleId × HeapId) := do
  match (← get).program with
  | none => throw .notLoaded
  | some module =>
    let (object, _) ← MachineM.topInstance module .proceed
    pure (module, object)

/-- The method with which the program starts. -/
def entry (module : ModuleId) : MachineM Function := do
  let cls ← MachineM.onLinkage (LinkM.topClass module)
  match cls.method? Image.entryMethod with
  | some method => pure method
  | none => throw (.methodNotFound Image.topClass Image.entryMethod)

/-- Flush the sink. A fault of the sink takes the place of the ending. -/
def flushed : Ending → Ending
  | .ok () m =>
    match m.sink.flush with
    | .ok () => .ok () m
    | .error e => .error e m
  | .error fault m =>
    match m.sink.flush with
    | .ok () => .error fault m
    | .error e => .error e m

/-- Flush the sink if the operation returns. -/
def Outcome.flushed : Outcome → Outcome
  | returned ending => returned (Machine.flushed ending)
  | crashed cause m => crashed cause m

/-- Run the method with which the program starts, and flush the sink whatever it returns. -/
def runEntry (fuel : Nat) (module : ModuleId) (object : HeapId) (method : Function) (m : Machine) :
    Option Outcome :=
  match MachineM.callBare module method object .proceed m with
  | .error e m => some (Outcome.ofEnding (.error e m)).flushed
  | .ok () m => (m.finish fuel).map Outcome.flushed

/-- Start the program: make the instance of its top-level class and run its entry method. -/
def start (fuel : Nat) (m : Machine) : Option Outcome :=
  match prepare m with
  | .error e m => some (.ofEnding (.error e m))
  | .ok (module, object) m =>
    (m.finish fuel).bind fun
      | .returned (.ok () m) =>
        match entry module m with
        | .error e m => some (.ofEnding (.error e m))
        | .ok method m => runEntry fuel module object method m
      | other => some other

/-- Load and start a program. -/
def run (fuel : Nat) (bytes : List UInt8) (m : Machine) : Option Outcome :=
  match load bytes m with
  | .error e m => some (.ofEnding (.error e m))
  | .ok _ m => m.start fuel

end Machine

end SlotMachine
