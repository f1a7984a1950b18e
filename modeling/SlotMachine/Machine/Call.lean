import SlotMachine.Machine.Simple

/-!
# Calls

A call binds the arguments to the parameter slots of the callee and pushes a frame. When the code
of the frame ends, the frame is popped, the value left in the first parameter is copied into the
caller's return slot, and the caller goes on.
-/

namespace SlotMachine.MachineM

/-- Do what a caller does once its call has returned. -/
def perform : Resume → MachineM Unit
  | .proceed => pure ()
  | .bind result target => onStore (StoreM.bindRef result target)

/-- Begin a call of a function of a module. The first argument is the return slot. -/
def call (module : ModuleId) (function : Function) (receiver : Option HeapId) (args : List Slot)
    (resume : Resume) : MachineM Unit := do
  let depth := (← get).depth
  if (← get).settings.maxCallDepth ≤ depth then throw (.callDepthExceeded depth)
  let loaded ← ask fun m => m.registry.module module
  onStore (StoreM.pass loaded.heap function args)
  let frame : Frame := ⟨module, loaded.heap, receiver, function, 0, args.head?, resume⟩
  modify fun m => { m with frames := frame :: m.frames }

/-- Begin a call without arguments whose return value nobody waits for. -/
def callBare (module : ModuleId) (function : Function) (receiver : HeapId)
    (resume : Resume) : MachineM Unit := do
  if function.params.isEmpty then call module function (some receiver) [] resume
  else
    onStore (StoreM.replace Machine.scratchSlot Cell.free)
    call module function (some receiver) [Machine.scratchSlot] resume

/-- Begin the constructor of a class on a new instance, if the class has one. -/
def construct (cls : Class) (object : HeapId) (resume : Resume) : MachineM Flow := do
  match cls.method? Image.constructor with
  | some constructor =>
    callBare cls.module constructor object resume
    pure .enter
  | none =>
    perform resume
    pure .next

/-- Copy the value left in the first parameter into the return slot, unless both are the same
place. -/
def copyBack (f : Frame) : StoreM Unit := do
  match f.function.params, f.returnSlot with
  | formal :: _, some returnSlot =>
    let here ← StoreM.ask fun s => s.origin (f.slot formal)
    let there ← StoreM.ask fun s => s.origin returnSlot
    if here = there then pure () else StoreM.copy returnSlot (f.slot formal)
  | _, _ => pure ()

/-- Let the innermost frame go on with another instruction. -/
def setIp (next : Frame → Nat) : MachineM Unit :=
  modify fun m =>
    match m.frames with
    | f :: others => { m with frames := { f with ip := next f } :: others }
    | [] => m

/-- End the innermost call. -/
def leave (f : Frame) : MachineM Unit := do
  modify fun m => { m with frames := m.frames.tail }
  onStore (copyBack f)
  perform f.resume
  setIp fun caller => caller.ip + 1

/-- The instance that an operand names; operand 0 is the receiver. -/
def receiver (f : Frame) (operand : UInt64) : MachineM HeapId :=
  if operand = 0 then
    match f.receiver with
    | some object => pure object
    | none => throw .noReceiver
  else ask fun m => m.store.object (f.slot operand)

/-- The name, the count and the further slots of a call, of which there must be as many as the
count says and at least one. A method call has the receiver in front. The fault says how many
operands are needed, which must be a number of 64 bits. -/
def callSlots (i : Instruction) (leading : Nat) : Except Fault (List UInt64) :=
  let count := (i.operands[leading - 1]?.getD 0).toNat
  let slots := i.operands.drop leading
  if leading ≤ i.operands.length ∧ 0 < count ∧ slots.length = count then .ok slots
  else
    let needed := leading + max count 1
    .error (if needed < UInt64.size then i.wrongCount needed else .crash .addition)

/-- Call a native function. -/
def callNative (name : String) (f : Native) (args : List Slot) : MachineM Flow := do
  ask fun _ => f.checkArity name args.length
  onWorld (f.run (← get).depth args)
  pure .next

/-- Call a free function: a native one, or one of the running module's top-level class. -/
def invoke (f : Frame) (i : Instruction) : MachineM Flow := do
  let slots ← ask fun _ => callSlots i 2
  let name ← ask fun m => m.store.text (f.slot (i.operands.headD 0))
  let args := slots.map f.slot
  match (← get).natives.find? name with
  | some native => callNative name native args
  | none =>
    let missing : Fault := .functionNotFound name
    let cls ← (onLinkage (LinkM.topClass f.module)).adaptExcept fun _ => missing
    match cls.method? name with
    | none => throw missing
    | some function =>
      let owner ← ask fun m => m.registry.module cls.module
      call cls.module function owner.topInstance args .proceed
      pure .enter

/-- Call a method of an instance, unless a native function has the name. -/
def invokeMethod (f : Frame) (i : Instruction) : MachineM Flow := do
  let slots ← ask fun _ => callSlots i 3
  let name ← ask fun m => m.store.text (f.slot (i.operands.tail.headD 0))
  let args := slots.map f.slot
  match (← get).natives.find? name with
  | some native => callNative name native args
  | none =>
    let object ← receiver f (i.operands.headD 0)
    let className ← ask fun m => m.store.text ⟨object, 0⟩
    let cls ← onLinkage (LinkM.findClass className)
    match cls.method? name with
    | none => throw (.methodNotFound className name)
    | some method =>
      call cls.module method (some object) args .proceed
      pure .enter

end SlotMachine.MachineM
