import SlotMachine.Native
import SlotMachine.Registry
import SlotMachine.Settings
import SlotMachine.Transfer

/-!
# The machine

The state of a machine, its call frames, and how the actions on its parts act on the whole. Every
frame remembers what its caller still has to do when the call returns, so that a run is a sequence
of steps on one stack of frames.
-/

namespace SlotMachine

/-- What a caller does once a call has returned, before it goes on to its next instruction. -/
inductive Resume where
  /-- Nothing. -/
  | proceed
  /-- Bind a slot as a reference to what the call has made ready. -/
  | bind (result target : Slot)
  deriving DecidableEq

/-- One active call. -/
structure Frame where
  /-- The module to which the function belongs. -/
  module : ModuleId
  /-- The heap in which operands are slots. -/
  heap : HeapId
  /-- The instance on which the function was called. -/
  receiver : Option HeapId
  /-- The function being run. -/
  function : Function
  /-- The index of the present instruction. -/
  ip : Nat
  /-- The caller's slot for the return value, if the call has one. -/
  returnSlot : Option Slot
  /-- What the caller does when the call returns. -/
  resume : Resume
  deriving DecidableEq

/-- The slot that an operand names. -/
def Frame.slot (f : Frame) (operand : UInt64) : Slot :=
  ⟨f.heap, operand.toNat⟩

/-- A machine. -/
structure Machine where
  /-- The heaps. -/
  store : Store
  /-- The classes and modules. -/
  registry : Registry
  /-- Where programs print. -/
  sink : Sink
  /-- The native functions, which take precedence over functions of the program. -/
  natives : NativeTable
  /-- The settings. -/
  settings : Settings
  /-- The active calls, innermost first. -/
  frames : List Frame
  /-- The program loaded last. -/
  program : Option ModuleId

/-- An action of a machine. The machine survives a fault. -/
abbrev MachineM (α : Type) := EStateM Fault Machine α

namespace Machine

/-- The slot that receives the return values of calls nobody waits for. It is the only cell of the
machine's own heap. -/
def scratchSlot : Slot := ⟨0, 0⟩

/-- A machine on which nothing is loaded. -/
def create (settings : Settings) (source : Source) (sink : Sink) (natives : NativeTable) :
    Machine where
  store := ((Store.empty settings.maxObjectLen).alloc .scratch #[Cell.free]).2
  registry := Registry.empty source
  sink := sink
  natives := natives
  settings := settings
  frames := []
  program := none

/-- How many calls are active. -/
def depth (m : Machine) : Nat :=
  m.frames.length

/-- The heap of the program. -/
def programHeap? (m : Machine) : Option HeapId :=
  m.program.bind fun id => m.registry.modules[id]?.map LoadedModule.heap

end Machine

namespace MachineM

/-- Change the store. -/
@[inline]
def onStore {α : Type} (action : StoreM α) : MachineM α :=
  fun ⟨store, registry, sink, natives, settings, frames, program⟩ =>
    match action store with
    | .ok a store => .ok a ⟨store, registry, sink, natives, settings, frames, program⟩
    | .error e store => .error e ⟨store, registry, sink, natives, settings, frames, program⟩

/-- Change registry and store. -/
@[inline]
def onLinkage {α : Type} (action : LinkM α) : MachineM α :=
  fun ⟨store, registry, sink, natives, settings, frames, program⟩ =>
    match action ⟨registry, store⟩ with
    | .ok a ⟨registry, store⟩ =>
      .ok a ⟨store, registry, sink, natives, settings, frames, program⟩
    | .error e ⟨registry, store⟩ =>
      .error e ⟨store, registry, sink, natives, settings, frames, program⟩

/-- Change store and sink. -/
@[inline]
def onWorld {α : Type} (action : WorldM α) : MachineM α :=
  fun ⟨store, registry, sink, natives, settings, frames, program⟩ =>
    match action ⟨store, sink⟩ with
    | .ok a ⟨store, sink⟩ => .ok a ⟨store, registry, sink, natives, settings, frames, program⟩
    | .error e ⟨store, sink⟩ =>
      .error e ⟨store, registry, sink, natives, settings, frames, program⟩

/-- Ask a question about the machine. -/
@[inline]
def ask {α : Type} (question : Machine → Except Fault α) : MachineM α := fun m =>
  match question m with
  | .ok a => .ok a m
  | .error e => .error e m

end MachineM

end SlotMachine
