import SlotMachine.Machine
import SlotMachine.Operation

/-!
# Simple instructions

The instructions that neither call nor allocate. They work on the store alone: of the registry they
read the constants, and the frames are not theirs to change.
-/

namespace SlotMachine

/-- Where the machine goes on after an instruction. -/
inductive Flow where
  /-- With the next instruction. -/
  | next
  /-- With the instruction of this index. -/
  | jump (target : Nat)
  /-- With the code of a call that the instruction began. -/
  | enter
  deriving DecidableEq

namespace Instruction

/-- The instruction has another number of operands than it needs. -/
def wrongCount (i : Instruction) (expected : Nat) : Fault :=
  .operandCount i.opcode expected i.operands.length

/-- The operands, of which there must be exactly so many. -/
def exactly (i : Instruction) (count : Nat) : Except Fault (Vector UInt64 count) :=
  if h : i.operands.length = count then .ok ⟨i.operands.toArray, h⟩
  else .error (i.wrongCount count)

/-- One of the operands. That it is there can be told from their number. -/
def nth (position : Nat) {more : Nat} (operands : Vector UInt64 (more + position + 1)) : UInt64 :=
  operands[position]

end Instruction

/-- The constant at an index of a module's pool. -/
def Registry.constant (r : Registry) (id : ModuleId) (index : UInt64) : Except Fault Value :=
  match r.module id with
  | .error e => .error e
  | .ok m =>
    match m.constants[index.toNat]? with
    | some v => .ok v
    | none => .error (.constantOutOfRange index.toNat)

namespace Simple

open Instruction StoreM

/-- Store the result of an operation on two values. -/
def arithmetic (f : Frame) (op : BinaryOp) (i : Instruction) : StoreM Flow := do
  let operands ← ask fun _ => i.exactly 3
  let l ← ask fun s => s.value (f.slot (nth 1 operands))
  let r ← ask fun s => s.value (f.slot (nth 2 operands))
  let v ← ask fun s => Operation.binary op l r s.maxLen
  write (f.slot (nth 0 operands)) v
  pure .next

/-- Store a negated number. -/
def negate (f : Frame) (i : Instruction) : StoreM Flow := do
  let operands ← ask fun _ => i.exactly 2
  let v ← ask fun s => s.value (f.slot (nth 1 operands))
  let negated ← ask fun _ => Operation.neg v
  write (f.slot (nth 0 operands)) negated
  pure .next

/-- The comparison that an operand selects. -/
def comparison (code : UInt64) : Except Fault Comparison :=
  match Comparison.ofCode? code with
  | some op => .ok op
  | none => .error (.typeMismatch "comparison" "comparison code 0-5" (toString code.toNat))

/-- Store whether a comparison holds, as a byte 1 or 0. -/
def compare (f : Frame) (i : Instruction) : StoreM Flow := do
  let operands ← ask fun _ => i.exactly 4
  let op ← ask fun _ => comparison (nth 1 operands)
  let l ← ask fun s => s.value (f.slot (nth 2 operands))
  let r ← ask fun s => s.value (f.slot (nth 3 operands))
  let holds ← ask fun _ => Operation.compare op l r
  write (f.slot (nth 0 operands)) (.byte (if holds then 1 else 0))
  pure .next

/-- Go on with one of two instructions, depending on a number. -/
def branch (f : Frame) (i : Instruction) : StoreM Flow := do
  let operands ← ask fun _ => i.exactly 3
  let v ← ask fun s => s.value (f.slot (nth 0 operands))
  if v.isNumeric then pure (.jump (if v.isTruthy then nth 1 operands else nth 2 operands).toNat)
  else throw (.typeMismatch "condition" "number" v.typeName)

/-- Go on with the instruction whose index a slot holds. -/
def jump (f : Frame) (i : Instruction) : StoreM Flow := do
  let operands ← ask fun _ => i.exactly 1
  let target ← readUInt64 (f.slot (nth 0 operands))
  pure (.jump target.toNat)

/-- Make a slot an alias of another slot's origin. -/
def refer (f : Frame) (i : Instruction) : StoreM Flow := do
  let operands ← ask fun _ => i.exactly 2
  let origin ← ask fun s => s.origin (f.slot (nth 1 operands))
  bindRef (f.slot (nth 0 operands)) origin
  pure .next

/-- Store a constant of the running module. -/
def loadConst (r : Registry) (f : Frame) (i : Instruction) : StoreM Flow := do
  let operands ← ask fun _ => i.exactly 2
  let v ← ask fun _ => r.constant f.module (nth 1 operands)
  write (f.slot (nth 0 operands)) v
  pure .next

/-- Do something with two slots. -/
def onSlots (f : Frame) (i : Instruction) (action : Slot → Slot → StoreM Unit) :
    StoreM Flow := do
  let operands ← ask fun _ => i.exactly 2
  action (f.slot (nth 0 operands)) (f.slot (nth 1 operands))
  pure .next

/-- Execute a simple instruction. The instructions that call or allocate do nothing here. -/
def execute (r : Registry) (f : Frame) (i : Instruction) : StoreM Flow :=
  match BinaryOp.ofOpcode? i.opcode with
  | some op => arithmetic f op i
  | none =>
    match i.opcode with
    | .load | .store | .ptr => do
      warn (.deprecatedOpcode i.opcode)
      pure .next
    | .neg => negate f i
    | .cmp => compare f i
    | .branch => branch f i
    | .jump => jump f i
    | .refer => refer f i
    | .copy => onSlots f i copy
    | .loadConst => loadConst r f i
    | .convert => onSlots f i cast
    | .freeze => onSlots f i bindConst
    | _ => pure .next

end Simple

end SlotMachine
