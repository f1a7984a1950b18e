import SlotMachine.Machine.Simple
import SlotMachine.Proofs.Operation
import SlotMachine.Proofs.Store.Passing
import Mathlib.Tactic.Common

/-!
# Simple instructions in a sound store

Every operand of an instruction is a slot of a module's heap, so that whatever a simple instruction
reads may be stored, and whatever it writes lands in a slot that programs may write.
-/

namespace SlotMachine.Simple

open Store Discipline StoreM Instruction

variable {s : Store} {known : String → Prop} {f : Frame}

/-- Every operand of a frame that works in a module's heap is an exposed slot. -/
theorem exposed_slot (hf : s.IsModule f.heap) (operand : UInt64) : s.Exposed (f.slot operand) :=
  hf.exposed operand.toNat

/-- Storing the result of an operation on two values. -/
theorem keeps_arithmetic (hs : s.Sound known) (hf : s.IsModule f.heap) (op : BinaryOp)
    (i : Instruction) : (discipline known).Keeps (arithmetic f op i) s fun _ _ => True := by
  unfold arithmetic
  refine keeps_ask_bind hs fun operands _ => ?_
  refine keeps_ask_bind hs fun left hleft => ?_
  refine keeps_ask_bind hs fun right hright => ?_
  refine keeps_ask_bind hs fun v hv => ?_
  have hvouched := Operation.vouches_binary (hs.vouches_value hleft) (hs.vouches_value hright) hv
  refine (keeps_write hs (exposed_slot hf (nth 0 operands)) hvouched).bind fun _ s' hs' _ _ => ?_
  exact keeps_pure hs' trivial

/-- Storing a negated number. -/
theorem keeps_negate (hs : s.Sound known) (hf : s.IsModule f.heap) (i : Instruction) :
    (discipline known).Keeps (negate f i) s fun _ _ => True := by
  unfold negate
  refine keeps_ask_bind hs fun operands _ => ?_
  refine keeps_ask_bind hs fun v _ => ?_
  refine keeps_ask_bind hs fun negated hnegated => ?_
  refine (keeps_write hs (exposed_slot hf (nth 0 operands)) (Operation.vouches_neg hnegated)).bind
    fun _ s' hs' _ _ => ?_
  exact keeps_pure hs' trivial

/-- Storing the outcome of a comparison. -/
theorem keeps_compare (hs : s.Sound known) (hf : s.IsModule f.heap) (i : Instruction) :
    (discipline known).Keeps (compare f i) s fun _ _ => True := by
  unfold compare
  refine keeps_ask_bind hs fun operands _ => ?_
  refine keeps_ask_bind hs fun op _ => ?_
  refine keeps_ask_bind hs fun left _ => ?_
  refine keeps_ask_bind hs fun right _ => ?_
  refine keeps_ask_bind hs fun holds _ => ?_
  have hvouched : s.Vouches (.byte (if holds then 1 else 0)) := trivial
  refine (keeps_write hs (exposed_slot hf (nth 0 operands)) hvouched).bind fun _ s' hs' _ _ => ?_
  exact keeps_pure hs' trivial

/-- Branching changes nothing. -/
theorem keeps_branch (hs : s.Sound known) (i : Instruction) :
    (discipline known).Keeps (branch f i) s fun _ _ => True := by
  unfold branch
  refine keeps_ask_bind hs fun operands _ => ?_
  refine keeps_ask_bind hs fun v _ => ?_
  split
  · exact keeps_pure hs trivial
  · exact keeps_throw hs

/-- Jumping reads the target. -/
theorem keeps_jump (hs : s.Sound known) (i : Instruction) :
    (discipline known).Keeps (jump f i) s fun _ _ => True := by
  unfold jump
  refine keeps_ask_bind hs fun operands _ => ?_
  refine (keeps_readUInt64 hs (f.slot (nth 0 operands))).bind fun target s' hs' _ _ => ?_
  exact keeps_pure hs' trivial

/-- Making a slot an alias of an origin. -/
theorem keeps_refer (hs : s.Sound known) (hf : s.IsModule f.heap) (i : Instruction) :
    (discipline known).Keeps (refer f i) s fun _ _ => True := by
  unfold refer
  refine keeps_ask_bind hs fun operands _ => ?_
  refine keeps_ask_bind hs fun origin horigin => ?_
  have hexposed := hs.exposed_of_originWithin (exposed_slot hf (nth 1 operands)) horigin
  refine (keeps_bind hs hexposed (f.slot (nth 0 operands)) .mutable).bind fun _ s' hs' _ _ => ?_
  exact keeps_pure hs' trivial

/-- Storing a constant. -/
theorem keeps_loadConst (hs : s.Sound known) (hf : s.IsModule f.heap) {r : Registry}
    (hconstant : ∀ index v, r.constant f.module index = .ok v → s.Vouches v) (i : Instruction) :
    (discipline known).Keeps (loadConst r f i) s fun _ _ => True := by
  unfold loadConst
  refine keeps_ask_bind hs fun operands _ => ?_
  refine keeps_ask_bind hs fun v hv => ?_
  refine (keeps_write hs (exposed_slot hf (nth 0 operands)) (hconstant _ v hv)).bind
    fun _ s' hs' _ _ => ?_
  exact keeps_pure hs' trivial

/-- Doing something with two slots. -/
theorem keeps_onSlots (hs : s.Sound known) (i : Instruction) {action : Slot → Slot → StoreM Unit}
    (haction : ∀ result operand, (discipline known).Keeps
      (action (f.slot result) (f.slot operand)) s fun _ _ => True) :
    (discipline known).Keeps (onSlots f i action) s fun _ _ => True := by
  unfold onSlots
  refine keeps_ask_bind hs fun operands _ => ?_
  refine (haction (nth 0 operands) (nth 1 operands)).bind fun _ s' hs' _ _ => ?_
  exact keeps_pure hs' trivial

/-- Executing a simple instruction. -/
theorem keeps_execute (hs : s.Sound known) (hf : s.IsModule f.heap) {r : Registry}
    (hconstant : ∀ index v, r.constant f.module index = .ok v → s.Vouches v) (i : Instruction) :
    (discipline known).Keeps (execute r f i) s fun _ _ => True := by
  unfold execute
  split
  · exact keeps_arithmetic hs hf _ i
  · have hwarned : (discipline known).Keeps (do
        warn (.deprecatedOpcode i.opcode)
        pure Flow.next) s fun _ _ => True :=
      (keeps_warn hs _).bind fun _ s' hs' _ _ => keeps_pure hs' trivial
    split
    · exact hwarned
    · exact hwarned
    · exact hwarned
    · exact keeps_negate hs hf i
    · exact keeps_compare hs hf i
    · exact keeps_branch hs i
    · exact keeps_jump hs i
    · exact keeps_refer hs hf i
    · exact keeps_onSlots hs i fun result operand => keeps_copy hs (exposed_slot hf result) _
    · exact keeps_loadConst hs hf hconstant i
    · exact keeps_onSlots hs i fun result operand => keeps_cast hs (exposed_slot hf result) _
    · exact keeps_onSlots hs i fun result operand =>
        keeps_bind hs (exposed_slot hf operand) _ .const
    · exact keeps_pure hs trivial

end SlotMachine.Simple
