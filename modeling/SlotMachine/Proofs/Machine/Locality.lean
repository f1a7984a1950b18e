import SlotMachine.Proofs.Machine.Sound
import SlotMachine.Proofs.Store.Atomicity
import SlotMachine.Proofs.Store.Handover
import Mathlib.Tactic.Common

/-!
# What a simple instruction touches

An instruction that neither calls nor allocates reads as much as it likes and then makes one change:
it stores a result. So it either fails and leaves the machine as it was, or it changes at most one
cell of the whole store, and that cell is the one its first operand names or the one in which a
write to that operand lands. This holds in every store, also in one where the result is an alias of
what the instruction reads.
-/

namespace SlotMachine

/-- Whether the instruction neither calls nor allocates. -/
def Opcode.isSimple : Opcode → Bool
  | new | array | loadMember | invoke | invokeMethod => false
  | _ => true

/-- Whether the instruction has a result to store. -/
def Opcode.storesResult : Opcode → Bool
  | nop | wide | load | store | ptr | branch | jump => false
  | _ => true

/-- The operand to which the result of an instruction goes, if it has a result. -/
def Instruction.result? (i : Instruction) : Option UInt64 :=
  if i.opcode.storesResult then i.operands.head? else none

namespace Store

variable {s s' s₁ : Store} {slot t : Slot} {c : Cell}

/-- A result may have been stored in a slot: in the slot itself or where a write to it lands. -/
structure StoresAt (s : Store) (slot : Slot) (s' : Store) : Prop where
  /-- No other cell has changed, and no heap has come or grown. -/
  differs : ∃ t, (t = slot ∨ s.writable slot = .ok t) ∧ s.DiffersOnlyAt s' t
  /-- At most one warning has come. -/
  warnings : s'.warnings = s.warnings ∨ ∃ w, s'.warnings = s.warnings.push w

/-- At most one warning is the last one. -/
theorem Warned.warnings_eq (h : s.Warned s₁) :
    s₁.warnings = s.warnings ∨ ∃ w, s₁.warnings = s.warnings.push w := by
  rcases h with rfl | ⟨w, rfl⟩
  · exact .inl rfl
  · exact .inr ⟨w, rfl⟩

/-- A result that is not stored after all. -/
theorem StoresAt.refl (s : Store) (slot : Slot) : s.StoresAt slot s :=
  ⟨⟨slot, .inl rfl, .refl s slot⟩, .inl rfl⟩

/-- Replacing a cell, perhaps after a warning, stores a result. -/
theorem Warned.storesAt (h : s.Warned s₁) (hc : s.cell t = .ok c)
    (ht : t = slot ∨ s.writable slot = .ok t) (new : Cell) :
    s.StoresAt slot (s₁.setCell t new) :=
  ⟨⟨t, ht, h.differsOnlyAt hc new⟩, h.warnings_eq⟩

end Store

namespace StoreM

open Store

variable {α β : Type} {s : Store} {P Q : Store → Prop}

/-- The action fails without a trace, or it ends in a store of the given kind. -/
def Local (x : StoreM α) (s : Store) (P : Store → Prop) : Prop :=
  Action.Ends x s (fun _ s' => P s') fun _ s' => s' = s

/-- An action that fails without a trace and is only known to end well. -/
theorem Atomic.local {x : StoreM α} (hx : Atomic x s) (hP : ∀ a s', x s = .ok a s' → P s') :
    Local x s P := by
  cases hxs : x s with
  | ok a s' => exact Action.ends_of_ok hxs (hP a s' hxs)
  | error e s' => exact Action.ends_of_error hxs (hx e s' hxs)

/-- What is known of the store in the end may be weakened. -/
theorem Local.mono {x : StoreM α} (hx : Local x s P) (h : ∀ s', P s' → Q s') : Local x s Q :=
  Action.Ends.mono hx (fun _ s' => h s') fun _ _ hs' => hs'

/-- Questions come before the change. -/
theorem local_ask_bind {question : Store → Except Fault α} {f : α → StoreM β}
    (hf : ∀ a, question s = .ok a → Local (f a) s P) : Local (ask question >>= f) s P := by
  cases hq : question s with
  | error e => exact Action.ends_of_error (ask_bind_of_error hq) rfl
  | ok a =>
    unfold Local
    rw [Action.Ends, ask_bind_of_ok hq]
    exact hf a hq

/-- Nothing is left to do after the change. -/
theorem Local.pure_bind {x : StoreM α} {f : α → β} (hx : Local x s P) :
    Local (x >>= fun a => pure (f a)) s P := by
  cases hxs : x s with
  | ok a s' => exact Action.ends_of_ok (Action.bind_of_ok hxs) (hx.of_ok hxs)
  | error e s' => exact Action.ends_of_error (Action.bind_of_error hxs) (hx.of_error hxs)

/-- Binding a slot changes its own cell. -/
theorem local_bind (slot target : Slot) (binding : Binding) (s : Store) :
    Local (bind slot target binding) s (s.StoresAt slot) := by
  refine (atomic_bind slot target binding s).local fun _ s' h => ?_
  obtain ⟨-, -, -, c, tags, -, -, -, hc, -, rfl⟩ := bind_eq_ok_iff.mp h
  have hwarned : s.Warned s := .inl rfl
  exact hwarned.storesAt hc (.inl rfl) _

/-- Writing a value changes the cell in which the write lands, or binds the slot. -/
theorem local_write (slot : Slot) (v : Value) (s : Store) :
    Local (write slot v) s (s.StoresAt slot) := by
  by_cases href : ∃ target, v = .ref target
  · obtain ⟨target, rfl⟩ := href
    exact local_bind slot target .mutable s
  · rw [write_eq_writeValue fun target heq => href ⟨target, heq⟩]
    rcases writeValue_outcome slot v s with ⟨e, he⟩ | ⟨t, c, c', s₁, ht, hc, -, hwarned, hok⟩
    · exact Action.ends_of_error he rfl
    · exact Action.ends_of_ok hok (hwarned.storesAt hc (.inr ht) c')

/-- Copying writes, unless there is nothing to copy. -/
theorem local_copy (target source : Slot) (s : Store) :
    Local (copy target source) s (s.StoresAt target) := by
  refine local_ask_bind fun v _ => ?_
  cases v with
  | nothing => exact Action.ends_pure (.refl s target)
  | ref _ => exact Action.ends_throw rfl
  | handle _ => exact Action.ends_throw rfl
  | _ => exact local_write target _ s

/-- Casting writes what the value is cast into. -/
theorem local_cast (target source : Slot) (s : Store) :
    Local (cast target source) s (s.StoresAt target) := by
  refine local_ask_bind fun v _ => ?_
  refine local_ask_bind fun landing _ => ?_
  refine local_ask_bind fun c _ => ?_
  split
  · exact local_ask_bind fun converted _ => local_write target converted s
  · exact local_copy target source s

/-- Reading a number changes no cell. -/
theorem local_readUInt64 (slot : Slot) (s : Store) : Local (readUInt64 slot) s s.Warned := by
  have hatomic : Atomic (readUInt64 slot) s := fun e s' h => (refuses_readUInt64 slot s e s' h).2
  refine hatomic.local fun n s' h => ?_
  obtain ⟨v, s₁, hread, hrest⟩ := Action.bind_eq_ok_iff.mp h
  rcases readNumber_outcome slot Tag.uint64 "read uint64" s with ⟨e, he⟩ | ⟨w, s₂, hok, -, hwarned⟩
  · rw [he] at hread
    cases hread
  · rw [hok] at hread
    cases hread
    cases v with
    | uint64 n =>
      cases hrest
      exact hwarned
    | _ => cases hrest

end StoreM

namespace Instruction

variable {i : Instruction} {count : Nat}

/-- The operands of an instruction that has exactly so many. -/
theorem operands_of_exactly {operands : Vector UInt64 count} (h : i.exactly count = .ok operands) :
    i.operands = operands.toList := by
  unfold exactly at h
  split at h
  · cases h
    rfl
  · cases h

/-- The result of an instruction goes to the first of its operands, however many it takes. -/
theorem head?_of_exactly {operands : Vector UInt64 (count + 1)}
    (h : i.exactly (count + 1) = .ok operands) : i.operands.head? = some (nth 0 operands) := by
  rw [operands_of_exactly h, nth]
  simp [List.head?_eq_getElem?]

end Instruction

namespace Simple

open Store StoreM Instruction

variable {s : Store} {f : Frame} {i : Instruction}

/-- A result may have been stored in the slot of the first operand. -/
def Settles (f : Frame) (i : Instruction) (s s' : Store) : Prop :=
  ∃ result, i.operands.head? = some result ∧ s.StoresAt (f.slot result) s'

/-- An instruction whose last act is to store its result. -/
theorem local_settles {x : StoreM Unit} {result : UInt64} (hi : i.operands.head? = some result)
    (hx : Local x s (s.StoresAt (f.slot result))) :
    Local (do x; pure Flow.next) s (Settles f i s) := by
  have hsettles : Local x s (Settles f i s) := hx.mono fun s' h => ⟨result, hi, h⟩
  exact hsettles.pure_bind

theorem local_arithmetic (f : Frame) (op : BinaryOp) (i : Instruction) (s : Store) :
    Local (arithmetic f op i) s (Settles f i s) := by
  refine local_ask_bind fun operands hoperands => ?_
  refine local_ask_bind fun left _ => ?_
  refine local_ask_bind fun right _ => ?_
  refine local_ask_bind fun v _ => ?_
  exact local_settles (head?_of_exactly hoperands) (local_write _ v s)

theorem local_negate (f : Frame) (i : Instruction) (s : Store) :
    Local (negate f i) s (Settles f i s) := by
  refine local_ask_bind fun operands hoperands => ?_
  refine local_ask_bind fun v _ => ?_
  refine local_ask_bind fun negated _ => ?_
  exact local_settles (head?_of_exactly hoperands) (local_write _ negated s)

theorem local_compare (f : Frame) (i : Instruction) (s : Store) :
    Local (compare f i) s (Settles f i s) := by
  refine local_ask_bind fun operands hoperands => ?_
  refine local_ask_bind fun op _ => ?_
  refine local_ask_bind fun left _ => ?_
  refine local_ask_bind fun right _ => ?_
  refine local_ask_bind fun holds _ => ?_
  exact local_settles (head?_of_exactly hoperands) (local_write _ _ s)

theorem local_refer (f : Frame) (i : Instruction) (s : Store) :
    Local (refer f i) s (Settles f i s) := by
  refine local_ask_bind fun operands hoperands => ?_
  refine local_ask_bind fun origin _ => ?_
  exact local_settles (head?_of_exactly hoperands) (local_bind _ origin .mutable s)

theorem local_loadConst (r : Registry) (f : Frame) (i : Instruction) (s : Store) :
    Local (loadConst r f i) s (Settles f i s) := by
  refine local_ask_bind fun operands hoperands => ?_
  refine local_ask_bind fun v _ => ?_
  exact local_settles (head?_of_exactly hoperands) (local_write _ v s)

theorem local_onSlots {action : Slot → Slot → StoreM Unit}
    (haction : ∀ target source, Local (action target source) s (s.StoresAt target)) :
    Local (onSlots f i action) s (Settles f i s) := by
  refine local_ask_bind fun operands hoperands => ?_
  exact local_settles (head?_of_exactly hoperands) (haction _ _)

/-- Branching changes nothing. -/
theorem local_branch (f : Frame) (i : Instruction) (s : Store) : Local (branch f i) s s.Warned := by
  refine local_ask_bind fun operands _ => ?_
  refine local_ask_bind fun v _ => ?_
  split
  · exact Action.ends_pure (.inl rfl)
  · exact Action.ends_throw rfl

/-- Jumping may warn about the number that it reads. -/
theorem local_jump (f : Frame) (i : Instruction) (s : Store) : Local (jump f i) s s.Warned :=
  local_ask_bind fun operands _ => (local_readUInt64 (f.slot (nth 0 operands)) s).pure_bind

/-- Deprecated instructions only warn. -/
theorem local_warn (w : Warning) (s : Store) :
    Local (do warn w; pure Flow.next) s s.Warned :=
  Action.ends_of_ok rfl (.inr ⟨w, rfl⟩)

/-- What a simple instruction that ends well makes of the store: with a result, that may have been
stored; without one, there may be a warning. -/
def Leaves (f : Frame) (i : Instruction) (s s' : Store) : Prop :=
  match i.result? with
  | some result => s.StoresAt (f.slot result) s'
  | none => s.Warned s'

/-- An instruction with a result. -/
theorem Settles.leaves {s' : Store} (hi : i.opcode.storesResult = true) (h : Settles f i s s') :
    Leaves f i s s' := by
  obtain ⟨result, hresult, hstores⟩ := h
  have hresult? : i.result? = some result := by rw [Instruction.result?, if_pos hi, hresult]
  rw [Leaves, hresult?]
  exact hstores

/-- An instruction without a result. -/
theorem leaves_of_warned {s' : Store} (hi : i.opcode.storesResult = false) (h : s.Warned s') :
    Leaves f i s s' := by
  have hresult? : i.result? = none := by rw [Instruction.result?, hi]; rfl
  rw [Leaves, hresult?]
  exact h

/-- An instruction that does nothing. -/
theorem leaves_refl (f : Frame) (i : Instruction) (s : Store) : Leaves f i s s := by
  unfold Leaves
  split
  · exact .refl s _
  · exact .inl rfl

/-- An operation on two values has a result. -/
theorem storesResult_of_binary {o : Opcode} {op : BinaryOp}
    (h : BinaryOp.ofOpcode? o = some op) : o.storesResult = true := by
  cases o <;> first | rfl | cases h

/-- One of the instructions with a result. -/
theorem local_of_settles {x : StoreM Flow} (hi : i.opcode.storesResult = true)
    (hx : Local x s (Settles f i s)) : Local x s (Leaves f i s) :=
  hx.mono fun _ h => h.leaves hi

/-- One of the instructions without a result. -/
theorem local_of_warned {x : StoreM Flow} (hi : i.opcode.storesResult = false)
    (hx : Local x s s.Warned) : Local x s (Leaves f i s) :=
  hx.mono fun _ h => leaves_of_warned hi h

/-- A simple instruction fails without a trace, or stores its result and nothing else. -/
theorem local_execute (r : Registry) (f : Frame) (i : Instruction) (s : Store) :
    Local (execute r f i) s (Leaves f i s) := by
  unfold execute
  cases hop : BinaryOp.ofOpcode? i.opcode with
  | some op =>
    exact local_of_settles (storesResult_of_binary hop) (local_arithmetic f op i s)
  | none =>
    have hwarn : i.opcode.storesResult = false → Local (do
        warn (.deprecatedOpcode i.opcode)
        pure Flow.next) s (Leaves f i s) := fun hi => local_of_warned hi (local_warn _ s)
    dsimp only
    split
    case h_1 h => exact hwarn (by rw [h]; rfl)
    case h_2 h => exact hwarn (by rw [h]; rfl)
    case h_3 h => exact hwarn (by rw [h]; rfl)
    case h_4 h => exact local_of_settles (by rw [h]; rfl) (local_negate f i s)
    case h_5 h => exact local_of_settles (by rw [h]; rfl) (local_compare f i s)
    case h_6 h => exact local_of_warned (by rw [h]; rfl) (local_branch f i s)
    case h_7 h => exact local_of_warned (by rw [h]; rfl) (local_jump f i s)
    case h_8 h => exact local_of_settles (by rw [h]; rfl) (local_refer f i s)
    case h_9 h =>
      refine local_of_settles (by rw [h]; rfl) (local_onSlots fun target source => ?_)
      exact local_copy target source s
    case h_10 h => exact local_of_settles (by rw [h]; rfl) (local_loadConst r f i s)
    case h_11 h =>
      refine local_of_settles (by rw [h]; rfl) (local_onSlots fun target source => ?_)
      exact local_cast target source s
    case h_12 h =>
      refine local_of_settles (by rw [h]; rfl) (local_onSlots fun target source => ?_)
      exact local_bind target source .const s
    case h_13 => exact Action.ends_pure (leaves_refl f i s)

end Simple

namespace MachineM

variable {i : Instruction}

/-- A simple instruction acts on the store alone. -/
theorem execute_of_isSimple (hi : i.opcode.isSimple = true) (f : Frame) (m : Machine) :
    execute f i m = onStore (Simple.execute m.registry f i) m := by
  have hexecute : execute f i =
      (do onStore (Simple.execute (← get).registry f i)) := by
    unfold execute
    split
    case h_6 => rfl
    all_goals
      rename_i h
      rw [h] at hi
      cases hi
  rw [hexecute]
  rfl

/-- Whatever the machine, a simple instruction that fails leaves it exactly as it was. One that ends
well changes the store and nothing else of the machine, and adds at most one warning. Without a
result it changes no cell; with one, it leaves every heap and every cell as it was but for one, which
is the cell that the result operand names or the one in which a write to that operand lands. -/
theorem simple_execution_is_local (m : Machine) (f : Frame) (i : Instruction)
    (hi : i.opcode.isSimple = true) :
    (∀ e m', execute f i m = .error e m' → m' = m) ∧
      ∀ flow m', execute f i m = .ok flow m' → ∃ s', m' = { m with store := s' } ∧
        (s'.warnings = m.store.warnings ∨ ∃ w, s'.warnings = m.store.warnings.push w) ∧
        (i.result? = none → m.store.Warned s') ∧
        ∀ result, i.result? = some result →
          ∃ t, (t = f.slot result ∨ m.store.writable (f.slot result) = .ok t) ∧
            m.store.DiffersOnlyAt s' t := by
  have hlocal := Simple.local_execute m.registry f i m.store
  rw [execute_of_isSimple hi, onStore_eq]
  cases hexecute : Simple.execute m.registry f i m.store with
  | error e s' =>
    obtain rfl : s' = m.store := hlocal.of_error hexecute
    refine ⟨?_, by simp⟩
    rintro _ _ ⟨⟩
    rfl
  | ok flow s' =>
    have hleaves : Simple.Leaves f i m.store s' := hlocal.of_ok hexecute
    refine ⟨by simp, ?_⟩
    rintro _ _ ⟨⟩
    refine ⟨s', rfl, ?_⟩
    unfold Simple.Leaves at hleaves
    cases hresult : i.result? with
    | none =>
      rw [hresult] at hleaves
      exact ⟨hleaves.warnings_eq, fun _ => hleaves, by simp⟩
    | some result =>
      rw [hresult] at hleaves
      refine ⟨hleaves.warnings, by simp, ?_⟩
      rintro _ ⟨⟩
      exact hleaves.differs

/-- A call that adds up two cells. -/
def adding : Frame :=
  ⟨0, 0, none, ⟨"add", false, [], #[⟨.add, [1, 0, 2]⟩]⟩, 0, none, .proceed⟩

/-- The machine at that call, with a byte, a reference to it, and a long number. -/
def byteBehindReference : Machine where
  store := ⟨#[⟨.module, #[⟨[Tag.byte], true, .byte 5⟩, ⟨[Tag.ref, Tag.byte], true, .ref ⟨0, 0⟩⟩,
    ⟨[Tag.long], true, .long 295⟩]⟩], #[], 16⟩
  registry := Registry.empty (Source.ofFiles [])
  sink := Sink.empty
  natives := NativeTable.standard
  settings := Settings.standard
  frames := [adding]
  program := some 0

/-- The sum of the byte and the long number goes through the reference, which is the result operand,
back into the byte, with a warning since it does not fit. Nothing else changes. -/
theorem add_byteBehindReference : Opcode.add.isSimple = true ∧
    ∃ m', execute adding ⟨.add, [1, 0, 2]⟩ byteBehindReference = .ok .next m' ∧
      m'.store.cell ⟨0, 0⟩ = .ok ⟨[Tag.byte], true, .byte 44⟩ ∧
      m'.store.warnings = #[.lossyConversion Tag.long Tag.byte] ∧
      ∀ x, x ≠ ⟨0, 0⟩ → m'.store.cell x = byteBehindReference.store.cell x := by
  have hexecute : execute adding ⟨.add, [1, 0, 2]⟩ byteBehindReference = .ok .next _ := rfl
  refine ⟨rfl, _, hexecute, rfl, rfl, ?_⟩
  obtain ⟨-, hok⟩ := simple_execution_is_local byteBehindReference adding ⟨.add, [1, 0, 2]⟩ rfl
  obtain ⟨s', hs', -, -, hresult⟩ := hok _ _ hexecute
  obtain ⟨t, ht, hdiffers⟩ := hresult 1 rfl
  obtain rfl : _ = s' := congrArg Machine.store hs'
  have hlanding : byteBehindReference.store.writable (adding.slot 1) = .ok ⟨0, 0⟩ := rfl
  rcases ht with rfl | ht
  · -- The reference itself is not what changed, since the byte did.
    have hbyte := hdiffers.cell_other ⟨0, 0⟩ (by decide)
    cases hbyte
  · obtain rfl : (⟨0, 0⟩ : Slot) = t := by simpa [hlanding] using ht
    exact hdiffers.cell_other

end MachineM

end SlotMachine
