import SlotMachine.Proofs.Faults
import SlotMachine.Transfer
import Mathlib.Tactic.Common

/-!
# Faults of working with the store

Looking into the store, writing to it and binding the arguments of a call fail with run faults only,
but for one place: the element that an array is grown for is taken to be there.
-/

namespace SlotMachine

namespace Store

open Answer Fault

variable {s : Store}

theorem raises_heap (id : HeapId) : Raises Run (s.heap id) := by
  unfold heap
  cases s.heaps[id]? with
  | some h => exact raises_ok _
  | none => exact raises_error rfl

theorem raises_cell (slot : Slot) : Raises Run (s.cell slot) := by
  unfold cell
  cases hheap : s.heap slot.heap with
  | error e => exact raises_error (raises_heap _ e hheap)
  | ok h =>
    dsimp only
    cases h.cells[slot.index]? with
    | some c => exact raises_ok _
    | none => exact raises_error rfl

theorem raises_originWithin (start : Slot) (n : Nat) (x : Slot) :
    Raises Run (s.originWithin start n x) := by
  induction n generalizing x with
  | zero => exact raises_error rfl
  | succ n ih =>
    unfold originWithin
    cases hc : s.cell x with
    | error e => exact raises_error (raises_cell _ e hc)
    | ok c =>
      dsimp only
      split
      · cases c.value with
        | ref next => exact ih next
        | _ => exact raises_error rfl
      · exact raises_ok _

theorem raises_writableWithin (start : Slot) (n : Nat) (x : Slot) :
    Raises Run (s.writableWithin start n x) := by
  induction n generalizing x with
  | zero => exact raises_error rfl
  | succ n ih =>
    unfold writableWithin
    cases hc : s.cell x with
    | error e => exact raises_error (raises_cell _ e hc)
    | ok c =>
      dsimp only
      split
      · exact raises_error rfl
      · split
        · cases c.value with
          | ref next => exact ih next
          | _ => exact raises_error rfl
        · exact raises_ok _

theorem raises_originCell (slot : Slot) : Raises Run (s.originCell slot) :=
  (raises_originWithin slot maxChain slot).bind raises_cell

theorem raises_value (slot : Slot) : Raises Run (s.value slot) :=
  (raises_originCell slot).map Cell.value

theorem raises_text (slot : Slot) : Raises Run (s.text slot) := by
  unfold text
  split
  · exact raises_ok _
  · exact raises_error rfl
  · rename_i e hvalue
    exact raises_error (raises_value slot e hvalue)

theorem raises_array (slot : Slot) : Raises Run (s.array slot) := by
  unfold array
  split
  · exact raises_ok _
  · exact raises_error rfl
  · rename_i e hvalue
    exact raises_error (raises_value slot e hvalue)

theorem raises_object (slot : Slot) : Raises Run (s.object slot) := by
  unfold object
  split
  · exact raises_ok _
  · exact raises_error rfl
  · rename_i e hvalue
    exact raises_error (raises_value slot e hvalue)

theorem raises_elementCount (storage : HeapId) : Raises Run (s.elementCount storage) := by
  unfold elementCount
  cases hc : s.cell ⟨storage, 0⟩ with
  | error e => exact raises_error (raises_cell _ e hc)
  | ok c =>
    dsimp only
    cases c.value with
    | uint64 n => exact raises_ok _
    | _ => exact raises_error rfl

theorem raises_position (a : ArrayHandle) (index : Int64) : Raises Run (a.position index) := by
  unfold ArrayHandle.position
  dsimp only
  split
  · exact raises_ok _
  · exact raises_error rfl

theorem raises_element? (a : ArrayHandle) (index : Int64) : Raises Run (s.element? a index) :=
  (raises_position a index).bind fun _ => (raises_elementCount a.storage).bind fun _ => raises_ok _

theorem raises_elementKind (storage : HeapId) : Raises Run (s.elementKind storage) := by
  unfold elementKind
  cases hheap : s.heap storage with
  | error e => exact raises_error (raises_heap _ e hheap)
  | ok h =>
    dsimp only
    cases h.kind with
    | array element => exact raises_ok _
    | _ => exact raises_error rfl

theorem raises_expectedCell (slot : Slot) : Raises AtWork (s.expectedCell slot) := by
  unfold expectedCell
  cases hheap : s.heap slot.heap with
  | error e => exact raises_error (.inl (raises_heap _ e hheap))
  | ok h =>
    dsimp only
    cases h.cells[slot.index]? with
    | some c => exact raises_ok _
    | none => exact raises_error (.inr rfl)

theorem raises_checkCount (requested : Nat) : Raises Run (s.checkCount requested) := by
  unfold checkCount
  split
  · exact raises_error rfl
  · exact raises_ok _

end Store

namespace StoreM

open SlotMachine.Action Fault

variable {α : Type}

theorem raises_ask {P : Fault → Prop} {question : Store → Except Fault α}
    (h : ∀ s, Answer.Raises P (question s)) : Raises P (ask question) := by
  intro s e s' hask
  unfold ask at hask
  cases hq : question s with
  | ok a => simp [hq] at hask
  | error e' =>
    simp only [hq] at hask
    cases hask
    exact h s e hq

theorem raises_cell (slot : Slot) : Raises Run (ask fun s => s.cell slot) :=
  raises_ask fun _ => Store.raises_cell slot

theorem raises_value (slot : Slot) : Raises Run (ask fun s => s.value slot) :=
  raises_ask fun _ => Store.raises_value slot

theorem raises_origin (slot : Slot) : Raises Run (ask fun s => s.origin slot) :=
  raises_ask fun _ => Store.raises_originWithin slot Store.maxChain slot

theorem raises_writable (slot : Slot) : Raises Run (ask fun s => s.writable slot) :=
  raises_ask fun _ => Store.raises_writableWithin slot Store.maxChain slot

theorem raises_replace (slot : Slot) (c : Cell) : Raises Run (replace slot c) :=
  (raises_cell slot).bind fun _ => raises_modify _

theorem raises_alloc (kind : HeapKind) (cells : Array Cell) : Raises Run (alloc kind cells) := nofun

theorem raises_heapSize (id : HeapId) : Raises Run (ask fun s => s.heapSize id) :=
  raises_ask fun _ => (Store.raises_heap id).map _

theorem raises_push (id : HeapId) (c : Cell) : Raises Run (push id c) :=
  (raises_heapSize id).bind fun _ => (raises_modify _).bind fun _ => raises_pure _

theorem raises_extend (id : HeapId) (len : Nat) : Raises Run (extend id len) :=
  (raises_heapSize id).bind fun _ => raises_modify _

theorem raises_boundTags (slot : Slot) (c : Cell) (binding : Binding) (referent : Tag) :
    Answer.Raises Run (boundTags slot c binding referent) := by
  unfold boundTags
  split
  · exact Answer.raises_error rfl
  · split
    · refine Answer.Raises.map ?_ _
      unfold checkReferent
      split
      · exact Answer.raises_ok _
      · exact Answer.raises_error rfl
    · split
      · exact Answer.raises_error rfl
      · exact Answer.raises_ok _

theorem raises_bind (slot target : Slot) (binding : Binding) :
    Raises Run (bind slot target binding) := by
  unfold bind
  have hbound : ∀ c referent, Raises Run (ask fun _ => boundTags slot c binding referent) :=
    fun c referent => raises_ask fun _ => raises_boundTags slot c binding referent
  split
  · exact raises_throw rfl
  · refine (raises_origin target).bind fun referent => ?_
    split
    · exact raises_throw rfl
    · exact (raises_cell referent).bind fun _ => (raises_cell slot).bind fun _ =>
        (hbound _ _).bind fun _ => raises_replace _ _

theorem raises_warnIfLossy (lossy : Bool) (source target : Tag) :
    Raises Run (warnIfLossy lossy source target) := by
  unfold warnIfLossy
  split
  · exact raises_modify _
  · exact raises_pure _

theorem raises_writeValue (slot : Slot) (v : Value) : Raises Run (writeValue slot v) := by
  refine (raises_writable slot).bind fun target => (raises_cell target).bind fun c => ?_
  split
  · exact raises_replace _ _
  · split
    · exact raises_replace _ _
    · split
      · exact (raises_warnIfLossy _ _ _).bind fun _ => raises_replace _ _
      · exact raises_throw rfl

theorem raises_write (slot : Slot) (v : Value) : Raises Run (write slot v) := by
  cases v with
  | ref target => exact raises_bind slot target .mutable
  | _ => exact raises_writeValue slot _

theorem raises_readNumber (slot : Slot) (kind : Tag) (operation : String) :
    Raises Run (readNumber slot kind operation) := by
  refine (raises_value slot).bind fun v => ?_
  split
  · exact (raises_warnIfLossy _ _ _).bind fun _ => raises_pure _
  · exact raises_throw rfl

theorem raises_readLong (slot : Slot) : Raises Run (readLong slot) := by
  refine (raises_readNumber slot _ _).bind fun v => ?_
  split
  · exact raises_pure _
  · exact raises_throw rfl

theorem raises_readUInt64 (slot : Slot) : Raises Run (readUInt64 slot) := by
  refine (raises_readNumber slot _ _).bind fun v => ?_
  split
  · exact raises_pure _
  · exact raises_throw rfl

theorem raises_copy (target source : Slot) : Raises Run (copy target source) := by
  refine (raises_value source).bind fun v => ?_
  split
  · exact raises_pure _
  · exact raises_throw rfl
  · exact raises_throw rfl
  · exact raises_write _ _

theorem raises_castTo (declared : Tag) (v : Value) : Answer.Raises Run (castTo declared v) := by
  unfold castTo
  split
  · split
    · dsimp only
      split
      · exact Answer.raises_ok _
      · exact Answer.raises_error rfl
    · exact Answer.raises_ok _
  · split <;> exact Answer.raises_ok _

theorem raises_cast (target source : Slot) : Raises Run (cast target source) := by
  refine (raises_value source).bind fun v => (raises_writable target).bind fun landing =>
    (raises_cell landing).bind fun c => ?_
  split
  · exact (raises_ask fun _ => raises_castTo _ _).bind fun _ => raises_write _ _
  · exact raises_copy _ _

theorem raises_clearUnlessFixed (slot : Slot) : Raises Run (clearUnlessFixed slot) := by
  refine (raises_cell slot).bind fun c => ?_
  split
  · exact raises_pure _
  · exact raises_replace _ _

theorem raises_passArgument (formal actual : Slot) : Raises Run (passArgument formal actual) := by
  unfold passArgument
  split
  · exact raises_pure _
  · refine (raises_cell formal).bind fun c => ?_
    split
    · exact raises_replace _ _
    · exact (raises_clearUnlessFixed _).bind fun _ => raises_copy _ _

theorem raises_passArguments (pairs : List (Slot × Slot)) : Raises Run (passArguments pairs) := by
  induction pairs with
  | nil => exact raises_pure _
  | cons p others ih => exact (raises_passArgument p.1 p.2).bind fun _ => ih

theorem raises_allocArray (element : ElementKind) (len : Nat) :
    Raises Run (allocArray element len) :=
  (raises_ask fun _ => Store.raises_checkCount len).bind fun _ =>
    (raises_alloc _ _).bind fun _ => raises_pure _

theorem raises_growArray (storage : HeapId) (element : ElementKind) (len wanted : Nat) :
    Raises Run (growArray storage element len wanted) := by
  have hcount : Raises Run (if len < wanted then
      modify fun s : Store => s.modifyHeap storage fun cells =>
        cells.modify 0 fun c => { c with value := .uint64 (UInt64.ofNat wanted) }
      else pure () : StoreM Unit) := by
    split
    · exact raises_modify _
    · exact raises_pure _
  refine (raises_heapSize storage).bind fun size => raises_get.bind fun _ => ?_
  dsimp only
  split
  · exact (raises_modify _).bind fun _ => hcount
  · exact hcount

theorem raises_establish (element : ElementKind) (slot : Slot) :
    Raises AtWork (establish element slot) := by
  refine (raises_ask fun _ => Store.raises_expectedCell slot).bind fun c => ?_
  split
  · exact raises_pure _
  · exact (raises_replace _ _).atWork.bind fun _ => raises_pure _

theorem raises_reachElement (a : ArrayHandle) (index : Int64) :
    Raises AtWork (reachElement a index) := by
  have hreach : ∀ len position, Raises AtWork (do
      let element ← ask fun s => s.elementKind a.storage
      growArray a.storage element len (position + 1)
      establish element ⟨a.storage, position + 1⟩) := by
    intro len position
    exact (raises_ask fun _ => Store.raises_elementKind _).atWork.bind fun element =>
      (raises_growArray _ _ _ _).atWork.bind fun _ => raises_establish _ _
  refine (raises_ask fun _ => Store.raises_position a index).atWork.bind fun position =>
    (raises_ask fun _ => Store.raises_elementCount _).atWork.bind fun len => ?_
  split
  · exact (raises_ask fun _ => Store.raises_checkCount _).atWork.bind fun _ => hreach len position
  · exact hreach len position

theorem raises_fillArray (a : ArrayHandle) (index : Nat) (actuals : List Slot) :
    Raises AtWork (fillArray a index actuals) := by
  induction actuals generalizing index with
  | nil => exact raises_pure _
  | cons actual others ih =>
    refine (raises_reachElement a _).bind fun element => ?_
    split
    · exact (raises_copy _ _).atWork.bind fun _ => ih _
    · exact ih _

theorem raises_collectRest (formal : Slot) (actuals : List Slot) :
    Raises AtWork (collectRest formal actuals) :=
  (raises_allocArray _ _).atWork.bind fun _ => (raises_fillArray _ _ _).bind fun _ =>
    ((raises_clearUnlessFixed _).bind fun _ => raises_write _ _).atWork

/-- Binding the arguments of a call fails with run faults only, or breaks down over the array that
collects the rest of them. -/
theorem raises_pass (heap : HeapId) (f : Function) (args : List Slot) :
    Raises AtWork (pass heap f args) := by
  unfold pass
  dsimp only
  split
  · exact raises_throw (.inl rfl)
  · refine (raises_passArguments _).atWork.bind fun _ => ?_
    split
    · split
      · exact raises_collectRest _ _
      · exact raises_pure _
    · exact raises_pure _

end StoreM

end SlotMachine
