import SlotMachine.Store
import SlotMachine.Proofs.Action
import Mathlib.Tactic.Common

/-!
# Looking at the cells of a store

What the questions and the elementary changes of a store say about its heaps and cells. Everything
later speaks of heaps through `Store.heaps[id]?` and of cells through `Store.cell`, and uses the
lemmas of this file to follow a change.
-/

namespace SlotMachine

namespace Store

variable {s : Store} {slot other : Slot} {c : Cell} {id : HeapId} {h : Heap} {kind : HeapKind}

/-- What a heap is used for, if there is one with this number. -/
def kind? (s : Store) (id : HeapId) : Option HeapKind :=
  s.heaps[id]?.map Heap.kind

/-- A heap is there exactly if its number is in use. -/
theorem heap_eq_ok_iff : s.heap id = .ok h ↔ s.heaps[id]? = some h := by
  unfold heap
  cases s.heaps[id]? <;> simp

/-- A cell is there exactly if its heap is there and has that many cells. -/
theorem cell_eq_ok_iff :
    s.cell slot = .ok c ↔ ∃ h, s.heaps[slot.heap]? = some h ∧ h.cells[slot.index]? = some c := by
  unfold cell heap
  cases s.heaps[slot.heap]? with
  | none => simp
  | some h => cases hc : h.cells[slot.index]? <;> simp [hc]

/-- The size of a heap. -/
theorem heapSize_eq_ok_iff {n : Nat} :
    s.heapSize id = .ok n ↔ ∃ h, s.heaps[id]? = some h ∧ h.cells.size = n := by
  unfold heapSize heap
  cases s.heaps[id]? with
  | none => simp [Except.map]
  | some h => simp [Except.map]

/-- A heap has a kind exactly if it is there. -/
theorem kind?_eq_some_iff : s.kind? id = some kind ↔ ∃ h, s.heaps[id]? = some h ∧ h.kind = kind := by
  simp [kind?]

/-- The heap of a cell has a kind. -/
theorem exists_kind_of_cell (hc : s.cell slot = .ok c) : ∃ kind, s.kind? slot.heap = some kind := by
  obtain ⟨h, hh, -⟩ := cell_eq_ok_iff.mp hc
  exact ⟨h.kind, kind?_eq_some_iff.mpr ⟨h, hh, rfl⟩⟩

/-- Changing the cells of one heap leaves the others alone. -/
theorem heaps_modifyHeap (s : Store) (id other : HeapId) (f : Array Cell → Array Cell) :
    (s.modifyHeap id f).heaps[other]? =
      if other = id then s.heaps[other]?.map fun h => { h with cells := f h.cells }
      else s.heaps[other]? := by
  simp only [modifyHeap, Array.getElem?_modify, eq_comm]

/-- A heap that is changed has the changed cells. -/
theorem heaps_modifyHeap_self (hh : s.heaps[id]? = some h) (f : Array Cell → Array Cell) :
    (s.modifyHeap id f).heaps[id]? = some { h with cells := f h.cells } := by
  rw [heaps_modifyHeap, if_pos rfl, hh]
  rfl

/-- After a change of one heap, a heap is the changed one or was there before. -/
theorem heap_of_modifyHeap {f : Array Cell → Array Cell} {other : HeapId} {h' : Heap}
    (hh : s.heaps[id]? = some h) (hh' : (s.modifyHeap id f).heaps[other]? = some h') :
    h' = { h with cells := f h.cells } ∨ s.heaps[other]? = some h' := by
  rw [heaps_modifyHeap] at hh'
  split at hh'
  · rename_i heq
    rw [heq, hh] at hh'
    exact .inl (Option.some.inj hh').symm
  · exact .inr hh'

/-- Two changes of one heap are one change. -/
theorem modifyHeap_modifyHeap (s : Store) (id : HeapId) (f g : Array Cell → Array Cell) :
    (s.modifyHeap id f).modifyHeap id g = s.modifyHeap id (g ∘ f) := by
  unfold modifyHeap
  congr 1
  apply Array.ext_getElem?
  intro other
  simp only [Array.getElem?_modify]
  split <;> simp [Option.map_map, Function.comp_def]

/-- A change that does nothing to the cells of a heap changes nothing. -/
theorem modifyHeap_eq_self {f : Array Cell → Array Cell} (hh : s.heaps[id]? = some h)
    (hf : f h.cells = h.cells) : s.modifyHeap id f = s := by
  have hheaps : (s.heaps.modify id fun h => { h with cells := f h.cells }) = s.heaps := by
    apply Array.ext_getElem?
    intro other
    rw [Array.getElem?_modify]
    split
    · rename_i heq
      rw [← heq, hh, Option.map_some, hf]
    · rfl
  unfold modifyHeap
  rw [hheaps]

/-- A change of a heap depends on what it makes of the cells that are there. -/
theorem modifyHeap_congr {f g : Array Cell → Array Cell} (hh : s.heaps[id]? = some h)
    (hfg : f h.cells = g h.cells) : s.modifyHeap id f = s.modifyHeap id g := by
  unfold modifyHeap
  congr 1
  apply Array.ext_getElem?
  intro other
  rw [Array.getElem?_modify, Array.getElem?_modify]
  split
  · rename_i heq
    rw [← heq, hh, Option.map_some, Option.map_some, hfg]
  · rfl

/-- Changing the cells of a heap does not change what heaps are used for. -/
@[simp]
theorem kind?_modifyHeap (s : Store) (id other : HeapId) (f : Array Cell → Array Cell) :
    (s.modifyHeap id f).kind? other = s.kind? other := by
  rw [kind?, heaps_modifyHeap, kind?]
  split
  · cases s.heaps[other]? <;> rfl
  · rfl

/-- A new heap takes the first free number, and the heaps that are there stay as they are. -/
theorem heaps_alloc (s : Store) (kind : HeapKind) (cells : Array Cell) (id : HeapId) :
    (s.alloc kind cells).2.heaps[id]? =
      if id = s.heaps.size then some ⟨kind, cells⟩ else s.heaps[id]? := by
  simp only [alloc, Array.getElem?_push]

/-- A new heap has its kind, and the heaps that are there keep theirs. -/
theorem kind?_alloc (s : Store) (kind : HeapKind) (cells : Array Cell) (id : HeapId) :
    (s.alloc kind cells).2.kind? id = if id = s.heaps.size then some kind else s.kind? id := by
  rw [kind?, heaps_alloc]
  split <;> rfl

/-- Replacing the cell at a slot that exists changes this cell and no other. -/
theorem cell_setCell (hslot : s.cell slot = .ok c) (new : Cell) :
    (s.setCell slot new).cell other = if other = slot then .ok new else s.cell other := by
  obtain ⟨h, hh, hc⟩ := cell_eq_ok_iff.mp hslot
  have hbound : slot.index < h.cells.size := (Array.getElem?_eq_some_iff.mp hc).1
  unfold setCell cell heap
  rw [heaps_modifyHeap]
  by_cases hheap : other.heap = slot.heap
  · rw [if_pos hheap, hheap, hh]
    by_cases hindex : other.index = slot.index
    · have hsame : other = slot := by cases other; cases slot; simp_all
      simp [hsame, hbound]
    · have hdiff : other ≠ slot := fun heq => hindex (by rw [heq])
      simp [Array.getElem?_setIfInBounds_ne (Ne.symm hindex), hdiff]
  · have hdiff : other ≠ slot := fun heq => hheap (by rw [heq])
    rw [if_neg hheap, if_neg hdiff]

end Store

namespace StoreM

variable {s s' : Store}

/-- Asking a question succeeds exactly if it has an answer, and changes nothing. -/
theorem ask_eq_ok_iff {α : Type} {question : Store → Except Fault α} {a : α} :
    ask question s = .ok a s' ↔ question s = .ok a ∧ s = s' := by
  unfold ask
  cases question s <;> simp

/-- Asking a question fails exactly if it has no answer, and changes nothing. -/
theorem ask_eq_error_iff {α : Type} {question : Store → Except Fault α} {e : Fault} :
    ask question s = .error e s' ↔ question s = .error e ∧ s = s' := by
  unfold ask
  cases question s <;> simp

/-- What follows an answered question gets the answer. -/
theorem ask_bind_of_ok {α β : Type} {question : Store → Except Fault α} {f : α → StoreM β} {a : α}
    (h : question s = .ok a) : (ask question >>= f) s = f a s :=
  Action.bind_of_ok (ask_eq_ok_iff.mpr ⟨h, rfl⟩)

/-- What follows an unanswered question is not run. -/
theorem ask_bind_of_error {α β : Type} {question : Store → Except Fault α} {f : α → StoreM β}
    {e : Fault} (h : question s = .error e) : (ask question >>= f) s = .error e s :=
  Action.bind_of_error (ask_eq_error_iff.mpr ⟨h, rfl⟩)

/-- Replacing a cell succeeds exactly if there is one. -/
theorem replace_eq_ok_iff {slot : Slot} {new : Cell} :
    replace slot new s = .ok () s' ↔ (∃ c, s.cell slot = .ok c) ∧ s' = s.setCell slot new := by
  unfold replace
  simp only [Action.bind_eq_ok_iff, ask_eq_ok_iff]
  constructor
  · rintro ⟨c, s₁, ⟨hc, rfl⟩, hset⟩
    cases hset
    exact ⟨⟨c, hc⟩, rfl⟩
  · rintro ⟨⟨c, hc⟩, rfl⟩
    exact ⟨c, s, ⟨hc, rfl⟩, rfl⟩

/-- Replacing a cell that is there succeeds. -/
theorem replace_of_cell {slot : Slot} {c : Cell} (hc : s.cell slot = .ok c) (new : Cell) :
    replace slot new s = .ok () (s.setCell slot new) :=
  replace_eq_ok_iff.mpr ⟨⟨c, hc⟩, rfl⟩

end StoreM

end SlotMachine
