import SlotMachine.Proofs.Store.Elements
import SlotMachine.Proofs.Store.Writing
import Mathlib.Tactic.Common

/-!
# Growing arrays

Reaching an element changes array storage in three ways at most: it gets more fresh cells, its count
rises, and the element is given its type if it has none. An element for which there is no cell yet
is taken for a fresh one; seen so, growing changes no element at all.
-/

namespace SlotMachine

/-- How many elements array storage has room for once an element count was asked for. -/
def roomAfter (maxLen room wanted : Nat) : Nat :=
  if room < wanted then grownCapacity maxLen wanted else room

/-- Making room gives the storage one cell more than elements. -/
theorem size_withRoom {maxLen room wanted : Nat} {cells : Array Cell} (fresh : Cell)
    (hsize : cells.size = room + 1) :
    (withRoom maxLen fresh wanted cells).size = roomAfter maxLen room wanted + 1 := by
  unfold withRoom roomAfter
  by_cases hshort : room < wanted
  · rw [if_pos (by omega), if_pos hshort, size_resizeCells]
  · rw [if_neg (by omega), if_neg hshort, hsize]

/-- Storage that has grown shows the higher of both counts, and no element differs from what it was,
taking a missing one for a fresh one. -/
theorem getElem?_grown {maxLen room count wanted : Nat} {cells : Array Cell} (fresh : Cell)
    (hsize : cells.size = room + 1) (hheader : cells[0]? = some (arrayHeader count))
    (hroom : room ≤ maxLen) (hwanted : room < wanted → wanted ≤ maxLen) :
    (withCount count wanted (withRoom maxLen fresh wanted cells))[0]? =
        some (arrayHeader (max count wanted)) ∧
      ∀ q, (withCount count wanted (withRoom maxLen fresh wanted cells))[q + 1]?.getD fresh =
        cells[q + 1]?.getD fresh := by
  obtain ⟨k, hwith, -, -⟩ := exists_withRoom_eq fresh (by omega) (by omega)
    (fun hshort => hwanted (by omega) : cells.size ≤ wanted → wanted ≤ maxLen)
  rw [hwith]
  constructor
  · rw [getElem?_withCount, Array.getElem?_append_left (by omega), hheader]
    by_cases hmore : count < wanted
    · rw [if_pos ⟨rfl, hmore⟩, Nat.max_eq_right (by omega)]
      rfl
    · rw [if_neg (by omega), Nat.max_eq_left (by omega)]
  · intro q
    rw [getElem?_withCount, if_neg (by omega)]
    by_cases hq : q + 1 < cells.size
    · rw [Array.getElem?_append_left hq]
    · have hnone : cells[q + 1]? = none := Array.getElem?_eq_none (by omega)
      rw [hnone, Array.getElem?_append_right (by omega), Array.getElem?_replicate]
      split <;> rfl

namespace Store

variable {s s' : Store} {storage : HeapId} {heap : Heap} {element : ElementKind}
  {count room p q : Nat}

/-- A store has array storage: a header with the count, and cells for as many elements, but for no
more than are allowed. -/
structure HasArray (s : Store) (storage : HeapId) (element : ElementKind) (count room : Nat) :
    Prop where
  /-- The heap is array storage for such elements. -/
  kind : s.kind? storage = some (.array element)
  /-- It has room for so many elements behind the header. -/
  size : s.heapSize storage = .ok (room + 1)
  /-- The header holds the count. -/
  header : s.cell ⟨storage, 0⟩ = .ok (arrayHeader count)
  /-- There is a cell for every element that counts. -/
  count_le : count ≤ room
  /-- There is no cell for an element beyond the limit. -/
  room_le : room ≤ s.maxLen
  /-- The count fits into the header. -/
  count_lt : count < 2 ^ 64

/-- How many elements array storage has room for. -/
def capacity (s : Store) (storage : HeapId) : Nat :=
  match s.heapSize storage with
  | .ok size => size - 1
  | .error _ => 0

/-- The cell of an element, which is a fresh one as long as the storage has none for it. -/
def elementCell (s : Store) (storage : HeapId) (element : ElementKind) (position : Nat) : Cell :=
  match s.cell ⟨storage, position + 1⟩ with
  | .ok c => c
  | .error _ => element.fresh

/-- The cell of an element lies behind the header. -/
theorem elementCell_eq (hheap : s.heaps[storage]? = some heap) (q : Nat) :
    s.elementCell storage element q = heap.cells[q + 1]?.getD element.fresh := by
  rw [elementCell, cell, heap_eq_ok_iff.mpr hheap]
  cases hc : heap.cells[q + 1]? <;> simp only [hc] <;> rfl

namespace HasArray

/-- The heap behind array storage. -/
theorem exists_heap (h : s.HasArray storage element count room) :
    ∃ heap, s.heaps[storage]? = some heap ∧ heap.kind = .array element ∧
      heap.cells.size = room + 1 ∧ heap.cells[0]? = some (arrayHeader count) := by
  obtain ⟨heap, hheap, hkind⟩ := kind?_eq_some_iff.mp h.kind
  obtain ⟨sized, hsized, hsize⟩ := heapSize_eq_ok_iff.mp h.size
  obtain ⟨headed, hheaded, hheader⟩ := cell_eq_ok_iff.mp h.header
  obtain rfl : heap = sized := by simpa [hheap] using hsized
  obtain rfl : heap = headed := by simpa [hheap] using hheaded
  exact ⟨heap, hheap, hkind, hsize, hheader⟩

/-- The count and the kind of the elements can be asked for. -/
theorem questions (h : s.HasArray storage element count room) :
    s.elementCount storage = .ok count ∧ s.elementKind storage = .ok element := by
  obtain ⟨heap, hheap, hkind, -, hheader⟩ := h.exists_heap
  have hcount : (UInt64.ofNat count).toNat = count := by
    rw [UInt64.toNat_ofNat', Nat.mod_eq_of_lt h.count_lt]
  obtain ⟨hasked, hkind⟩ := StoreM.array_questions hheap hkind hheader
  exact ⟨by rw [hasked, hcount], hkind⟩

/-- The room behind the header. -/
theorem capacity_eq (h : s.HasArray storage element count room) : s.capacity storage = room := by
  rw [capacity, h.size]
  rfl

/-- There is a cell for every element that the storage has room for. -/
theorem cell_of_lt (h : s.HasArray storage element count room) (hq : q < room) :
    s.cell ⟨storage, q + 1⟩ = .ok (s.elementCell storage element q) := by
  obtain ⟨heap, hheap, -, hsize, -⟩ := h.exists_heap
  have hbound : q + 1 < heap.cells.size := by omega
  rw [cell_eq_ok_iff, elementCell_eq hheap, Array.getElem?_eq_getElem hbound]
  exact ⟨heap, hheap, Array.getElem?_eq_getElem hbound⟩

/-- An element beyond the room has no cell and counts as fresh. -/
theorem elementCell_of_le (h : s.HasArray storage element count room) (hq : room ≤ q) :
    s.elementCell storage element q = element.fresh := by
  obtain ⟨heap, hheap, -, hsize, -⟩ := h.exists_heap
  rw [elementCell_eq hheap, Array.getElem?_eq_none (by omega)]
  rfl

/-- Growing the storage raises the count and adds fresh cells; no element's cell changes. -/
theorem grow (h : s.HasArray storage element count room) (hp : p < count ∨ p < s.maxLen)
    (hsmall : p + 1 < 2 ^ 64) :
    let s' := s.modifyHeap storage
      (withCount count (p + 1) ∘ withRoom s.maxLen element.fresh (p + 1))
    s'.HasArray storage element (max count (p + 1)) (roomAfter s.maxLen room (p + 1)) ∧
      p < roomAfter s.maxLen room (p + 1) ∧
      (∀ q, s'.elementCell storage element q = s.elementCell storage element q) ∧
      (∀ x, x.heap ≠ storage → s'.cell x = s.cell x) ∧ s'.maxLen = s.maxLen := by
  intro s'
  have hcount := h.count_le
  have hroom := h.room_le
  have hcountSmall := h.count_lt
  obtain ⟨heap, hheap, hkind, hsize, hheader⟩ := h.exists_heap
  have hwanted : room < p + 1 → p + 1 ≤ s.maxLen := by omega
  have hafter : p < roomAfter s.maxLen room (p + 1) ∧ room ≤ roomAfter s.maxLen room (p + 1) ∧
      roomAfter s.maxLen room (p + 1) ≤ s.maxLen := by
    unfold roomAfter grownCapacity
    split <;> omega
  have hsized : (withRoom s.maxLen element.fresh (p + 1) heap.cells).size =
      roomAfter s.maxLen room (p + 1) + 1 := size_withRoom element.fresh hsize
  obtain ⟨hheader', hcells⟩ := getElem?_grown element.fresh hsize hheader hroom hwanted
  have hheap' := heaps_modifyHeap_self hheap
    (withCount count (p + 1) ∘ withRoom s.maxLen element.fresh (p + 1))
  refine ⟨⟨?_, ?_, ?_, by omega, hafter.2.2, by omega⟩, hafter.1, fun q => ?_, fun x hx => ?_, rfl⟩
  · rw [kind?_modifyHeap, h.kind]
  · exact heapSize_eq_ok_iff.mpr ⟨_, hheap', (size_withCount _ _ _).trans hsized⟩
  · exact cell_eq_ok_iff.mpr ⟨_, hheap', hheader'⟩
  · rw [elementCell_eq hheap', elementCell_eq hheap]
    exact hcells q
  · rw [cell, Store.heap, heaps_modifyHeap, if_neg hx, cell, Store.heap]

/-- Changing the cell of one element leaves the array what it was. -/
theorem of_differsOnlyAt (h : s.HasArray storage element count room)
    (hdiffers : s.DiffersOnlyAt s' ⟨storage, q + 1⟩) : s'.HasArray storage element count room where
  kind := (hdiffers.kind_eq storage).trans h.kind
  size := (hdiffers.size_eq storage).trans h.size
  header := (hdiffers.cell_other _ (by simp)).trans h.header
  count_le := h.count_le
  room_le := hdiffers.maxLen_eq ▸ h.room_le
  count_lt := h.count_lt

end HasArray

/-- Changing the cell of one element leaves the cells of the others alone. -/
theorem DiffersOnlyAt.elementCell_eq (hdiffers : s.DiffersOnlyAt s' ⟨storage, p + 1⟩)
    (hq : q ≠ p) : s'.elementCell storage element q = s.elementCell storage element q := by
  unfold elementCell
  rw [hdiffers.cell_other _ (by simpa using hq)]

end Store

namespace ArrayHandle

variable {storage : HeapId} {offset index : Int64} {p : Nat}

/-- A position is the sum of offset and index, if that is not negative and fits into an index. -/
theorem position_eq_ok (hp : offset.toInt + index.toInt = p) (hsmall : p < 2 ^ 63) :
    position ⟨storage, offset⟩ index = .ok p := by
  have hmax : Int64.maxValue.toInt = 9223372036854775807 := by decide
  unfold position
  dsimp only
  rw [if_pos (by omega), hp, Int.toNat_natCast]

/-- Any other sum is refused. -/
theorem position_eq_error
    (hp : offset.toInt + index.toInt < 0 ∨ 2 ^ 63 ≤ offset.toInt + index.toInt) :
    position ⟨storage, offset⟩ index = .error (.invalidIndex index) := by
  have hmax : Int64.maxValue.toInt = 9223372036854775807 := by decide
  unfold position
  dsimp only
  rw [if_neg (by omega)]

end ArrayHandle

/-- What reaching the element at a position makes of array storage. -/
structure Store.ReachedAt (s s' : Store) (storage : HeapId) (element : ElementKind)
    (count room p : Nat) : Prop where
  /-- The element counts, and there is room for it. -/
  array : s'.HasArray storage element (max count (p + 1)) (roomAfter s.maxLen room (p + 1))
  /-- The other elements are as they were, fresh ones if there was no cell for them. -/
  other : ∀ q, q ≠ p → s'.elementCell storage element q = s.elementCell storage element q
  /-- The element itself has a type, if there is one to be given. -/
  cell : s'.elementCell storage element p =
    if (s.elementCell storage element p).isEstablished then s.elementCell storage element p
    else element.established
  /-- Other heaps are left alone. -/
  frame : ∀ x, x.heap ≠ storage → s'.cell x = s.cell x
  /-- The limit stays. -/
  maxLen_eq : s'.maxLen = s.maxLen

/-- Reaching an element takes no room away. -/
theorem Store.ReachedAt.room_le {s s' : Store} {storage : HeapId} {element : ElementKind}
    {count room p : Nat} (h : s.ReachedAt s' storage element count room p) :
    room ≤ roomAfter s.maxLen room (p + 1) := by
  have hcount := h.array.count_le
  by_cases hshort : room < p + 1
  · omega
  · rw [roomAfter, if_neg hshort]

namespace Store.HasArray

open StoreM

variable {s : Store} {storage : HeapId} {a : ArrayHandle} {index : Int64} {element : ElementKind}
  {count room p : Nat}

/-- An element beyond both the count and the limit is not reached. -/
theorem reach_of_le (h : s.HasArray a.storage element count room)
    (hposition : a.position index = .ok p) (hcount : count ≤ p) (hmax : s.maxLen ≤ p) :
    reachElement a index s = .error (.allocationLimit .array (p + 1) s.maxLen) s :=
  reachElement_of_le hposition h.questions.1 hcount hmax

/-- An element that has a cell is given its type if it has none. -/
theorem establish (h : s.HasArray storage element count room) (hp : p < room) :
    ∃ s', StoreM.establish element ⟨storage, p + 1⟩ s =
        .ok (if (s.elementCell storage element p).isEstablished then .ready ⟨storage, p + 1⟩
          else element.reached ⟨storage, p + 1⟩) s' ∧
      s.DiffersOnlyAt s' ⟨storage, p + 1⟩ ∧
      s'.elementCell storage element p =
        if (s.elementCell storage element p).isEstablished then s.elementCell storage element p
        else element.established := by
  have hcell := h.cell_of_lt hp
  rw [establish_of_cell hcell]
  by_cases hestablished : (s.elementCell storage element p).isEstablished = true
  · rw [if_pos hestablished, if_pos hestablished, if_pos hestablished]
    exact ⟨s, rfl, DiffersOnlyAt.refl s _, rfl⟩
  · rw [if_neg hestablished, if_neg hestablished, if_neg hestablished]
    have hset := (cell_setCell hcell element.established).trans (if_pos rfl)
    refine ⟨_, rfl, differsOnlyAt_setCell hcell element.established, ?_⟩
    rw [elementCell, hset]

/-- Any other element is: the storage is grown if need be, and an element without a type gets it. -/
theorem reach (h : s.HasArray a.storage element count room)
    (hposition : a.position index = .ok p) (hp : p < count ∨ p < s.maxLen) :
    ∃ s', reachElement a index s =
        .ok (if (s.elementCell a.storage element p).isEstablished then .ready ⟨a.storage, p + 1⟩
          else element.reached ⟨a.storage, p + 1⟩) s' ∧
      s.ReachedAt s' a.storage element count room p := by
  obtain ⟨harray, hroom, hkept, hframe, hmax⟩ := h.grow hp (position_lt hposition)
  obtain ⟨s', hestablish, hdiffers, hcell⟩ := harray.establish hroom
  rw [hkept] at hestablish hcell
  refine ⟨s', ?_, harray.of_differsOnlyAt hdiffers, fun q hq => ?_, hcell, fun x hx => ?_,
    hdiffers.maxLen_eq.trans hmax⟩
  · obtain ⟨heap, hheap, hkind, -, -⟩ := h.exists_heap
    rw [reachElement_eq hposition h.questions.1 (by omega) hheap hkind]
    exact hestablish
  · rw [hdiffers.elementCell_eq hq, hkept]
  · have hother : x ≠ ⟨a.storage, p + 1⟩ := fun heq => hx (by rw [heq])
    rw [hdiffers.cell_other x hother, hframe x hx]

end Store.HasArray

/-- A new array counts its elements, all of them fresh, and has room for no more. -/
theorem StoreM.allocArray_eq_ok {s s' : Store} {a : ArrayHandle} {element : ElementKind} {len : Nat}
    (hlen : len < 2 ^ 64) (h : allocArray element len s = .ok a s') :
    s'.HasArray a.storage element len len ∧
      (∀ q, s'.elementCell a.storage element q = element.fresh) ∧
      (∀ x, x.heap ≠ a.storage → s'.cell x = s.cell x) ∧ s'.maxLen = s.maxLen := by
  obtain ⟨_, s₀, hcheck, hstored⟩ := Action.bind_eq_ok_iff.mp h
  obtain ⟨hcount, rfl⟩ := ask_eq_ok_iff.mp hcheck
  have hle : len ≤ s.maxLen := by
    by_contra hover
    rw [Store.checkCount, if_pos (by omega)] at hcount
    cases hcount
  generalize hcells : #[arrayHeader len] ++ Array.replicate len element.fresh = cells at hstored
  obtain ⟨rfl, rfl⟩ : (⟨s.heaps.size, 0⟩ : ArrayHandle) = a ∧
      (s.alloc (.array element) cells).2 = s' := by
    cases hstored
    exact ⟨rfl, rfl⟩
  have hheap : (s.alloc (.array element) cells).2.heaps[s.heaps.size]? =
      some ⟨.array element, cells⟩ := by
    rw [Store.heaps_alloc, if_pos rfl]
  have hsize : cells.size = len + 1 := by
    rw [← hcells, Array.size_append, Array.size_replicate]
    exact Nat.add_comm 1 len
  have hheader : cells[0]? = some (arrayHeader len) := by
    rw [← hcells, Array.getElem?_append_left (by simp)]
    rfl
  have hfresh : ∀ q, cells[q + 1]?.getD element.fresh = element.fresh := by
    intro q
    rw [← hcells, Array.getElem?_append_right (by simp), Array.getElem?_replicate]
    split <;> rfl
  refine ⟨⟨?_, ?_, ?_, le_rfl, hle, hlen⟩, fun q => ?_, fun x hx => ?_, rfl⟩
  · exact Store.kind?_eq_some_iff.mpr ⟨_, hheap, rfl⟩
  · exact Store.heapSize_eq_ok_iff.mpr ⟨_, hheap, hsize⟩
  · exact Store.cell_eq_ok_iff.mpr ⟨_, hheap, hheader⟩
  · rw [Store.elementCell_eq hheap]
    exact hfresh q
  · rw [Store.cell, Store.heap, Store.heaps_alloc, if_neg hx, Store.cell, Store.heap]

end SlotMachine
