import SlotMachine.Proofs.Store.Access
import Mathlib.Tactic.Common

/-!
# Reaching array elements

In a sound store the count in the header of array storage never exceeds the cells behind it. So an
element up to the count always has a cell, an element beyond it is checked against the limit before
the storage grows, and growing only ever adds cells.
-/

namespace SlotMachine

/-- Bring array storage to where it has a cell for `wanted` elements. -/
def withRoom (maxLen : Nat) (fresh : Cell) (wanted : Nat) (cells : Array Cell) : Array Cell :=
  if cells.size - 1 < wanted then resizeCells cells (grownCapacity maxLen wanted + 1) fresh
  else cells

/-- Raise the element count in the header. -/
def withCount (len wanted : Nat) (cells : Array Cell) : Array Cell :=
  if len < wanted then cells.modify 0 fun c => { c with value := .uint64 (UInt64.ofNat wanted) }
  else cells

/-- Where the element is. -/
def Element.slot : Element → Slot
  | ready slot => slot
  | unbuilt slot _ => slot

/-- A resized array has the size asked for. -/
theorem size_resizeCells (cells : Array Cell) (size : Nat) (fresh : Cell) :
    (resizeCells cells size fresh).size = size := by
  unfold resizeCells
  split
  · simp only [Array.size_append, Array.size_replicate]
    omega
  · simp only [Array.size_extract]
    omega

/-- Making room only adds fresh cells, as many as are needed and no more than are allowed. -/
theorem exists_withRoom_eq {maxLen wanted : Nat} {cells : Array Cell} (fresh : Cell)
    (hpos : 0 < cells.size) (hsize : cells.size ≤ maxLen + 1)
    (hwanted : cells.size ≤ wanted → wanted ≤ maxLen) :
    ∃ k, withRoom maxLen fresh wanted cells = cells ++ Array.replicate k fresh ∧
      wanted < cells.size + k ∧ cells.size + k ≤ maxLen + 1 := by
  unfold withRoom
  split
  · rename_i hshort
    have hle := hwanted (by omega)
    have hcapacity : wanted ≤ grownCapacity maxLen wanted ∧ grownCapacity maxLen wanted ≤ maxLen := by
      unfold grownCapacity
      omega
    refine ⟨grownCapacity maxLen wanted + 1 - cells.size, ?_, by omega, by omega⟩
    rw [resizeCells, if_pos (by omega)]
  · refine ⟨0, by simp, by omega, by omega⟩

/-- Raising the count changes nothing but the value of the header. -/
theorem getElem?_withCount (len wanted : Nat) (cells : Array Cell) (index : Nat) :
    (withCount len wanted cells)[index]? =
      if index = 0 ∧ len < wanted then
        cells[0]?.map fun c => { c with value := .uint64 (UInt64.ofNat wanted) }
      else cells[index]? := by
  unfold withCount
  by_cases hlt : len < wanted
  · by_cases hzero : index = 0
    · simp [hlt, hzero, Array.getElem?_modify]
    · simp [hlt, hzero, Array.getElem?_modify, Ne.symm hzero]
  · simp [hlt]

/-- Raising the count adds no cell. -/
@[simp]
theorem size_withCount (len wanted : Nat) (cells : Array Cell) :
    (withCount len wanted cells).size = cells.size := by
  unfold withCount
  split <;> simp

namespace Store

variable {s : Store} {known : String → Prop} {storage : HeapId} {h : Heap} {element : ElementKind}

/-- The header of array storage may stand in any store. -/
theorem admits_header (count : UInt64) : s.Admits ⟨[Tag.uint64], true, .uint64 count⟩ :=
  ⟨by simp [Cell.Fits, Cell.tag, Cell.outer, Value.homes, Value.tag],
    fun _ => show Tag.uint64 ≠ Tag.untyped by decide, trivial⟩

/-- A new element may stand in any store. -/
theorem admits_fresh (hfits : element.Fits) : s.Admits element.fresh := by
  cases element with
  | untyped => exact admits_free
  | tagged tags => exact admits_declared hfits
  | instances cls => exact admits_blank

/-- An element that is given its type may stand in any store. -/
theorem admits_established (hfits : element.Fits) : s.Admits element.established := by
  cases element with
  | untyped => exact admits_free
  | tagged tags => exact admits_declared hfits
  | instances cls => exact admits_declared (by decide)

/-- Growing sound array storage, within the limit, adds cells up to the element wanted and leaves the
store sound. -/
theorem Sound.grown (hs : s.Sound known) (hh : s.heaps[storage]? = some h)
    (hkind : h.kind = .array element) {count : UInt64} {wanted : Nat}
    (hheader : h.cells[0]? = some ⟨[Tag.uint64], true, .uint64 count⟩)
    (hwanted : count.toNat < wanted → wanted ≤ s.maxLen) (hsmall : wanted < 2 ^ 64) :
    let grow := withCount count.toNat wanted ∘ withRoom s.maxLen element.fresh wanted
    (s.modifyHeap storage grow).Sound known ∧ s.Evolves (s.modifyHeap storage grow) ∧
      wanted < (grow h.cells).size := by
  intro grow
  have hshaped := hs.shaped hh
  simp only [Heap.Shaped, hkind] at hshaped
  obtain ⟨hfits, count', hheader', hcount, hsize⟩ := hshaped
  obtain rfl : count = count' := by simpa [hheader] using hheader'
  obtain ⟨k, hroom, hlt, hle⟩ := exists_withRoom_eq element.fresh (by omega) hsize
    fun hshort => hwanted (by omega)
  have hgrow : grow h.cells =
      withCount count.toNat wanted (h.cells ++ Array.replicate k element.fresh) := by
    simp only [grow, Function.comp, hroom]
  have hkeep : ∀ (index : Nat) (c : Cell), h.cells[index]? = some c →
      (h.cells ++ Array.replicate k element.fresh)[index]? = some c := by
    intro index c hc
    rw [Array.getElem?_append_left (Array.getElem?_eq_some_iff.mp hc).1, hc]
  refine ⟨hs.modifyHeap hh ?_ ?_, evolves_modifyHeap hh ?_ ?_ ?_, ?_⟩
  · rw [hgrow]
    simp only [Heap.Shaped, hkind, getElem?_withCount, hkeep 0 _ hheader, size_withCount,
      Array.size_append, Array.size_replicate]
    refine ⟨hfits, ?_⟩
    by_cases hmore : count.toNat < wanted
    · refine ⟨UInt64.ofNat wanted, by simp [hmore], ?_, hle⟩
      rw [UInt64.toNat_ofNat', Nat.mod_eq_of_lt hsmall]
      exact hlt
    · exact ⟨count, by simp [hmore], by omega, hle⟩
  · intro c hc
    rw [hgrow] at hc
    obtain ⟨index, hc⟩ := Array.getElem?_of_mem hc
    rw [getElem?_withCount] at hc
    split at hc
    · rw [hkeep 0 _ hheader, Option.map_some, Option.some.injEq] at hc
      rw [← hc]
      exact admits_header _
    · rcases Array.mem_append.mp (Array.mem_of_getElem? hc) with hold | hnew
      · exact hs.admitted hh c hold
      · rw [Array.eq_of_mem_replicate hnew]
        exact admits_fresh hfits
  · rw [hgrow, size_withCount, Array.size_append]
    omega
  · intro hobject
    rw [hkind] at hobject
    cases hobject
  · intro index c hc hfixed _
    rw [hgrow, getElem?_withCount]
    split
    · rename_i hzero
      rw [hkeep 0 _ hheader]
      rw [hzero.1, hheader, Option.some.injEq] at hc
      exact ⟨_, rfl, by rw [← hc], rfl⟩
    · exact ⟨c, hkeep index c hc, rfl, hfixed⟩
  · rw [hgrow, size_withCount, Array.size_append, Array.size_replicate]
    exact hlt

/-- The kind of the elements is that of their heap. -/
theorem elementKind_eq_ok_iff :
    s.elementKind storage = .ok element ↔ s.kind? storage = some (.array element) := by
  rw [kind?_eq_some_iff, elementKind]
  cases hheap : s.heap storage with
  | error e =>
    have hmissing : ∀ h, s.heaps[storage]? ≠ some h := fun h hh => by
      rw [heap_eq_ok_iff.mpr hh] at hheap
      cases hheap
    simp [hmissing]
  | ok h =>
    cases hkind : h.kind <;> simp [heap_eq_ok_iff.mp hheap, hkind]

/-- A cell that is there is the one that is expected. -/
theorem expectedCell_of_cell {slot : Slot} {c : Cell} (hc : s.cell slot = .ok c) :
    s.expectedCell slot = .ok c := by
  obtain ⟨h, hh, hcell⟩ := cell_eq_ok_iff.mp hc
  rw [expectedCell, heap_eq_ok_iff.mpr hh]
  simp only [hcell]

/-- Looking for an element finds it exactly below the count. -/
theorem element?_eq {a : ArrayHandle} {index : Int64} {position len : Nat}
    (hposition : a.position index = .ok position) (hlen : s.elementCount a.storage = .ok len) :
    s.element? a index = .ok (if position < len then some ⟨a.storage, position + 1⟩ else none) := by
  unfold element?
  rw [hposition]
  change ((s.elementCount a.storage).bind _) = _
  rw [hlen]
  change Except.ok _ = _
  by_cases hlt : position < len
  · rw [if_pos hlt, if_neg (by omega)]
  · rw [if_neg hlt, if_pos (by omega)]

end Store

namespace StoreM

open Store

variable {s : Store} {known : String → Prop} {storage : HeapId} {h : Heap}

/-- Growing array storage is one change of its heap. -/
theorem growArray_eq (hh : s.heaps[storage]? = some h) (element : ElementKind) (len wanted : Nat) :
    growArray storage element len wanted s =
      .ok () (s.modifyHeap storage
        (withCount len wanted ∘ withRoom s.maxLen element.fresh wanted)) := by
  have hsize : s.heapSize storage = .ok h.cells.size := heapSize_eq_ok_iff.mpr ⟨h, hh, rfl⟩
  unfold growArray
  rw [ask_bind_of_ok hsize]
  dsimp only
  change (ite _ _ _ : StoreM Unit) s = _
  by_cases hroom : h.cells.size - 1 < wanted
  · rw [if_pos hroom]
    change (ite _ _ _ : StoreM Unit) (s.modifyHeap storage _) = _
    by_cases hcount : len < wanted
    · rw [if_pos hcount]
      change EStateM.Result.ok () ((s.modifyHeap storage _).modifyHeap storage _) = _
      rw [modifyHeap_modifyHeap]
      exact congrArg _ (modifyHeap_congr hh (by simp [withCount, withRoom, hcount, hroom]))
    · rw [if_neg hcount]
      exact congrArg _ (modifyHeap_congr hh (by simp [withCount, withRoom, hcount, hroom]))
  · rw [if_neg hroom]
    by_cases hcount : len < wanted
    · rw [if_pos hcount]
      exact congrArg _ (modifyHeap_congr hh (by simp [withCount, withRoom, hcount, hroom]))
    · rw [if_neg hcount]
      exact congrArg _ (modifyHeap_eq_self hh (by simp [withCount, withRoom, hcount, hroom])).symm

/-- An element beyond both the count and the limit is not reached. -/
theorem reachElement_of_le {a : ArrayHandle} {index : Int64} {p count : Nat}
    (hposition : a.position index = .ok p) (hcount : s.elementCount a.storage = .ok count)
    (hover : count ≤ p) (hmax : s.maxLen ≤ p) :
    reachElement a index s = .error (.allocationLimit .array (p + 1) s.maxLen) s := by
  unfold reachElement
  rw [ask_bind_of_ok hposition]
  dsimp only
  rw [ask_bind_of_ok hcount, if_pos (by omega)]
  exact ask_bind_of_error (by rw [checkCount, if_pos (by omega)])

/-- An element that counts or is allowed for is looked for by the kind of the elements. -/
theorem reachElement_allowed {a : ArrayHandle} {index : Int64} {p count : Nat}
    (hposition : a.position index = .ok p) (hcount : s.elementCount a.storage = .ok count)
    (hlimit : count ≤ p → p < s.maxLen) :
    reachElement a index s = (do
      let element ← ask fun s => s.elementKind a.storage
      growArray a.storage element count (p + 1)
      establish element ⟨a.storage, p + 1⟩ : StoreM Element) s := by
  unfold reachElement
  rw [ask_bind_of_ok hposition]
  dsimp only
  rw [ask_bind_of_ok hcount]
  by_cases hmore : count < p + 1
  · have hcheck : s.checkCount (p + 1) = .ok () := by
      have hle := hlimit (by omega)
      rw [checkCount, if_neg (by omega)]
    rw [if_pos hmore, ask_bind_of_ok hcheck]
  · rw [if_neg hmore]

/-- Such an element is reached by growing the storage and giving the element its type. -/
theorem reachElement_eq {a : ArrayHandle} {index : Int64} {p count : Nat} {element : ElementKind}
    (hposition : a.position index = .ok p) (hcount : s.elementCount a.storage = .ok count)
    (hlimit : count ≤ p → p < s.maxLen) (hh : s.heaps[a.storage]? = some h)
    (hkind : h.kind = .array element) :
    reachElement a index s =
      establish element ⟨a.storage, p + 1⟩ (s.modifyHeap a.storage
        (withCount count (p + 1) ∘ withRoom s.maxLen element.fresh (p + 1))) := by
  have helement : s.elementKind a.storage = .ok element :=
    elementKind_eq_ok_iff.mpr (kind?_eq_some_iff.mpr ⟨h, hh, hkind⟩)
  have hgrow := growArray_eq hh element count (p + 1)
  rw [reachElement_allowed hposition hcount hlimit, ask_bind_of_ok helement,
    Action.bind_of_ok hgrow]

/-- An element that counts and has a cell is reached without growing the storage. -/
theorem reachElement_of_lt {a : ArrayHandle} {index : Int64} {p count : Nat} {element : ElementKind}
    (hposition : a.position index = .ok p) (hcount : s.elementCount a.storage = .ok count)
    (hp : p < count) (hh : s.heaps[a.storage]? = some h) (hkind : h.kind = .array element)
    (hroom : p + 1 < h.cells.size) :
    reachElement a index s = establish element ⟨a.storage, p + 1⟩ s := by
  have hlong : ¬ h.cells.size - 1 < p + 1 := by omega
  have hcounted : ¬ count < p + 1 := by omega
  rw [reachElement_eq hposition hcount (by omega) hh hkind, modifyHeap_eq_self hh]
  simp [withCount, withRoom, hlong, hcounted]

/-- A position is not negative and fits into 64 bits. -/
theorem position_lt {a : ArrayHandle} {index : Int64} {position : Nat}
    (h : a.position index = .ok position) : position + 1 < 2 ^ 64 := by
  unfold ArrayHandle.position at h
  dsimp only at h
  split at h
  · rename_i hrange
    have hmax : Int64.maxValue.toInt = 9223372036854775807 := by decide
    cases h
    omega
  · cases h

/-- How reaching an element of array storage can end. It fails without a change when the index lies
before the first element or the array would become too long; otherwise the element lies behind the
header inside the storage. -/
def Reaches (known : String → Prop) (s : Store) (a : ArrayHandle) (index : Int64) : Prop :=
  match reachElement a index s with
  | .error e s' => s' = s ∧ (e = .invalidIndex index ∨
      ∃ requested, e = .allocationLimit .array requested s.maxLen ∧ s.maxLen < requested)
  | .ok element s' => s'.Sound known ∧ s.Evolves s' ∧ element.slot.heap = a.storage ∧
      0 < element.slot.index ∧ ∃ c, s'.cell element.slot = .ok c

/-- An element that is there gets a type if it has none. -/
theorem establish_of_cell {slot : Slot} {c : Cell} (hc : s.cell slot = .ok c)
    (element : ElementKind) :
    establish element slot s =
      if c.isEstablished then .ok (.ready slot) s
      else .ok (element.reached slot) (s.setCell slot element.established) := by
  unfold establish
  rw [ask_bind_of_ok (expectedCell_of_cell hc)]
  by_cases hestablished : c.isEstablished = true
  · rw [if_pos hestablished, if_pos hestablished]
    rfl
  · rw [if_neg hestablished, if_neg hestablished, Action.bind_of_ok (replace_of_cell hc _)]
    rfl

/-- In a sound store, giving an element a type leaves the store sound. -/
theorem establish_ok (hs : s.Sound known) {element : ElementKind} (hfits : element.Fits)
    {slot : Slot} {c : Cell} (hkind : s.kind? slot.heap = some (.array element))
    (hc : s.cell slot = .ok c) :
    ∃ reached s', establish element slot s = .ok reached s' ∧
      reached.slot = slot ∧ s'.Sound known ∧ s.Evolves s' ∧ ∃ c', s'.cell slot = .ok c' := by
  rw [establish_of_cell hc]
  by_cases hestablished : c.isEstablished = true
  · rw [if_pos hestablished]
    exact ⟨.ready slot, s, rfl, rfl, hs, Evolves.refl s, c, hc⟩
  · rw [if_neg hestablished]
    have hplain : c.fixed = false := by
      by_contra hfixed
      have htag := (hs.admits hc).typed (by simpa using hfixed)
      have htags : c.tags = [] := by simpa [Cell.isEstablished] using hestablished
      exact htag (by rw [Cell.tag, htags]; rfl)
    have haccepts : s.Accepts slot element.established := by
      refine ⟨admits_established hfits, fun hc' hfixed _ => ?_, fun hscratch => ?_⟩
      · cases hc.symm.trans hc'
        rw [hplain] at hfixed
        cases hfixed
      · rw [hkind] at hscratch
        cases hscratch
    refine ⟨element.reached slot, _, rfl, ?_, hs.setCell haccepts hc, haccepts.evolves hs hc, ?_⟩
    · cases element <;> rfl
    · exact ⟨_, (cell_setCell hc _).trans (if_pos rfl)⟩

/-- The element count and the element kind of sound array storage can be asked for. -/
theorem array_questions (hh : s.heaps[storage]? = some h) {element : ElementKind}
    (hkind : h.kind = .array element) {count : UInt64}
    (hheader : h.cells[0]? = some ⟨[Tag.uint64], true, .uint64 count⟩) :
    s.elementCount storage = .ok count.toNat ∧ s.elementKind storage = .ok element := by
  have hcell : s.cell ⟨storage, 0⟩ = .ok ⟨[Tag.uint64], true, .uint64 count⟩ :=
    cell_eq_ok_iff.mpr ⟨h, hh, hheader⟩
  constructor
  · rw [elementCount, hcell]
  · exact elementKind_eq_ok_iff.mpr (kind?_eq_some_iff.mpr ⟨h, hh, hkind⟩)

/-- In a sound store, an element of grown storage is there to be given its type. -/
theorem establish_grown (hs : s.Sound known) (hh : s.heaps[storage]? = some h)
    {element : ElementKind} (hkind : h.kind = .array element) (hfits : element.Fits)
    {count : UInt64} {wanted : Nat}
    (hheader : h.cells[0]? = some ⟨[Tag.uint64], true, .uint64 count⟩)
    (hwanted : count.toNat < wanted → wanted ≤ s.maxLen) (hsmall : wanted < 2 ^ 64) :
    ∃ reached s', establish element ⟨storage, wanted⟩ (s.modifyHeap storage
        (withCount count.toNat wanted ∘ withRoom s.maxLen element.fresh wanted)) =
        .ok reached s' ∧
      reached.slot = ⟨storage, wanted⟩ ∧ s'.Sound known ∧ s.Evolves s' ∧
      ∃ c, s'.cell ⟨storage, wanted⟩ = .ok c := by
  obtain ⟨hs₁, hev₁, hroom⟩ := hs.grown hh hkind hheader hwanted hsmall
  generalize withCount count.toNat wanted ∘ withRoom s.maxLen element.fresh wanted = grow
    at hs₁ hev₁ hroom ⊢
  have hheap := heaps_modifyHeap_self hh grow
  have hcell : (s.modifyHeap storage grow).cell ⟨storage, wanted⟩ = .ok (grow h.cells)[wanted] :=
    cell_eq_ok_iff.mpr ⟨_, hheap, Array.getElem?_eq_getElem hroom⟩
  have hkind₁ : (s.modifyHeap storage grow).kind? storage = some (.array element) :=
    kind?_eq_some_iff.mpr ⟨_, hheap, hkind⟩
  obtain ⟨reached, s', hok, hslot, hs', hev', hc'⟩ := establish_ok hs₁ hfits hkind₁ hcell
  exact ⟨reached, s', hok, hslot, hs', hev₁.trans hev', hc'⟩

/-- In a sound store, reaching an element of array storage ends in one of the expected ways. -/
theorem reaches_of_isArray (hs : s.Sound known) {a : ArrayHandle} (ha : s.IsArray a.storage)
    (index : Int64) : Reaches known s a index := by
  obtain ⟨h, element, count, hh, hkind, hfits, hheader, hcount, hsize⟩ := hs.array_header ha
  cases hposition : a.position index with
  | error e =>
    unfold Reaches reachElement
    rw [ask_bind_of_error hposition]
    refine ⟨rfl, .inl ?_⟩
    unfold ArrayHandle.position at hposition
    dsimp only at hposition
    split at hposition <;> cases hposition
    rfl
  | ok position =>
    have hlen := (array_questions hh hkind hheader).1
    by_cases hover : count.toNat ≤ position ∧ s.maxLen ≤ position
    · rw [Reaches, reachElement_of_le hposition hlen hover.1 hover.2]
      exact ⟨rfl, .inr ⟨position + 1, rfl, by omega⟩⟩
    · obtain ⟨reached, s', hok, hslot, hs', hev, hc⟩ := establish_grown hs hh hkind hfits hheader
        (fun hlt => by omega) (position_lt hposition)
      rw [Reaches, reachElement_eq hposition hlen (by omega) hh hkind, hok]
      exact ⟨hs', hev, by rw [hslot], by rw [hslot]; exact Nat.succ_pos _, by rw [hslot]; exact hc⟩

/-- Reaching an element of array storage, which is an exposed slot. -/
theorem keeps_reachElement (hs : s.Sound known) {a : ArrayHandle} (ha : s.IsArray a.storage)
    (index : Int64) :
    (discipline known).Keeps (reachElement a index) s fun element s' => s'.Exposed element.slot := by
  have hreaches := reaches_of_isArray hs ha index
  unfold Reaches at hreaches
  unfold Discipline.Keeps
  cases hreach : reachElement a index s with
  | error e s' =>
    rw [hreach] at hreaches
    rw [hreaches.1]
    exact ⟨hs, Evolves.refl s⟩
  | ok element s' =>
    rw [hreach] at hreaches
    obtain ⟨hs', hev, -, hpos, c, hc⟩ := hreaches
    obtain ⟨kind, hkind⟩ := exists_kind_of_cell hc
    exact ⟨hs', hev, kind, hkind, fun hzero => by omega⟩

/-- Allocating an array, whose handle comes out. -/
theorem keeps_allocArray (hs : s.Sound known) {element : ElementKind} (hfits : element.Fits)
    (len : Nat) :
    (discipline known).Keeps (allocArray element len) s fun a s' => s'.IsArray a.storage := by
  unfold allocArray
  refine keeps_ask_bind hs fun _ hcheck => ?_
  have hle : len ≤ s.maxLen := by
    by_contra hover
    rw [checkCount, if_pos (by omega)] at hcheck
    cases hcheck
  have hsize : (#[arrayHeader len] ++ Array.replicate len element.fresh).size = len + 1 := by
    rw [Array.size_append, Array.size_replicate]
    exact Nat.add_comm 1 len
  refine (keeps_alloc hs ?_ ?_).bind fun storage s' hs' _ hheap => ?_
  · refine ⟨hfits, UInt64.ofNat len, ?_, ?_, ?_⟩
    · simp [arrayHeader, Cell.declared, Cell.outer]
      decide
    · rw [UInt64.toNat_ofNat', hsize]
      exact Nat.lt_succ_of_le (Nat.mod_le _ _)
    · rw [hsize]
      omega
  · intro c hc
    rcases Array.mem_append.mp hc with hheader | hnew
    · obtain rfl := List.mem_singleton.mp (Array.mem_def.mp hheader)
      exact admits_header _
    · rw [Array.eq_of_mem_replicate hnew]
      exact admits_fresh hfits
  · exact Discipline.keeps_pure hs' ⟨element, kind?_eq_some_iff.mpr ⟨_, hheap, rfl⟩⟩

end StoreM

end SlotMachine
