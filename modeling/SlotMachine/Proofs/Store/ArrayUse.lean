import SlotMachine.Proofs.Store.Atomicity
import SlotMachine.Proofs.Store.Growth
import Mathlib.Tactic.Common

/-!
# Arrays in use

An array is used by reaching elements through handles with whatever offsets and by writing values to
the elements that were reached. Reaching an element does not change what any element holds. So after
any use the count says how far the array was reached, every element holds what was last written to
it, and an instance is asked for exactly when its element is reached for the first time.
-/

namespace SlotMachine

namespace ElementKind

/-- An element that is given its type holds what a fresh one holds. -/
theorem value_established (element : ElementKind) :
    element.established.value = element.fresh.value := by
  cases element <;> rfl

/-- Only where the elements have no type to be given does one without a type remain. -/
theorem established_eq_fresh {element : ElementKind}
    (h : element.established.isEstablished = false ∨ element.fresh.isEstablished = true) :
    element.established = element.fresh := by
  cases element with
  | untyped => rfl
  | tagged tags => rfl
  | instances cls => rcases h with h | h <;> cases h

/-- A fresh element without a type has no declared one. -/
theorem fixed_fresh {element : ElementKind} (h : element.fresh.isEstablished = false) :
    element.fresh.fixed = false := by
  cases element with
  | untyped => rfl
  | tagged tags =>
    obtain rfl : tags = [] := by simpa [fresh, Cell.isEstablished, Cell.declared] using h
    rfl
  | instances cls => rfl

/-- A fresh element is no bound reference. -/
theorem value_fresh_ne_ref (element : ElementKind) (target : Slot) :
    element.fresh.value ≠ .ref target := by
  cases element with
  | untyped => simp [fresh, Cell.free]
  | tagged tags =>
    simp only [fresh, Cell.declared, Value.zero]
    split_ifs <;> simp
  | instances cls => simp [fresh, Cell.blank]

end ElementKind

namespace Cell.Takes

variable {c c' : Cell} {v : Value}

/-- A cell that took a value that is no reference holds none. -/
theorem value_ne_ref (h : c.Takes v c') (hv : ∀ target, v ≠ .ref target) (target : Slot) :
    c'.value ≠ .ref target := by
  cases h with
  | undeclared _ => exact hv target
  | declared _ _ => exact hv target
  | converted _ _ _ hconvert =>
    rintro rfl
    exact Bool.false_ne_true (Value.tag_of_convert? hconvert).2

/-- A cell that took a value has a type, unless it was declared without one. -/
theorem isEstablished (h : c.Takes v c') (hc : c.isEstablished = false → c.fixed = false) :
    c'.isEstablished = true := by
  cases h with
  | undeclared _ => cases v <;> rfl
  | declared hfixed _ | converted hfixed _ _ _ =>
    by_contra hbare
    rw [hc (by simpa [Cell.isEstablished] using hbare)] at hfixed
    cases hfixed

end Cell.Takes

/-- What is done with an array. -/
inductive ArrayEvent where
  /-- Reach an element through a handle with some offset. -/
  | reach (offset index : Int64)
  /-- Write a value to a slot. -/
  | write (slot : Slot) (v : Value)
  deriving DecidableEq

/-- An array in use. -/
structure ArrayUse where
  /-- The store that holds it. -/
  store : Store
  /-- The elements that were reached, the latest first. -/
  reached : List Element
  /-- What accepted writes left in their slots, the latest first. -/
  stored : List (Slot × Value)
  deriving DecidableEq

/-- What a slot holds itself; references are not followed. -/
def Store.contents (s : Store) (slot : Slot) : Value :=
  match s.cell slot with
  | .ok c => c.value
  | .error _ => .nothing

namespace ArrayUse

/-- The slots of the elements that were reached. -/
def slots (u : ArrayUse) : List Slot :=
  u.reached.map Element.slot

/-- The array after an event. Only values that are no references are written, and only to elements
that were reached; any other write is left out. -/
def act (storage : HeapId) (u : ArrayUse) : ArrayEvent → ArrayUse
  | .reach offset index =>
    match StoreM.reachElement ⟨storage, offset⟩ index u.store with
    | .ok e s => { u with store := s, reached := e :: u.reached }
    | .error _ s => { u with store := s }
  | .write slot v =>
    if slot ∈ u.slots ∧ v.tag ≠ Tag.ref then
      match StoreM.write slot v u.store with
      | .ok _ s => { u with store := s, stored := (slot, s.contents slot) :: u.stored }
      | .error _ s => { u with store := s }
    else u

/-- The array after some events. -/
def play (storage : HeapId) (u : ArrayUse) (events : List ArrayEvent) : ArrayUse :=
  events.foldl (act storage) u

/-- How far an array of this initial length was reached. -/
def count (u : ArrayUse) (len : Nat) : Nat :=
  u.reached.foldr (fun e n => max n e.slot.index) len

/-- What was last written to a slot; before that, what a fresh element holds. -/
def shown (u : ArrayUse) (element : ElementKind) (slot : Slot) : Value :=
  (u.stored.lookup slot).getD element.fresh.value

/-- What is true of an array in use, given the store in which it was allocated. -/
structure Kept (u : ArrayUse) (s : Store) (storage : HeapId) (element : ElementKind) (len : Nat) :
    Prop where
  /-- The count says how far it was reached. -/
  array : u.store.HasArray storage element (u.count len) (u.store.capacity storage)
  /-- The limit is the one it was. -/
  maxLen_eq : u.store.maxLen = s.maxLen
  /-- Nothing else in the store has changed. -/
  frame : ∀ x, x.heap ≠ storage → u.store.cell x = s.cell x
  /-- The elements that were reached lie behind the header. -/
  slot_eq : ∀ slot ∈ u.slots, ∃ p, slot = ⟨storage, p + 1⟩
  /-- An element without a type is fresh. -/
  fresh : ∀ q, (u.store.elementCell storage element q).isEstablished = false →
    u.store.elementCell storage element q = element.fresh
  /-- An instance has its type exactly if it was reached. -/
  built : ∀ q cls, element = .instances cls →
    ((u.store.elementCell storage element q).isEstablished = true ↔ ⟨storage, q + 1⟩ ∈ u.slots)
  /-- Every element holds what was last written to it. -/
  value_eq : ∀ q, (u.store.elementCell storage element q).value =
    u.shown element ⟨storage, q + 1⟩
  /-- No element is a bound reference. -/
  value_ne_ref : ∀ q target, (u.store.elementCell storage element q).value ≠ .ref target

variable {u : ArrayUse} {s : Store} {storage : HeapId} {element : ElementKind} {len p : Nat}

/-- An array is kept from the moment it is allocated. -/
theorem kept_allocArray {a : ArrayHandle} {s₁ : Store} (hlen : len < 2 ^ 64)
    (halloc : StoreM.allocArray element len s = .ok a s₁) :
    Kept ⟨s₁, [], []⟩ s a.storage element len := by
  obtain ⟨harray, hcells, hframe, hmax⟩ := StoreM.allocArray_eq_ok hlen halloc
  refine ⟨harray.capacity_eq.symm ▸ harray, hmax, hframe, by simp [slots], fun q _ => hcells q,
    fun q cls hkind => ?_, fun q => ?_, fun q target => ?_⟩
  · subst hkind
    simp [hcells, slots, ElementKind.fresh, Cell.blank, Cell.isEstablished]
  · rw [hcells]
    rfl
  · rw [hcells]
    exact element.value_fresh_ne_ref target

/-- An array counts every element that was reached. -/
theorem index_le_count (len : Nat) {slot : Slot} (hslot : slot ∈ u.slots) :
    slot.index ≤ u.count len := by
  obtain ⟨store, reached, stored⟩ := u
  simp only [slots, count] at hslot ⊢
  induction reached with
  | nil => cases hslot
  | cons e others ih =>
    simp only [List.map_cons, List.mem_cons, List.foldr_cons] at hslot ⊢
    rcases hslot with rfl | hslot
    · omega
    · have hle := ih hslot
      omega

/-- How an array answers when an element is reached: with the element, and for an instance that was
not reached before with the demand to build it. -/
def answer (u : ArrayUse) (element : ElementKind) (slot : Slot) : Element :=
  match element with
  | .instances cls => if slot ∈ u.slots then .ready slot else .unbuilt slot cls
  | _ => .ready slot

/-- The answer names the slot. -/
theorem slot_answer (u : ArrayUse) (element : ElementKind) (slot : Slot) :
    (u.answer element slot).slot = slot := by
  cases element with
  | untyped => rfl
  | tagged tags => rfl
  | instances cls =>
    rw [answer]
    split <;> rfl

/-- An index that leads before the first element, or beyond what an index can say, is refused. -/
theorem reach_invalid (storage : HeapId) {offset index : Int64} (s : Store)
    (hp : offset.toInt + index.toInt < 0 ∨ 2 ^ 63 ≤ offset.toInt + index.toInt) :
    StoreM.reachElement ⟨storage, offset⟩ index s = .error (.invalidIndex index) s :=
  StoreM.ask_bind_of_error (ArrayHandle.position_eq_error hp)

namespace Kept

/-- An element that was reached has a cell. -/
theorem cell_of_mem (h : u.Kept s storage element len) {slot : Slot} (hslot : slot ∈ u.slots) :
    ∃ p, slot = ⟨storage, p + 1⟩ ∧
      u.store.cell ⟨storage, p + 1⟩ = .ok (u.store.elementCell storage element p) := by
  obtain ⟨p, rfl⟩ := h.slot_eq slot hslot
  have hcount : p + 1 ≤ u.count len := index_le_count len hslot
  have hroom := h.array.count_le
  exact ⟨p, rfl, h.array.cell_of_lt (by omega)⟩

/-- The first time that an instance is reached, and then only, it has to be built. -/
theorem answer_eq (h : u.Kept s storage element len) (p : Nat) :
    (if (u.store.elementCell storage element p).isEstablished then .ready ⟨storage, p + 1⟩
      else element.reached ⟨storage, p + 1⟩) = u.answer element ⟨storage, p + 1⟩ := by
  cases element with
  | untyped => split <;> rfl
  | tagged tags => split <;> rfl
  | instances cls =>
    have hbuilt := h.built p cls rfl
    by_cases hmem : (⟨storage, p + 1⟩ : Slot) ∈ u.slots
    · rw [if_pos (hbuilt.mpr hmem), answer, if_pos hmem]
    · rw [if_neg (fun hestablished => hmem (hbuilt.mp hestablished)), answer, if_neg hmem]
      rfl

/-- Reaching an element changes no value. -/
theorem value_of_reachedAt (h : u.Kept s storage element len) {count room : Nat} {s' : Store}
    (hreached : u.store.ReachedAt s' storage element count room p) (q : Nat) :
    (s'.elementCell storage element q).value = (u.store.elementCell storage element q).value := by
  by_cases hq : q = p
  · subst hq
    rw [hreached.cell]
    split
    · rfl
    · rename_i hbare
      rw [element.value_established, h.fresh q (by simpa using hbare)]
  · rw [hreached.other q hq]

/-- An array stays kept when an element has been reached. -/
theorem of_reachedAt (h : u.Kept s storage element len) {room : Nat} {s' : Store}
    (hreached : u.store.ReachedAt s' storage element (u.count len) room p) :
    Kept { u with store := s', reached := u.answer element ⟨storage, p + 1⟩ :: u.reached }
      s storage element len := by
  have hslot := u.slot_answer element ⟨storage, p + 1⟩
  have hvalue := h.value_of_reachedAt hreached
  refine ⟨?_, hreached.maxLen_eq.trans h.maxLen_eq,
    fun x hx => (hreached.frame x hx).trans (h.frame x hx), fun slot hmem => ?_, fun q hbare => ?_,
    fun q cls hkind => ?_, fun q => (hvalue q).trans (h.value_eq q),
    fun q => hvalue q ▸ h.value_ne_ref q⟩
  · rw [hreached.array.capacity_eq]
    simpa only [count, List.foldr_cons, hslot] using hreached.array
  · simp only [slots, List.map_cons, List.mem_cons, hslot] at hmem
    rcases hmem with rfl | hmem
    · exact ⟨p, rfl⟩
    · exact h.slot_eq slot hmem
  · by_cases hq : q = p
    · subst hq
      dsimp only at hbare ⊢
      rw [hreached.cell] at hbare ⊢
      split at hbare
      · rename_i hestablished
        rw [hestablished] at hbare
        cases hbare
      · rename_i hunreached
        rw [if_neg hunreached]
        exact ElementKind.established_eq_fresh (.inl hbare)
    · dsimp only at hbare ⊢
      rw [hreached.other q hq] at hbare ⊢
      exact h.fresh q hbare
  · subst hkind
    simp only [slots, List.map_cons, List.mem_cons, hslot, Slot.mk.injEq, true_and,
      Nat.add_right_cancel_iff]
    by_cases hq : q = p
    · subst hq
      simp only [true_or, iff_true]
      rw [hreached.cell]
      split
      · assumption
      · rfl
    · rw [hreached.other q hq, h.built q cls rfl]
      simp only [hq, false_or]
      rfl

/-- An element beyond both the count and the limit is refused. -/
theorem reach_over (h : u.Kept s storage element len) {offset index : Int64}
    (hp : offset.toInt + index.toInt = p) (hsmall : p < 2 ^ 63) (hcount : u.count len ≤ p)
    (hmax : s.maxLen ≤ p) :
    StoreM.reachElement ⟨storage, offset⟩ index u.store =
      .error (.allocationLimit .array (p + 1) s.maxLen) u.store := by
  rw [← h.maxLen_eq] at hmax ⊢
  exact Store.HasArray.reach_of_le h.array (ArrayHandle.position_eq_ok hp hsmall) hcount hmax

/-- Any other element is reached. -/
theorem reach_within (h : u.Kept s storage element len) {offset index : Int64}
    (hp : offset.toInt + index.toInt = p) (hsmall : p < 2 ^ 63)
    (hwithin : p < u.count len ∨ p < s.maxLen) :
    ∃ s', StoreM.reachElement ⟨storage, offset⟩ index u.store =
        .ok (u.answer element ⟨storage, p + 1⟩) s' ∧
      u.store.ReachedAt s' storage element (u.count len) (u.store.capacity storage) p := by
  rw [← h.maxLen_eq] at hwithin
  obtain ⟨s', hreach, hreached⟩ :=
    Store.HasArray.reach h.array (ArrayHandle.position_eq_ok hp hsmall) hwithin
  exact ⟨s', hreach.trans (by rw [h.answer_eq]), hreached⟩

/-- What a write to an element that was reached can do: it is refused, or the element takes the
value and nothing else changes. -/
theorem write_outcome (h : u.Kept s storage element len) {slot : Slot} {v : Value}
    (hslot : slot ∈ u.slots) (hv : ∀ target, v ≠ .ref target) :
    (∃ e, StoreM.write slot v u.store = .error e u.store) ∨
      ∃ c c' s', StoreM.write slot v u.store = .ok () s' ∧ u.store.cell slot = .ok c ∧
        s'.cell slot = .ok c' ∧ c.Takes v c' ∧ u.store.DiffersOnlyAt s' slot := by
  cases hwrite : StoreM.write slot v u.store with
  | error e s' =>
    obtain rfl := StoreM.atomic_write slot v u.store e s' hwrite
    exact .inl ⟨e, rfl⟩
  | ok _ s' =>
    obtain ⟨t, c, c', ht, hc, hc', htakes, hdiffers⟩ := StoreM.landing_of_write hv hwrite
    obtain ⟨p, rfl, hcell⟩ := h.cell_of_mem hslot
    have hstays : u.store.next? ⟨storage, p + 1⟩ = none := by
      by_contra hgoes
      obtain ⟨y, hy⟩ := Option.ne_none_iff_exists'.mp hgoes
      obtain ⟨c₀, hc₀, -, hvalue⟩ := Store.cell_of_next? hy
      obtain rfl : u.store.elementCell storage element p = c₀ := by simpa [hcell] using hc₀
      exact h.value_ne_ref p y hvalue
    obtain rfl : t = ⟨storage, p + 1⟩ := Store.eq_of_meets hstays
      (Store.meets_of_originWithin (Store.originWithin_of_writableWithin ⟨storage, p + 1⟩ ht))
    exact .inr ⟨c, c', s', rfl, hc, hc', htakes, hdiffers⟩

/-- An array stays kept when a reached element has taken a value. -/
theorem of_takes (h : u.Kept s storage element len) {slot : Slot} {v : Value} {c c' : Cell}
    {s' : Store} (hslot : slot ∈ u.slots) (hv : ∀ target, v ≠ .ref target)
    (hc : u.store.cell slot = .ok c) (hc' : s'.cell slot = .ok c') (htakes : c.Takes v c')
    (hdiffers : u.store.DiffersOnlyAt s' slot) :
    Kept { u with store := s', stored := (slot, s'.contents slot) :: u.stored }
      s storage element len := by
  obtain ⟨p, rfl, hcell⟩ := h.cell_of_mem hslot
  obtain rfl : u.store.elementCell storage element p = c := by simpa [hcell] using hc
  have hnew : s'.elementCell storage element p = c' := by rw [Store.elementCell, hc']
  have hother : ∀ q, q ≠ p →
      s'.elementCell storage element q = u.store.elementCell storage element q :=
    fun q hq => hdiffers.elementCell_eq hq
  have hestablished : c'.isEstablished = true := by
    refine htakes.isEstablished fun hbare => ?_
    have hfresh := h.fresh p hbare
    rw [hfresh] at hbare ⊢
    exact ElementKind.fixed_fresh hbare
  have harray := h.array.of_differsOnlyAt hdiffers
  refine ⟨harray.capacity_eq.symm ▸ harray, hdiffers.maxLen_eq.trans h.maxLen_eq, fun x hx => ?_,
    h.slot_eq, fun q hbare => ?_, fun q cls hkind => ?_, fun q => ?_, fun q target => ?_⟩
  · have hne : x ≠ ⟨storage, p + 1⟩ := fun heq => hx (by rw [heq])
    exact (hdiffers.cell_other x hne).trans (h.frame x hx)
  all_goals by_cases hq : q = p
  · subst hq
    rw [hnew, hestablished] at hbare
    cases hbare
  · rw [hother q hq] at hbare ⊢
    exact h.fresh q hbare
  · subst hq
    rw [hnew, hestablished]
    exact ⟨fun _ => hslot, fun _ => rfl⟩
  · rw [hother q hq]
    exact h.built q cls hkind
  · subst hq
    rw [hnew, shown, List.lookup_cons_self, Store.contents, hc']
    rfl
  · rw [hother q hq, h.value_eq q, shown, shown, List.lookup_cons]
    have hne : ((⟨storage, q + 1⟩ : Slot) == ⟨storage, p + 1⟩) = false := by simpa using hq
    rw [hne]
  · subst hq
    rw [hnew]
    exact htakes.value_ne_ref hv target
  · rw [hother q hq]
    exact h.value_ne_ref q target

/-- Everything an event can do: nothing at all, reach an element, or store a value in one. -/
theorem act_cases (h : u.Kept s storage element len) (event : ArrayEvent) :
    u.act storage event = u ∨
      (∃ p s', u.store.ReachedAt s' storage element (u.count len) (u.store.capacity storage) p ∧
        u.act storage event =
          { u with store := s', reached := u.answer element ⟨storage, p + 1⟩ :: u.reached }) ∨
      ∃ slot v c c' s', slot ∈ u.slots ∧ (∀ target, v ≠ .ref target) ∧
        u.store.cell slot = .ok c ∧ s'.cell slot = .ok c' ∧ c.Takes v c' ∧
        u.store.DiffersOnlyAt s' slot ∧
        u.act storage event =
          { u with store := s', stored := (slot, s'.contents slot) :: u.stored } := by
  cases event with
  | reach offset index =>
    simp only [act]
    by_cases hvalid : offset.toInt + index.toInt < 0 ∨ 2 ^ 63 ≤ offset.toInt + index.toInt
    · rw [reach_invalid storage u.store hvalid]
      exact .inl rfl
    · obtain ⟨p, hp⟩ := Int.eq_ofNat_of_zero_le (by omega : 0 ≤ offset.toInt + index.toInt)
      have hsmall : p < 2 ^ 63 := by omega
      by_cases hover : u.count len ≤ p ∧ s.maxLen ≤ p
      · rw [h.reach_over hp hsmall hover.1 hover.2]
        exact .inl rfl
      · obtain ⟨s', hreach, hreached⟩ := h.reach_within hp hsmall (by omega)
        rw [hreach]
        exact .inr (.inl ⟨p, s', hreached, rfl⟩)
  | write slot v =>
    simp only [act]
    by_cases hallowed : slot ∈ u.slots ∧ v.tag ≠ Tag.ref
    · rw [if_pos hallowed]
      have hv : ∀ target, v ≠ .ref target := by
        rintro target rfl
        exact hallowed.2 rfl
      rcases h.write_outcome hallowed.1 hv with
        ⟨e, hrefused⟩ | ⟨c, c', s', hwritten, hc, hc', htakes, hdiffers⟩
      · rw [hrefused]
        exact .inl rfl
      · rw [hwritten]
        exact .inr (.inr ⟨slot, v, c, c', s', hallowed.1, hv, hc, hc', htakes, hdiffers, rfl⟩)
    · rw [if_neg hallowed]
      exact .inl rfl

/-- An array is kept by every event. -/
theorem act (h : u.Kept s storage element len) (event : ArrayEvent) :
    (u.act storage event).Kept s storage element len := by
  rcases h.act_cases event with hact | ⟨p, s', hreached, hact⟩ |
    ⟨slot, v, c, c', s', hslot, hv, hc, hc', htakes, hdiffers, hact⟩
  · rw [hact]
    exact h
  · rw [hact]
    exact h.of_reachedAt hreached
  · rw [hact]
    exact h.of_takes hslot hv hc hc' htakes hdiffers

/-- No event takes room away from an array. -/
theorem capacity_le_act (h : u.Kept s storage element len) (event : ArrayEvent) :
    u.store.capacity storage ≤ (u.act storage event).store.capacity storage := by
  rcases h.act_cases event with hact | ⟨p, s', hreached, hact⟩ |
    ⟨slot, v, c, c', s', -, -, -, -, -, hdiffers, hact⟩
  · rw [hact]
  · rw [hact, hreached.array.capacity_eq]
    exact hreached.room_le
  · rw [hact, Store.capacity, Store.capacity, hdiffers.size_eq]

/-- An array is kept by any number of events, and they take no room away from it. -/
theorem play (h : u.Kept s storage element len) (events : List ArrayEvent) :
    (u.play storage events).Kept s storage element len ∧
      u.store.capacity storage ≤ (u.play storage events).store.capacity storage := by
  induction events generalizing u with
  | nil => exact ⟨h, le_rfl⟩
  | cons event others ih =>
    obtain ⟨hkept, hroom⟩ := ih (h.act event)
    exact ⟨hkept, (h.capacity_le_act event).trans hroom⟩

end Kept

/-- What reaching the element at a position makes of an array in use. -/
structure Grants (u : ArrayUse) (storage : HeapId) (element : ElementKind) (len p : Nat)
    (s' : Store) : Prop where
  /-- The element counts. -/
  count_eq : s'.elementCount storage = .ok (max (u.count len) (p + 1))
  /-- There is room for it, and if there was none, for an eighth more as far as that is allowed. -/
  capacity_eq : s'.capacity storage =
    if u.store.capacity storage < p + 1 then min ((p + 1) + (p + 1) / 8) u.store.maxLen
    else u.store.capacity storage
  /-- The elements that had a cell hold what they held, and all others but the one that was reached
  have the very cell. -/
  kept : ∀ q c, q < u.store.capacity storage → u.store.cell ⟨storage, q + 1⟩ = .ok c →
    ∃ c', s'.cell ⟨storage, q + 1⟩ = .ok c' ∧ c'.value = c.value ∧ (q ≠ p → c' = c)
  /-- The elements that had none are fresh, the one that was reached with its type. -/
  added : ∀ q, u.store.capacity storage ≤ q → q < s'.capacity storage →
    s'.cell ⟨storage, q + 1⟩ = .ok (if q = p then element.established else element.fresh)
  /-- Nothing else in the store has changed. -/
  frame : ∀ x, x.heap ≠ storage → s'.cell x = u.store.cell x

/-- Reaching an element of a kept array grants it. -/
theorem Kept.grants (h : u.Kept s storage element len) {s' : Store}
    (hreached : u.store.ReachedAt s' storage element (u.count len) (u.store.capacity storage) p) :
    u.Grants storage element len p s' := by
  have hcapacity := hreached.array.capacity_eq
  refine ⟨hreached.array.questions.1, hcapacity, fun q c hq hc => ?_, fun q hle hlt => ?_,
    hreached.frame⟩
  · have hroom := hreached.room_le
    obtain rfl : u.store.elementCell storage element q = c := by
      simpa [h.array.cell_of_lt hq] using hc
    exact ⟨_, hreached.array.cell_of_lt (by omega), h.value_of_reachedAt hreached q,
      hreached.other q⟩
  · have hfresh := h.array.elementCell_of_le hle
    rw [hcapacity] at hlt
    rw [hreached.array.cell_of_lt hlt]
    by_cases hq : q = p
    · subst hq
      rw [if_pos rfl, hreached.cell, hfresh]
      split
      · rename_i hestablished
        rw [ElementKind.established_eq_fresh (.inr hestablished)]
      · rfl
    · rw [if_neg hq, hreached.other q hq, hfresh]

end ArrayUse

/-- The law of array access. After any use of a new array, through handles with any offsets and with
writes of values that are no references to elements that were reached:
the count is the highest of the initial length and of what was reached, and there is room for it
within the limit, which no further use takes away; every element holds what was last written to it,
a fresh one's value before that, and the rest of the store is as it was; a write to a reached
element is refused or changes that element alone. An index that leads before the first element or
out of range is refused, and so is an element beyond count and limit, without a change; any other
one is reached, always in its own slot, and asks for an instance to be built the first time only.
Looking for an element finds this slot exactly below the count. -/
theorem array_access_law {s s₁ : Store} {element : ElementKind} {len : Nat} {a : ArrayHandle}
    (hlen : len < 2 ^ 64) (halloc : StoreM.allocArray element len s = .ok a s₁)
    (events : List ArrayEvent) :
    let u := ArrayUse.play a.storage ⟨s₁, [], []⟩ events
    let room := u.store.capacity a.storage
    u.store.elementCount a.storage = .ok (u.count len) ∧ u.count len ≤ room ∧ room ≤ s.maxLen ∧
    u.store.maxLen = s.maxLen ∧
    (∀ more, room ≤ (u.play a.storage more).store.capacity a.storage) ∧
    (∀ q, q < room → ∃ c, u.store.cell ⟨a.storage, q + 1⟩ = .ok c ∧
      c.value = u.shown element ⟨a.storage, q + 1⟩) ∧
    (∀ x, x.heap ≠ a.storage → u.store.cell x = s.cell x) ∧
    (∀ slot ∈ u.slots, ∀ v, (∀ target, v ≠ .ref target) →
      (∃ e, StoreM.write slot v u.store = .error e u.store) ∨
        ∃ c c' s', StoreM.write slot v u.store = .ok () s' ∧ u.store.cell slot = .ok c ∧
          s'.cell slot = .ok c' ∧ c.Takes v c' ∧ u.store.DiffersOnlyAt s' slot) ∧
    (∀ offset index : Int64, offset.toInt + index.toInt < 0 ∨ 2 ^ 63 ≤ offset.toInt + index.toInt →
      StoreM.reachElement ⟨a.storage, offset⟩ index u.store = .error (.invalidIndex index) u.store ∧
      u.store.element? ⟨a.storage, offset⟩ index = .error (.invalidIndex index)) ∧
    ∀ (offset index : Int64) (p : Nat), offset.toInt + index.toInt = p → p < 2 ^ 63 →
      u.store.element? ⟨a.storage, offset⟩ index =
        .ok (if p < u.count len then some ⟨a.storage, p + 1⟩ else none) ∧
      (u.count len ≤ p → s.maxLen ≤ p →
        StoreM.reachElement ⟨a.storage, offset⟩ index u.store =
          .error (.allocationLimit .array (p + 1) s.maxLen) u.store) ∧
      (p < u.count len ∨ p < s.maxLen →
        ∃ s', StoreM.reachElement ⟨a.storage, offset⟩ index u.store =
            .ok (u.answer element ⟨a.storage, p + 1⟩) s' ∧
          u.Grants a.storage element len p s') := by
  intro u room
  have hkept : u.Kept s a.storage element len :=
    ((ArrayUse.kept_allocArray hlen halloc).play events).1
  refine ⟨hkept.array.questions.1, hkept.array.count_le, hkept.maxLen_eq ▸ hkept.array.room_le,
    hkept.maxLen_eq, fun more => (hkept.play more).2, fun q hq => ?_, hkept.frame,
    fun slot hslot v hv => hkept.write_outcome hslot hv, fun offset index hp => ?_,
    fun offset index p hp hsmall => ⟨?_, ?_, fun hwithin => ?_⟩⟩
  · exact ⟨_, hkept.array.cell_of_lt hq, hkept.value_eq q⟩
  · refine ⟨ArrayUse.reach_invalid a.storage u.store hp, ?_⟩
    rw [Store.element?, ArrayHandle.position_eq_error hp]
    rfl
  · exact Store.element?_eq (ArrayHandle.position_eq_ok hp hsmall) hkept.array.questions.1
  · exact hkept.reach_over hp hsmall
  · obtain ⟨s', hreach, hreached⟩ := hkept.reach_within hp hsmall hwithin
    exact ⟨s', hreach, hkept.grants hreached⟩

/-- A new array of one instance, of which the third element was reached through a shifted handle and
given an instance, and then the first. -/
def thirdPoint : ArrayUse :=
  ArrayUse.play 0 ⟨⟨#[⟨.array (.instances "Point"), #[arrayHeader 1, Cell.blank]⟩], #[], 8⟩, [], []⟩
    [.reach 2 0, .write ⟨0, 3⟩ (.object 5), .reach 0 0]

/-- The third element still has its instance when it is reached again; the eighth is reached beyond
the room, asks for an instance and gets the last of the room; the ninth and the one before the first
are refused. -/
theorem access_thirdPoint :
    StoreM.allocArray (.instances "Point") 1 (Store.empty 8) =
      .ok ⟨0, 0⟩ ⟨#[⟨.array (.instances "Point"), #[arrayHeader 1, Cell.blank]⟩], #[], 8⟩ ∧
    thirdPoint.store.elementCount 0 = .ok 3 ∧
    (∃ c, thirdPoint.store.cell ⟨0, 3⟩ = .ok c ∧ c.value = .object 5) ∧
    (∃ s', StoreM.reachElement ⟨0, -1⟩ 3 thirdPoint.store = .ok (.ready ⟨0, 3⟩) s') ∧
    (∃ s', StoreM.reachElement ⟨0, 4⟩ 3 thirdPoint.store = .ok (.unbuilt ⟨0, 8⟩ "Point") s' ∧
      s'.capacity 0 = 8) ∧
    StoreM.reachElement ⟨0, 4⟩ 4 thirdPoint.store =
      .error (.allocationLimit .array 9 8) thirdPoint.store ∧
    StoreM.reachElement ⟨0, 2⟩ (-3) thirdPoint.store =
      .error (.invalidIndex (-3)) thirdPoint.store := by
  have halloc : StoreM.allocArray (.instances "Point") 1 (Store.empty 8) =
      .ok ⟨0, 0⟩ ⟨#[⟨.array (.instances "Point"), #[arrayHeader 1, Cell.blank]⟩], #[], 8⟩ := rfl
  obtain ⟨hcount, -, -, -, -, hcells, -, -, hinvalid, hreach⟩ := array_access_law (by decide) halloc
    [.reach 2 0, .write ⟨0, 3⟩ (.object 5), .reach 0 0]
  obtain ⟨s', hagain, -⟩ := (hreach (-1) 3 2 (by decide) (by decide)).2.2 (.inr (by decide))
  obtain ⟨s'', hfar, hgrants⟩ := (hreach 4 3 7 (by decide) (by decide)).2.2 (.inr (by decide))
  refine ⟨halloc, hcount, hcells 2 (by decide), ⟨s', hagain⟩, ⟨s'', hfar, hgrants.capacity_eq⟩,
    (hreach 4 4 8 (by decide) (by decide)).2.1 (by decide) (by decide),
    (hinvalid 2 (-3) (.inl (by decide))).1⟩

end SlotMachine
