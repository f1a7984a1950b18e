import SlotMachine.Proofs.Store.Handover
import Mathlib.Tactic.Common
import Mathlib.Data.List.Forall2

/-!
# Collecting further arguments

The last parameter of a variadic function receives a new array of copies. While the array is filled
nothing else changes, so that each element holds what its actual had when the collecting began; and
the handle then goes where a write to the parameter lands, which is no cell of the new array.
-/

namespace SlotMachine

/-- The cells of array storage for `n` elements, of which the first ones hold the given values and
the others are free. -/
def filledCells (n : Nat) (vs : List Value) : Array Cell :=
  (arrayHeader n :: (vs.map Cell.holding ++ List.replicate (n - vs.length) Cell.free)).toArray

section FilledCells

variable {n : Nat} {vs : List Value}

/-- Storage in which no element has been filled. -/
theorem filledCells_nil (n : Nat) :
    filledCells n [] = #[arrayHeader n] ++ Array.replicate n ElementKind.untyped.fresh := by
  apply Array.toList_inj.mp
  simp [filledCells, ElementKind.fresh]

/-- Storage has one cell more than elements. -/
theorem size_filledCells (hle : vs.length ≤ n) : (filledCells n vs).size = n + 1 := by
  simp only [filledCells, List.size_toArray, List.length_cons, List.length_append, List.length_map,
    List.length_replicate]
  omega

/-- The element that is filled next is free. -/
theorem getElem?_filledCells_next (hlt : vs.length < n) :
    (filledCells n vs)[vs.length + 1]? = some Cell.free := by
  have hrest : n - vs.length = (n - vs.length - 1) + 1 := by omega
  simp only [filledCells, List.getElem?_toArray, List.getElem?_cons_succ]
  rw [List.getElem?_append_right (by simp), hrest]
  simp [List.replicate_succ]

/-- An element that has been filled holds its value. -/
theorem getElem?_filledCells {k : Nat} {v : Value} (hv : vs[k]? = some v) :
    (filledCells n vs)[k + 1]? = some (Cell.holding v) := by
  have hlt : k < vs.length := (List.getElem?_eq_some_iff.mp hv).1
  simp only [filledCells, List.getElem?_toArray, List.getElem?_cons_succ]
  rw [List.getElem?_append_left (by simpa using hlt), List.getElem?_map, hv]
  rfl

/-- Filling the next element. -/
theorem setIfInBounds_filledCells (v : Value) (hlt : vs.length < n) :
    (filledCells n vs).setIfInBounds (vs.length + 1) (Cell.holding v) =
      filledCells n (vs ++ [v]) := by
  have hrest : n - vs.length = (n - (vs.length + 1)) + 1 := by omega
  apply Array.toList_inj.mp
  simp only [filledCells, Array.toList_setIfInBounds, List.set_cons_succ, List.map_append,
    List.length_append, List.length_singleton]
  rw [List.set_append_right _ _ (by simp), hrest]
  simp [List.replicate_succ]

/-- Filling the next element with nothing leaves it free. -/
theorem filledCells_nothing (hlt : vs.length < n) :
    filledCells n (vs ++ [.nothing]) = filledCells n vs := by
  have hrest : n - vs.length = (n - (vs.length + 1)) + 1 := by omega
  have hfree : Cell.holding .nothing = Cell.free := rfl
  simp only [filledCells, List.map_append, List.length_append, List.length_singleton, hrest,
    List.replicate_succ, List.map_cons, List.map_nil, hfree, List.append_assoc,
    List.singleton_append]

end FilledCells

namespace Store

variable {s s' : Store} {n k : Nat} {vs : List Value} {x y : Slot} {v : Value} {c : Cell}

/-- The store with new storage for `n` elements, of which the first ones are filled. -/
def withFilled (s : Store) (n : Nat) (vs : List Value) : Store :=
  (s.alloc (.array .untyped) (filledCells n vs)).2

/-- The new storage is a heap behind the others. -/
theorem heaps_withFilled (s : Store) (n : Nat) (vs : List Value) :
    (s.withFilled n vs).heaps[s.heaps.size]? = some ⟨.array .untyped, filledCells n vs⟩ := by
  unfold withFilled
  rw [heaps_alloc, if_pos rfl]

/-- The cells that were there are not touched by filling. -/
theorem cell_withFilled_of_lt (hx : x.heap < s.heaps.size) (n : Nat) (vs : List Value) :
    (s.withFilled n vs).cell x = s.cell x := by
  unfold cell heap withFilled
  rw [heaps_alloc, if_neg (Nat.ne_of_lt hx)]

/-- The cells of the new storage. -/
theorem cell_withFilled (hc : (filledCells n vs)[k]? = some c) :
    (s.withFilled n vs).cell ⟨s.heaps.size, k⟩ = .ok c :=
  cell_eq_ok_iff.mpr ⟨_, heaps_withFilled s n vs, hc⟩

/-- Filling the next element of the new storage. -/
theorem setCell_withFilled (s : Store) (v : Value) (hlt : vs.length < n) :
    (s.withFilled n vs).setCell ⟨s.heaps.size, vs.length + 1⟩ (Cell.holding v) =
      s.withFilled n (vs ++ [v]) := by
  unfold setCell modifyHeap withFilled alloc
  dsimp only
  congr 1
  apply Array.ext_getElem?
  intro id
  rw [Array.getElem?_modify, Array.getElem?_push, Array.getElem?_push]
  by_cases hid : id = s.heaps.size
  · simp [hid, setIfInBounds_filledCells v hlt]
  · simp [hid, Ne.symm hid]

end Store

namespace StoreM

open Store

variable {s s' : Store} {n : Nat} {vs : List Value} {actual : Slot} {actuals : List Slot}

/-- The position of an element in storage to which a handle points from its start. -/
theorem position_ofNat {storage : HeapId} {k : Nat} (hk : k < 2 ^ 63) :
    (⟨storage, 0⟩ : ArrayHandle).position (Int64.ofNat k) = .ok k := by
  have hindex : (Int64.ofNat k).toInt = k := Int64.toInt_ofNat_of_lt hk
  have hmax : Int64.maxValue.toInt = 9223372036854775807 := by decide
  have hzero : (0 : Int64).toInt = 0 := by decide
  unfold ArrayHandle.position
  simp only [hindex, hzero, hmax]
  rw [if_pos (by omega)]
  simp

/-- Filling takes as many elements as an index can name. -/
theorem length_le_of_fillArray {storage : HeapId} {index : Nat} (hindex : index ≤ 2 ^ 63)
    (h : fillArray ⟨storage, 0⟩ index actuals s = .ok () s') : index + actuals.length ≤ 2 ^ 63 := by
  induction actuals generalizing index s with
  | nil => simpa using hindex
  | cons actual others ih =>
    obtain ⟨element, s₁, hreach, hrest⟩ := Action.bind_eq_ok_iff.mp h
    obtain ⟨position, s₂, hposition, -⟩ := Action.bind_eq_ok_iff.mp hreach
    have hlast : index ≠ 2 ^ 63 := by
      rintro rfl
      obtain ⟨hposition, -⟩ := ask_eq_ok_iff.mp hposition
      have hover : (⟨storage, 0⟩ : ArrayHandle).position (Int64.ofNat (2 ^ 63)) =
          .error (.invalidIndex (Int64.ofNat (2 ^ 63))) := rfl
      rw [hover] at hposition
      cases hposition
    have hothers : ∃ s₂, fillArray ⟨storage, 0⟩ (index + 1) others s₂ = .ok () s' := by
      cases element with
      | ready slot =>
        obtain ⟨_, s₂, -, hothers⟩ := Action.bind_eq_ok_iff.mp hrest
        exact ⟨s₂, hothers⟩
      | unbuilt slot cls => exact ⟨s₁, hrest⟩
    obtain ⟨s₂, hothers⟩ := hothers
    have hle := ih (by omega) hothers
    rw [List.length_cons]
    omega

/-- Reaching the next element of storage that is being filled finds it ready. -/
theorem reachElement_withFilled (s : Store) (hlt : vs.length < n) (hn : n ≤ 2 ^ 63) :
    reachElement ⟨s.heaps.size, 0⟩ (Int64.ofNat vs.length) (s.withFilled n vs) =
      .ok (.ready ⟨s.heaps.size, vs.length + 1⟩) (s.withFilled n vs) := by
  have hheap := heaps_withFilled s n vs
  have hheader : (filledCells n vs)[0]? =
      some ⟨[Tag.uint64], true, .uint64 (UInt64.ofNat n)⟩ := rfl
  have hcount : (UInt64.ofNat n).toNat = n := by
    rw [UInt64.toNat_ofNat', Nat.mod_eq_of_lt (by omega)]
  have hlen := (array_questions hheap rfl hheader).1
  rw [hcount] at hlen
  have hroom : vs.length + 1 < (filledCells n vs).size := by
    rw [size_filledCells (by omega)]
    omega
  have hposition : ArrayHandle.position ⟨s.heaps.size, 0⟩ (Int64.ofNat vs.length) = .ok vs.length :=
    position_ofNat (by omega)
  rw [reachElement_of_lt hposition hlen hlt hheap rfl hroom,
    establish_of_cell (cell_withFilled (getElem?_filledCells_next hlt))]
  rfl

/-- Copying into the next element of storage that is being filled fills it. -/
theorem copy_withFilled (hlt : vs.length < n)
    (h : copy ⟨s.heaps.size, vs.length + 1⟩ actual (s.withFilled n vs) = .ok () s') :
    ∃ v, (s.withFilled n vs).value actual = .ok v ∧ (∀ aim, v ≠ .ref aim) ∧
      s' = s.withFilled n (vs ++ [v]) := by
  have hfree := cell_withFilled (s := s) (getElem?_filledCells_next hlt)
  obtain ⟨v, hv, ⟨rfl, rfl⟩ | ⟨-, hnoRef, hwrite⟩⟩ := copy_eq_ok h
  · refine ⟨_, hv, by simp, ?_⟩
    unfold withFilled
    rw [filledCells_nothing hlt]
  · refine ⟨v, hv, hnoRef, ?_⟩
    rw [write_eq_writeValue hnoRef] at hwrite
    unfold writeValue at hwrite
    rw [ask_bind_of_ok (writable_of_plain hfree rfl), ask_bind_of_ok hfree] at hwrite
    have hundeclared : (!Cell.free.fixed) = true := rfl
    rw [if_pos hundeclared, replace_of_cell hfree, setCell_withFilled s v hlt] at hwrite
    cases hwrite
    rfl

/-- The value was read from a slot while the new storage was being filled. -/
def ReadDuring (s : Store) (n : Nat) (actual : Slot) (v : Value) : Prop :=
  (∀ aim, v ≠ .ref aim) ∧ ∃ us, (s.withFilled n us).value actual = .ok v

/-- Filling the rest of the new storage copies the values of the slots in order. -/
theorem fillArray_withFilled (vs : List Value) (hn : vs.length + actuals.length = n) (hlarge : n ≤ 2 ^ 63)
    (h : fillArray ⟨s.heaps.size, 0⟩ vs.length actuals (s.withFilled n vs) = .ok () s') :
    ∃ ws, List.Forall₂ (ReadDuring s n) actuals ws ∧ s' = s.withFilled n (vs ++ ws) := by
  induction actuals generalizing vs with
  | nil =>
    cases h
    exact ⟨[], .nil, by rw [List.append_nil]⟩
  | cons actual others ih =>
    rw [List.length_cons] at hn
    have hlt : vs.length < n := by omega
    unfold fillArray at h
    rw [Action.bind_of_ok (reachElement_withFilled s hlt hlarge)] at h
    obtain ⟨_, s₁, hcopy, hothers⟩ := Action.bind_eq_ok_iff.mp h
    obtain ⟨v, hv, hnoRef, rfl⟩ := copy_withFilled hlt hcopy
    have hlength : (vs ++ [v]).length = vs.length + 1 := by simp
    rw [← hlength] at hothers
    obtain ⟨ws, hws, rfl⟩ := ih (vs ++ [v]) (by omega) hothers
    exact ⟨v :: ws, .cons ⟨hnoRef, vs, hv⟩ hws, by rw [List.append_assoc]; rfl⟩

end StoreM

namespace Store

variable {s s' : Store} {formal x y : Slot} {actuals : List Slot} {n : Nat} {v : Value}

/-- No reference in the first heaps leads out of them. -/
def ClosedBelow (s : Store) (n : Nat) : Prop :=
  ∀ x y, x.heap < n → s.next? x = some y → y.heap < n

/-- A walk does not leave heaps that no reference leaves. -/
theorem ClosedBelow.meets (h : s.ClosedBelow n) (hx : x.heap < n) (hxy : s.Meets x y) :
    y.heap < n := by
  obtain ⟨k, hk⟩ := hxy
  induction k generalizing x with
  | zero =>
    obtain rfl : x = y := by simpa [walk] using hk
    exact hx
  | succ k ih =>
    obtain ⟨z, hz, hrest⟩ := Option.bind_eq_some_iff.mp hk
    exact ih (h x z hx hz) hrest

/-- New storage does not change what is read through the slots that were there. -/
theorem value_withFilled (hclosed : s.ClosedBelow s.heaps.size) (hx : x.heap < s.heaps.size)
    (n : Nat) (vs : List Value) : (s.withFilled n vs).value x = s.value x :=
  value_of_walk fun _ hy => cell_withFilled_of_lt (hclosed.meets hx hy) n vs

/-- The parameter has an array that was not there before, whose elements hold, in order, the values
that the actuals had. -/
def Collected (s s' : Store) (formal : Slot) (actuals : List Slot) : Prop :=
  ∃ a : ArrayHandle, s'.value formal = .ok (.array a) ∧ s.kind? a.storage = none ∧
    s'.elementCount a.storage = .ok actuals.length ∧
    ∀ (k : Nat) (actual : Slot), actuals[k]? = some actual →
      ∃ v slot, s.value actual = .ok v ∧ s'.element? a (Int64.ofNat k) = .ok (some slot) ∧
        s'.value slot = .ok v

end Store

namespace StoreM

open Store

variable {s s' : Store} {formal slot x : Slot} {actuals : List Slot} {c : Cell}

/-- An accepted write of an array handle: the handle is read through the slot, and where it landed is
the only cell that changed. -/
theorem write_array_eq_ok {a : ArrayHandle} (h : write slot (.array a) s = .ok () s') :
    ∃ t, s.writable slot = .ok t ∧ s'.origin slot = .ok t ∧ s'.value slot = .ok (.array a) ∧
      s.DiffersOnlyAt s' t ∧ s.SameRoads s' := by
  have hnoRef : ∀ aim, Value.array a ≠ .ref aim := by simp
  obtain ⟨t, c, c', ht, hc, hc', htakes, hdiffers⟩ := landing_of_write hnoRef h
  have hroads := sameRoads_of_write hnoRef h
  have horigin : s'.origin slot = .ok t :=
    (hroads.origin_eq slot).trans (originWithin_of_writableWithin slot ht)
  have hvalue : c'.value = .array a := by
    cases htakes with
    | undeclared _ => rfl
    | declared _ _ => rfl
    | converted _ _ _ hconvert => cases hconvert
  exact ⟨t, ht, horigin, by rw [value_of_origin horigin hc', hvalue], hdiffers, hroads⟩

/-- Collecting is filling new storage, emptying the parameter and storing the handle. -/
theorem collectRest_eq_ok (h : collectRest formal actuals s = .ok () s') :
    ∃ ws c, actuals.length ≤ 2 ^ 63 ∧ List.Forall₂ (ReadDuring s actuals.length) actuals ws ∧
      (s.withFilled actuals.length ws).cell formal = .ok c ∧
      write formal (.array ⟨s.heaps.size, 0⟩)
        ((s.withFilled actuals.length ws).emptied formal) = .ok () s' := by
  obtain ⟨a, s₁, halloc, hrest⟩ := Action.bind_eq_ok_iff.mp h
  obtain ⟨_, s₂, hfill, hrest⟩ := Action.bind_eq_ok_iff.mp hrest
  obtain ⟨_, s₃, hclear, hwrite⟩ := Action.bind_eq_ok_iff.mp hrest
  obtain ⟨rfl, rfl⟩ : (⟨s.heaps.size, 0⟩ : ArrayHandle) = a ∧
      s.withFilled actuals.length [] = s₁ := by
    obtain ⟨_, s₀, hcheck, hstored⟩ := Action.bind_eq_ok_iff.mp halloc
    obtain ⟨-, rfl⟩ := ask_eq_ok_iff.mp hcheck
    cases hstored
    refine ⟨rfl, ?_⟩
    rw [withFilled, filledCells_nil]
    rfl
  have hlarge : actuals.length ≤ 2 ^ 63 := by
    have hle := length_le_of_fillArray (by decide) hfill
    omega
  obtain ⟨ws, hws, rfl⟩ := fillArray_withFilled [] (by simp) hlarge hfill
  obtain ⟨c, hc⟩ : ∃ c, (s.withFilled actuals.length ws).cell formal = .ok c := by
    obtain ⟨c, _, hask, -⟩ := Action.bind_eq_ok_iff.mp hclear
    exact ⟨c, (ask_eq_ok_iff.mp hask).1⟩
  rw [List.nil_append, clearUnlessFixed_of_cell hc] at hclear
  cases hclear
  exact ⟨ws, c, hlarge, hws, hc, hwrite⟩

/-- Collecting leaves the cells that were there alone, but for the parameter and the place where the
handle landed. -/
theorem cell_of_collectRest (h : collectRest formal actuals s = .ok () s')
    (hx : x.heap < s.heaps.size) (hformal : x ≠ formal) (hlanding : s'.origin formal ≠ .ok x) :
    s'.cell x = s.cell x := by
  obtain ⟨ws, c, -, -, hc, hwrite⟩ := collectRest_eq_ok h
  obtain ⟨t, -, horigin, -, hdiffers, -⟩ := write_array_eq_ok hwrite
  have ht : x ≠ t := by
    rintro rfl
    exact hlanding horigin
  rw [hdiffers.cell_other x ht, (cell_emptied hc).2.cell_other x hformal,
    cell_withFilled_of_lt hx]

/-- A walk finds the same after collecting, unless it comes past a parameter that is emptied and was
a reference. -/
theorem sameRoad_of_collectRest (h : collectRest formal actuals s = .ok () s')
    (hx : x.heap < s.heaps.size)
    (hplain : x = formal → ∀ c, s.cell x = .ok c → c.fixed = false → s.Plain x) :
    s.SameRoad s' x := by
  obtain ⟨ws, c, -, -, hc, hwrite⟩ := collectRest_eq_ok h
  obtain ⟨t, -, -, -, -, hroads⟩ := write_array_eq_ok hwrite
  have hfilled : s.SameRoad (s.withFilled actuals.length ws) x := .inl (cell_withFilled_of_lt hx _ _)
  refine (hfilled.trans ?_).trans (hroads x)
  by_cases hformal : x = formal
  · subst hformal
    cases hfixed : c.fixed with
    | true =>
      rw [emptied_of_fixed hc hfixed]
      exact .inl rfl
    | false =>
      have hc₀ : s.cell x = .ok c := (cell_withFilled_of_lt hx _ _).symm.trans hc
      obtain ⟨c₁, hc₁, hnoRef⟩ := hplain rfl c hc₀ hfixed
      obtain rfl : c = c₁ := by simpa [hc₀] using hc₁
      refine .inr ⟨c, Cell.free, hc, ?_, hnoRef, rfl⟩
      rw [emptied_of_not_fixed hc hfixed, cell_setCell hc, if_pos rfl]
  · exact .inl ((cell_emptied hc).2.cell_other x hformal)

/-- Collecting leaves every reference alone but for the parameter. -/
theorem reference_of_collectRest (h : collectRest formal actuals s = .ok () s')
    (hx : x.heap < s.heaps.size) (hformal : x ≠ formal) (hc : s.cell x = .ok c)
    (href : c.isReference = true) : s'.cell x = .ok c := by
  rcases sameRoad_of_collectRest h hx fun heq => absurd heq hformal with
    heq | ⟨c₀, c', hc₀, -, hplain, -⟩
  · rw [heq, hc]
  · obtain rfl : c = c₀ := by simpa [hc] using hc₀
    rw [href] at hplain
    cases hplain

/-- The handle lands in none of the new cells if no reference leads to them. -/
theorem landing_lt_of_closed {ws : List Value} {t : Slot} (hclosed : s.ClosedBelow s.heaps.size)
    (hformal : formal.heap < s.heaps.size)
    (hc : (s.withFilled actuals.length ws).cell formal = .ok c)
    (ht : ((s.withFilled actuals.length ws).emptied formal).writable formal = .ok t) :
    t.heap < s.heaps.size := by
  have hclosed' : ((s.withFilled actuals.length ws).emptied formal).ClosedBelow s.heaps.size := by
    intro x y hx hnext
    refine hclosed x y hx ?_
    have hcell : ((s.withFilled actuals.length ws).emptied formal).cell x = s.cell x := by
      by_cases heq : x = formal
      · subst heq
        cases hfixed : c.fixed with
        | true => rw [emptied_of_fixed hc hfixed, cell_withFilled_of_lt hx]
        | false =>
          have hfree := (cell_emptied hc).1
          rw [Cell.emptied, if_neg (by simp [hfixed])] at hfree
          simp [next?, hfree, Cell.isReference, Cell.tag, Cell.free, Cell.outer,
            Tag.isReference] at hnext
      · rw [(cell_emptied hc).2.cell_other x heq, cell_withFilled_of_lt hx]
    rw [← hnext]
    simp only [next?, hcell]
  exact hclosed'.meets hformal (meets_of_originWithin (originWithin_of_writableWithin formal ht))

/-- Collecting gives the parameter an array of the values that the actuals have, if these are slots
of the heaps that are there and no reference leads out of them. -/
theorem collected_of_collectRest (hclosed : s.ClosedBelow s.heaps.size)
    (hformal : formal.heap < s.heaps.size) (hactuals : ∀ a ∈ actuals, a.heap < s.heaps.size)
    (h : collectRest formal actuals s = .ok () s') : s.Collected s' formal actuals := by
  obtain ⟨ws, c, hlarge, hws, hc, hwrite⟩ := collectRest_eq_ok h
  obtain ⟨t, ht, -, hvalue, hdiffers, -⟩ := write_array_eq_ok hwrite
  have hlanding := landing_lt_of_closed hclosed hformal hc ht
  have hnew : ∀ {k : Nat} {c' : Cell}, (filledCells actuals.length ws)[k]? = some c' →
      s'.cell ⟨s.heaps.size, k⟩ = .ok c' := by
    intro k c' hk
    have hne : ∀ {z : Slot}, z.heap < s.heaps.size → (⟨s.heaps.size, k⟩ : Slot) ≠ z := by
      rintro z hz rfl
      exact Nat.lt_irrefl _ hz
    rw [hdiffers.cell_other _ (hne hlanding), (cell_emptied hc).2.cell_other _ (hne hformal)]
    exact cell_withFilled hk
  have hcount : s'.elementCount s.heaps.size = .ok actuals.length := by
    have hheader : (filledCells actuals.length ws)[0]? = some (arrayHeader actuals.length) := rfl
    rw [elementCount, hnew hheader]
    simp only [arrayHeader, UInt64.toNat_ofNat']
    rw [Nat.mod_eq_of_lt (by omega)]
  refine ⟨⟨s.heaps.size, 0⟩, hvalue, by simp [kind?], hcount, fun k actual hk => ?_⟩
  have hbound : k < actuals.length := (List.getElem?_eq_some_iff.mp hk).1
  have hfilled : k < ws.length := hws.length_eq ▸ hbound
  have hv : ws[k]? = some ws[k] := List.getElem?_eq_getElem hfilled
  obtain ⟨hnoRef, us, hread⟩ : ReadDuring s actuals.length actual ws[k] := by
    rw [← (List.getElem?_eq_some_iff.mp hk).2]
    exact hws.get hbound hfilled
  have hcell := hnew (getElem?_filledCells hv)
  have hplain : (Cell.holding ws[k]).isReference = false := Cell.isReference_holding hnoRef
  have horigin : s'.origin ⟨s.heaps.size, k + 1⟩ = .ok ⟨s.heaps.size, k + 1⟩ :=
    originWithin_of_writableWithin _ (writable_of_plain hcell hplain)
  refine ⟨ws[k], ⟨s.heaps.size, k + 1⟩, ?_, ?_, value_of_origin horigin hcell⟩
  · rw [← value_withFilled hclosed (hactuals actual (List.mem_of_getElem? hk)), hread]
  · have hposition : ArrayHandle.position ⟨s.heaps.size, 0⟩ (Int64.ofNat k) = .ok k :=
      position_ofNat (by omega)
    rw [element?_eq hposition hcount, if_pos hbound]

end StoreM

end SlotMachine
