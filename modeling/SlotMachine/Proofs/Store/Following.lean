import SlotMachine.Proofs.Store.Constancy
import Mathlib.Tactic.Common

/-!
# What following references comes to

The two ways of following references, to read and to write, look at one walk and stop by different
rules. Reading finds the slot at which the walk stops, or says what is wrong there, or gives up after
4096 slots. Writing does the same unless one of these slots is const; then it is refused at the first
such slot.
-/

namespace SlotMachine.Store

variable {s : Store} {slot x y z : Slot} {r : Except Fault Slot} {k n : Nat}

/-- A cell is missing because its heap is not there or has too few cells. -/
theorem cell_eq_error_iff {e : Fault} :
    s.cell slot = .error e ↔
      (s.heaps[slot.heap]? = none ∧ e = .slotOutOfRange slot.heap 0 0) ∨
        ∃ h, s.heaps[slot.heap]? = some h ∧ h.cells.size ≤ slot.index ∧
          e = .slotOutOfRange slot.heap slot.index h.cells.size := by
  unfold cell heap
  cases s.heaps[slot.heap]? with
  | none => simp [eq_comm]
  | some h =>
    cases hc : h.cells[slot.index]? with
    | none =>
      have hsize := Array.getElem?_eq_none_iff.mp hc
      simp [hsize, eq_comm]
    | some c =>
      obtain ⟨hlt, -⟩ := Array.getElem?_eq_some_iff.mp hc
      simp [hlt]

/-- From every slot of a walk that holds a bound reference, the walk leads to its target. -/
theorem walk_succ_eq_some_iff :
    s.walk (k + 1) x = some z ↔
      ∃ y c, s.walk k x = some y ∧ s.cell y = .ok c ∧ (c.tag = Tag.ref ∨ c.tag = Tag.const) ∧
        c.value = .ref z := by
  have hone : ∀ y, s.walk 1 y = s.next? y := fun y => by
    cases hy : s.next? y <;> simp [walk, hy]
  rw [walk_add, Option.bind_eq_some_iff]
  constructor
  · rintro ⟨y, hy, hnext⟩
    obtain ⟨c, hc, href, hvalue⟩ := cell_of_next? ((hone y).symm.trans hnext)
    exact ⟨y, c, hy, hc, Cell.isReference_iff.mp href, hvalue⟩
  · rintro ⟨y, c, hy, hc, htag, hvalue⟩
    refine ⟨y, hy, (hone y).trans ?_⟩
    simp [next?, hc, Cell.isReference_iff.mpr htag, hvalue]

/-- A walk stops at `y` with this result. -/
inductive StopsWith (s : Store) (y : Slot) : Except Fault Slot → Prop where
  /-- The cell is no reference. -/
  | plain {c : Cell} : s.cell y = .ok c → c.isReference = false → s.StopsWith y (.ok y)
  /-- The cell is a reference that is not bound. -/
  | unbound {c : Cell} : s.cell y = .ok c → c.isReference = true → (∀ z, c.value ≠ .ref z) →
      s.StopsWith y (.error (.unboundReference y.index))
  /-- The heap of the slot is not there. -/
  | noHeap : s.heaps[y.heap]? = none → s.StopsWith y (.error (.slotOutOfRange y.heap 0 0))
  /-- The slot lies beyond the end of its heap. -/
  | noCell {h : Heap} : s.heaps[y.heap]? = some h → h.cells.size ≤ y.index →
      s.StopsWith y (.error (.slotOutOfRange y.heap y.index h.cells.size))

/-- A slot from which a walk does not go on gives the verdict on it. -/
theorem stopsWith_stop (hstop : s.next? y = none) : s.StopsWith y (s.stop y) := by
  unfold stop
  cases hc : s.cell y with
  | error e =>
    rcases cell_eq_error_iff.mp hc with ⟨hheap, rfl⟩ | ⟨h, hheap, hsize, rfl⟩
    · exact .noHeap hheap
    · exact .noCell hheap hsize
  | ok c =>
    by_cases href : c.isReference = true
    · have hunbound : ∀ z, c.value ≠ .ref z := fun z hvalue => by
        simp [next?, hc, href, hvalue] at hstop
      simpa [href] using StopsWith.unbound hc href hunbound
    · have hplain : c.isReference = false := by simpa using href
      simpa [hplain] using StopsWith.plain hc hplain

/-- Where a walk stops it does not go on, and the verdict is the result. -/
theorem StopsWith.verdict (h : s.StopsWith y r) : s.next? y = none ∧ s.stop y = r := by
  unfold next? stop
  cases h with
  | plain hc hplain => simp [hc, hplain]
  | @unbound c hc href hunbound =>
    rw [hc]
    cases hvalue : c.value with
    | ref z => exact absurd hvalue (hunbound z)
    | _ => simp [href, hvalue]
  | noHeap hheap => simp [cell_eq_error_iff.mpr (.inl ⟨hheap, rfl⟩)]
  | noCell hheap hsize => simp [cell_eq_error_iff.mpr (.inr ⟨_, hheap, hsize, rfl⟩)]

/-- What following references from `x` comes to, told by the first 4096 slots of the walk. -/
inductive ComesTo (s : Store) (x : Slot) : Except Fault Slot → Prop where
  /-- The walk stops at one of them. -/
  | stops {k : Nat} {y : Slot} {r : Except Fault Slot} : k ≤ 4095 → s.walk k x = some y →
      s.StopsWith y r → s.ComesTo x r
  /-- The walk goes on from every one of them. -/
  | endless : (∀ k ≤ 4095, (s.walk (k + 1) x).isSome) →
      s.ComesTo x (.error (.referenceCycle x.index))

/-- Looking for the origin has the result that the walk comes to, and no other. -/
theorem origin_eq_iff : s.origin x = r ↔ s.ComesTo x r := by
  constructor
  · rintro rfl
    by_cases hlong : (s.walk maxChain x).isSome
    · have hcycle : s.origin x = .error (.referenceCycle x.index) := originWithin_of_long x hlong
      rw [hcycle]
      exact .endless fun k hk => isSome_walk_of_le (Nat.succ_le_succ hk) hlong
    · obtain ⟨k, y, hk, hwalk, hstop⟩ := exists_stop (Option.not_isSome_iff_eq_none.mp hlong)
      rw [origin_of_stop hwalk hstop hk]
      exact .stops (Nat.le_of_lt_succ hk) hwalk (stopsWith_stop hstop)
  · intro h
    cases h with
    | stops hk hwalk hstops =>
      obtain ⟨hstop, rfl⟩ := hstops.verdict
      exact origin_of_stop hwalk hstop (Nat.lt_succ_of_le hk)
    | endless hlong => exact originWithin_of_long x (hlong 4095 le_rfl)

/-- The walk from a slot that has an origin stops there within the limit, at a cell that is no
reference. -/
theorem walk_of_origin {o : Slot} (h : s.origin x = .ok o) :
    ∃ k, k < maxChain ∧ s.walk k x = some o ∧
      ∃ c, s.cell o = .ok c ∧ c.isReference = false := by
  cases origin_eq_iff.mp h with
  | stops hk hwalk hstops =>
    cases hstops with
    | plain hc hplain => exact ⟨_, Nat.lt_succ_of_le hk, hwalk, _, hc, hplain⟩

/-- A walk that comes within the limit to a cell that is no reference has found the origin. -/
theorem origin_of_walk {o : Slot} {c : Cell} (hk : k < maxChain) (hwalk : s.walk k x = some o)
    (hc : s.cell o = .ok c) (hplain : c.isReference = false) : s.origin x = .ok o :=
  origin_eq_iff.mpr (.stops (Nat.le_of_lt_succ hk) hwalk (.plain hc hplain))

/-- A walk that comes to one slot twice never stops. -/
theorem isSome_walk_of_twice {j : Nat} (hjk : j < k) (hj : s.walk j x = some y)
    (hk : s.walk k x = some y) (n : Nat) : (s.walk n x).isSome := by
  have hrounds : s.walk (j + n * (k - j)) x = some y := by
    rw [walk_of_walk hj, walk_mul (walk_between hjk.le hj hk)]
  have hle : n ≤ j + n * (k - j) :=
    (Nat.le_mul_of_pos_right n (by omega)).trans (Nat.le_add_left _ _)
  exact isSome_walk_of_le hle (by rw [hrounds]; rfl)

/-- The walk from `x` comes to a const slot after so many steps. -/
def ConstAt (s : Store) (x : Slot) (k : Nat) (y : Slot) : Prop :=
  s.walk k x = some y ∧ ∃ c, s.cell y = .ok c ∧ c.tag = Tag.const

/-- The first steps of a walk are those of the walk from its second slot, counted from there. -/
theorem constAt_succ_iff (hnext : s.next? x = some z) :
    s.ConstAt x (k + 1) y ↔ s.ConstAt z k y := by
  simp [ConstAt, walk, hnext]

/-- Looking for the place of a write takes one step of the walk at a time, unless the slot is
const. -/
theorem writableWithin_succ (start : Slot) (n : Nat) (hplain : ∀ y, ¬ s.ConstAt x 0 y) :
    s.writableWithin start (n + 1) x =
      match s.next? x with
      | some y => s.writableWithin start n y
      | none => s.stop x := by
  rw [writableWithin, next?, stop]
  cases hc : s.cell x with
  | error e => rfl
  | ok c =>
    have hconst : c.tag ≠ Tag.const := fun htag => hplain x ⟨rfl, c, hc, htag⟩
    dsimp only
    rw [if_neg hconst]
    by_cases href : c.tag = Tag.ref
    · have hreference : c.isReference = true := Cell.isReference_iff.mpr (.inl href)
      rw [if_pos href, if_pos hreference, if_pos hreference]
      cases c.value <;> rfl
    · have hreference : ¬ c.isReference = true := fun h =>
        (Cell.isReference_iff.mp h).elim href hconst
      rw [if_neg href, if_neg hreference, if_neg hreference]

/-- While a walk meets no const slot, the two ways of following references do the same. -/
theorem writableWithin_eq_originWithin (start : Slot) (h : ∀ k < n, ∀ y, ¬ s.ConstAt x k y) :
    s.writableWithin start n x = s.originWithin start n x := by
  induction n generalizing x with
  | zero => rfl
  | succ n ih =>
    rw [writableWithin_succ start n (h 0 (Nat.zero_lt_succ n)), originWithin_succ]
    cases hnext : s.next? x with
    | none => rfl
    | some z =>
      exact ih fun k hk y hy => h (k + 1) (by omega) y ((constAt_succ_iff hnext).mpr hy)

/-- The first const slot of a walk keeps a write from going on. -/
theorem writableWithin_of_first_const (start : Slot) (hk : k < n) (hconst : s.ConstAt x k y)
    (hfirst : ∀ j < k, ∀ z, ¬ s.ConstAt x j z) :
    s.writableWithin start n x = .error (.constViolation y.index) := by
  obtain ⟨n, rfl⟩ : ∃ m, n = m + 1 := ⟨n - 1, by omega⟩
  induction k generalizing x n with
  | zero =>
    obtain ⟨hwalk, c, hc, htag⟩ := hconst
    obtain rfl : x = y := by simpa [walk] using hwalk
    simp [writableWithin, hc, htag]
  | succ k ih =>
    rw [writableWithin_succ start n (hfirst 0 (Nat.zero_lt_succ k))]
    cases hnext : s.next? x with
    | none => simp [ConstAt, walk, hnext] at hconst
    | some z =>
      obtain ⟨n, rfl⟩ : ∃ m, n = m + 1 := ⟨n - 1, by omega⟩
      refine ih ((constAt_succ_iff hnext).mp hconst) (fun j hj w hw => ?_) n (by omega)
      exact hfirst (j + 1) (by omega) w ((constAt_succ_iff hnext).mpr hw)

/-- A write that finds its place has met no const slot. -/
theorem not_constAt_of_writable {t : Slot} (h : s.writable x = .ok t) : ¬ s.ConstAt x k y := by
  rintro ⟨hwalk, c, hc, htag⟩
  rw [writable] at h
  rcases writableWithin_of_const hwalk hc htag with hlong | ⟨z, d, -, -, -, hviolation⟩
  · rw [hlong] at h
    cases h
  · rw [hviolation] at h
    cases h

/-- Following references has the result that the walk comes to within 4096 slots: the slot of the first
cell that is no reference, or the fault of an unbound reference, of a missing slot or of a walk that
does not stop, and a walk that comes to one slot twice does not stop. A write finds the same slot
exactly if the walk meets no const slot. It is refused at the first const slot if the walk comes to
one within 4096 slots, and otherwise has the same result as following references to read. -/
theorem references_followed_along_walk (s : Store) (x : Slot) :
    (∀ r, s.origin x = r ↔ s.ComesTo x r) ∧
    (∀ j k y, j < k → s.walk j x = some y → s.walk k x = some y →
      s.origin x = .error (.referenceCycle x.index)) ∧
    (∀ t, s.writable x = .ok t ↔ s.origin x = .ok t ∧ ∀ k y, ¬ s.ConstAt x k y) ∧
    (∀ k y, k ≤ 4095 → s.ConstAt x k y → (∀ j < k, ∀ z, ¬ s.ConstAt x j z) →
      s.writable x = .error (.constViolation y.index)) ∧
    ((∀ k ≤ 4095, ∀ y, ¬ s.ConstAt x k y) → s.writable x = s.origin x) := by
  have hsame : (∀ k ≤ 4095, ∀ y, ¬ s.ConstAt x k y) → s.writable x = s.origin x := fun hnone =>
    writableWithin_eq_originWithin x fun k hk => hnone k (Nat.le_of_lt_succ hk)
  refine ⟨fun r => origin_eq_iff, ?_, ?_, ?_, hsame⟩
  · intro j k y hjk hj hk
    exact origin_eq_iff.mpr (.endless fun n _ => isSome_walk_of_twice hjk hj hk (n + 1))
  · intro t
    constructor
    · intro h
      exact ⟨originWithin_of_writableWithin x h, fun k y => not_constAt_of_writable h⟩
    · rintro ⟨h, hnone⟩
      rw [hsame fun k _ => hnone k, h]
  · intro k y hk hconst hfirst
    exact writableWithin_of_first_const x (Nat.lt_succ_of_le hk) hconst hfirst

/-- So many references in a row, each bound to the next cell, and a free cell at the end. -/
def rowCells (n : Nat) : Array Cell :=
  Array.ofFn fun i : Fin (n + 1) =>
    if i.val < n then ⟨[Tag.ref, Tag.untyped], false, .ref ⟨0, i.val + 1⟩⟩ else Cell.free

/-- A store with such a row and nothing else. -/
def row (n : Nat) : Store :=
  ⟨#[⟨.module, rowCells n⟩], #[], 16⟩

theorem cell_row (h : k ≤ n) :
    (row n).cell ⟨0, k⟩ = .ok
      (if k < n then ⟨[Tag.ref, Tag.untyped], false, .ref ⟨0, k + 1⟩⟩ else Cell.free) := by
  refine cell_eq_ok_iff.mpr ⟨⟨.module, rowCells n⟩, rfl, ?_⟩
  dsimp only
  rw [rowCells, Array.getElem?_ofFn, dif_pos (Nat.lt_succ_of_le h)]

/-- The walk along the row comes to one cell after the other. -/
theorem walk_row (h : k ≤ n) : (row n).walk k ⟨0, 0⟩ = some ⟨0, k⟩ := by
  induction k with
  | zero => rfl
  | succ k ih =>
    have hc := cell_row (Nat.le_of_succ_le h)
    rw [if_pos (Nat.lt_of_succ_le h)] at hc
    exact walk_succ_eq_some_iff.mpr ⟨_, _, ih (Nat.le_of_succ_le h), hc, .inl rfl, rfl⟩

/-- A free cell, a const reference to it and a mutable one to that; and two references bound to each
other. -/
def loopedAndConst : Store :=
  ⟨#[⟨.module, #[Cell.free, ⟨[Tag.const, Tag.untyped], false, .ref ⟨0, 0⟩⟩,
    ⟨[Tag.ref, Tag.untyped], false, .ref ⟨0, 1⟩⟩, ⟨[Tag.ref, Tag.untyped], false, .ref ⟨0, 4⟩⟩,
    ⟨[Tag.ref, Tag.untyped], false, .ref ⟨0, 3⟩⟩]⟩], #[], 16⟩

/-- A row of 4095 references is followed to its end and one of 4096 is not. The two references bound
to each other lead nowhere. The reference to the const one is read through it, but a write is
refused there. -/
theorem followed_row_and_loop :
    (row 4095).origin ⟨0, 0⟩ = .ok ⟨0, 4095⟩ ∧
    (row 4096).origin ⟨0, 0⟩ = .error (.referenceCycle 0) ∧
    loopedAndConst.origin ⟨0, 3⟩ = .error (.referenceCycle 3) ∧
    loopedAndConst.origin ⟨0, 2⟩ = .ok ⟨0, 0⟩ ∧
    loopedAndConst.writable ⟨0, 2⟩ = .error (.constViolation 1) := by
  have hend : (row 4095).cell ⟨0, 4095⟩ = .ok Cell.free := cell_row le_rfl
  have hgoes : ∀ k ≤ 4095, ((row 4096).walk (k + 1) ⟨0, 0⟩).isSome := fun k hk => by
    rw [walk_row (Nat.succ_le_succ hk)]
    rfl
  have hmutable : ∀ j < 1, ∀ z, ¬ loopedAndConst.ConstAt ⟨0, 2⟩ j z := by
    rintro j hj z ⟨hwalk, c, hc, htag⟩
    obtain rfl : j = 0 := by omega
    obtain rfl := Option.some.inj hwalk
    obtain rfl := Except.ok.inj hc
    exact absurd htag (by decide)
  obtain ⟨hread, -, -, hconst, -⟩ := references_followed_along_walk loopedAndConst ⟨0, 2⟩
  obtain ⟨-, hloop, -⟩ := references_followed_along_walk loopedAndConst ⟨0, 3⟩
  refine ⟨?_, ?_, hloop 0 2 ⟨0, 3⟩ (by omega) rfl rfl, ?_, ?_⟩
  · exact ((references_followed_along_walk _ _).1 _).mpr
      (.stops le_rfl (walk_row le_rfl) (.plain hend rfl))
  · exact ((references_followed_along_walk _ _).1 _).mpr (.endless hgoes)
  · exact (hread _).mpr (.stops (k := 2) (by omega) rfl (.plain rfl rfl))
  · exact hconst 1 ⟨0, 1⟩ (by omega) ⟨rfl, _, rfl, rfl⟩ hmutable

end SlotMachine.Store
