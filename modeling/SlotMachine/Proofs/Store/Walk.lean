import SlotMachine.Store.Reference
import SlotMachine.Proofs.Store.Cells
import Mathlib.Tactic.Common

/-!
# Walks along references

Following references from a slot is a walk: each bound reference leads one step further, and the
walk stops at the first cell that is not a bound reference. The origin of a slot is the verdict on
the cell where its walk stops, as long as the walk is shorter than the limit.
-/

namespace SlotMachine.Store

variable {s s' : Store} {slot target x y z : Slot} {j k n : Nat}

/-- The slot to which a bound reference leads. -/
def next? (s : Store) (slot : Slot) : Option Slot :=
  match s.cell slot with
  | .error _ => none
  | .ok c =>
    if c.isReference then
      match c.value with
      | .ref next => some next
      | _ => none
    else none

/-- The slot reached from another one after following this many bound references. -/
def walk (s : Store) : Nat → Slot → Option Slot
  | 0, slot => some slot
  | n + 1, slot => (s.next? slot).bind (s.walk n)

/-- The verdict on a slot at which a walk stops: the slot itself, unless it is missing or an unbound
reference. -/
def stop (s : Store) (slot : Slot) : Except Fault Slot :=
  match s.cell slot with
  | .error e => .error e
  | .ok c => if c.isReference then .error (.unboundReference slot.index) else .ok slot

/-- The walk from one slot comes past another one. -/
def Meets (s : Store) (x y : Slot) : Prop :=
  ∃ k, s.walk k x = some y

/-- Following references ends, from whatever slot one starts. -/
def Resolves (s : Store) : Prop :=
  ∀ slot index, s.origin slot ≠ .error (.referenceCycle index)

/-- A slot from which a walk goes on is a bound reference. -/
theorem cell_of_next? (h : s.next? slot = some y) :
    ∃ c, s.cell slot = .ok c ∧ c.isReference = true ∧ c.value = .ref y := by
  unfold next? at h
  cases hc : s.cell slot with
  | error e => simp [hc] at h
  | ok c =>
    simp only [hc] at h
    split at h
    · rename_i href
      cases hvalue : c.value with
      | ref next =>
        simp only [hvalue, Option.some.injEq] at h
        exact ⟨c, rfl, href, by rw [← h]; exact hvalue⟩
      | _ => simp [hvalue] at h
    · cases h

/-- What a slot meets after one step, it meets. -/
theorem Meets.of_next? (hnext : s.next? x = some y) (h : s.Meets y z) : s.Meets x z := by
  obtain ⟨k, hk⟩ := h
  exact ⟨k + 1, by simp [walk, hnext, hk]⟩

/-- A walk that stops at its start meets nothing else. -/
theorem eq_of_meets (hstop : s.next? x = none) (h : s.Meets x y) : y = x := by
  obtain ⟨k, hk⟩ := h
  cases k with
  | zero => exact (Option.some.inj hk).symm
  | succ k => simp [walk, hstop] at hk

/-- A walk that goes on meets its start and what it meets after one step. -/
theorem eq_or_meets (hnext : s.next? x = some y) (h : s.Meets x z) : z = x ∨ s.Meets y z := by
  obtain ⟨k, hk⟩ := h
  cases k with
  | zero => exact .inl (Option.some.inj hk).symm
  | succ k => exact .inr ⟨k, by simpa [walk, hnext] using hk⟩

/-- A walk can be split at any point. -/
theorem walk_add (s : Store) (j k : Nat) (x : Slot) :
    s.walk (j + k) x = (s.walk j x).bind (s.walk k) := by
  induction j generalizing x with
  | zero => simp [walk]
  | succ j ih =>
    rw [Nat.succ_add]
    cases hx : s.next? x with
    | none => simp [walk, hx]
    | some y => simp [walk, hx, ih]

/-- The rest of a walk is a walk from where its first part ends. -/
theorem walk_of_walk (h : s.walk j x = some y) : s.walk (j + k) x = s.walk k y := by
  simp [walk_add, h]

/-- Between two slots of a walk lies the walk from the first to the second. -/
theorem walk_between (hjk : j ≤ k) (hj : s.walk j x = some y) (hk : s.walk k x = some z) :
    s.walk (k - j) y = some z := by
  rw [← walk_of_walk hj, Nat.add_sub_cancel' hjk, hk]

/-- A walk that returns to its start can be taken any number of times. -/
theorem walk_mul (hloop : s.walk k x = some x) (rounds : Nat) :
    s.walk (rounds * k) x = some x := by
  induction rounds with
  | zero => simp [walk]
  | succ rounds ih => rw [Nat.succ_mul, walk_of_walk ih, hloop]

/-- A walk that can go on has a slot at every earlier step. -/
theorem isSome_walk_of_le (hjk : j ≤ k) (h : (s.walk k x).isSome) : (s.walk j x).isSome := by
  obtain ⟨i, rfl⟩ := Nat.exists_eq_add_of_le hjk
  rw [walk_add] at h
  cases hj : s.walk j x with
  | none => simp [hj] at h
  | some y => rfl

/-- A walk that is over at some step stopped at a slot before it. -/
theorem exists_stop (h : s.walk n x = none) :
    ∃ k y, k < n ∧ s.walk k x = some y ∧ s.next? y = none := by
  induction n generalizing x with
  | zero => simp [walk] at h
  | succ n ih =>
    cases hx : s.next? x with
    | none => exact ⟨0, x, by omega, rfl, hx⟩
    | some z =>
      have hz : s.walk n z = none := by simpa [walk, hx] using h
      obtain ⟨k, y, hk, hwalk, hstop⟩ := ih hz
      exact ⟨k + 1, y, by omega, by simp [walk, hx, hwalk], hstop⟩

/-- Looking for the origin takes one step of the walk at a time. -/
theorem originWithin_succ (s : Store) (start : Slot) (n : Nat) (x : Slot) :
    s.originWithin start (n + 1) x =
      match s.next? x with
      | some y => s.originWithin start n y
      | none => s.stop x := by
  rw [originWithin, next?, stop]
  cases s.cell x with
  | error e => rfl
  | ok c =>
    by_cases href : c.isReference = true
    · cases hv : c.value <;> simp [href, hv]
    · simp [href]

/-- A walk comes past the origin. -/
theorem meets_of_originWithin {start : Slot} (h : s.originWithin start n x = .ok y) :
    s.Meets x y := by
  induction n generalizing x with
  | zero => cases h
  | succ n ih =>
    rw [originWithin_succ] at h
    cases hnext : s.next? x with
    | some z =>
      simp only [hnext] at h
      exact (ih h).of_next? hnext
    | none =>
      simp only [hnext] at h
      unfold stop at h
      split at h
      · cases h
      · split at h <;> cases h
        exact ⟨0, rfl⟩

/-- A walk that leads to an origin finds a cell at every slot. -/
theorem exists_cell_of_meets {start origin : Slot}
    (h : s.originWithin start n x = .ok origin) (hxy : s.Meets x y) : ∃ c, s.cell y = .ok c := by
  obtain ⟨k, hk⟩ := hxy
  induction n generalizing x k with
  | zero => cases h
  | succ n ih =>
    cases k with
    | zero =>
      obtain rfl : x = y := by simpa [walk] using hk
      rw [originWithin] at h
      cases hc : s.cell x with
      | error e => simp [hc] at h
      | ok c => exact ⟨c, rfl⟩
    | succ k =>
      obtain ⟨z, hz, hrest⟩ := Option.bind_eq_some_iff.mp hk
      rw [originWithin_succ, hz] at h
      exact ih h k hrest

/-- A walk that stops within the limit decides the origin. -/
theorem originWithin_of_stop (start : Slot) (hwalk : s.walk k x = some y)
    (hstop : s.next? y = none) (hk : k < n) : s.originWithin start n x = s.stop y := by
  obtain ⟨n, rfl⟩ : ∃ m, n = m + 1 := ⟨n - 1, by omega⟩
  induction k generalizing x n with
  | zero =>
    obtain rfl : x = y := by simpa [walk] using hwalk
    simp [originWithin_succ, hstop]
  | succ k ih =>
    rw [originWithin_succ]
    cases hx : s.next? x with
    | none => simp [walk, hx] at hwalk
    | some z =>
      obtain ⟨n, rfl⟩ : ∃ m, n = m + 1 := ⟨n - 1, by omega⟩
      exact ih (by simpa [walk, hx] using hwalk) n (by omega)

/-- A walk that goes on beyond the limit counts as a cycle. -/
theorem originWithin_of_long (start : Slot) (h : (s.walk n x).isSome) :
    s.originWithin start n x = .error (.referenceCycle start.index) := by
  induction n generalizing x with
  | zero => rfl
  | succ n ih =>
    rw [originWithin_succ]
    cases hx : s.next? x with
    | none => simp [walk, hx] at h
    | some z => exact ih (by simpa [walk, hx] using h)

/-- The origin is the verdict on the slot at which the walk stops. -/
theorem origin_of_stop (hwalk : s.walk k x = some y) (hstop : s.next? y = none)
    (hk : k < maxChain) : s.origin x = s.stop y :=
  originWithin_of_stop x hwalk hstop hk

/-- A missing cell is no cycle. -/
theorem cell_ne_referenceCycle {index : Nat} : s.cell x ≠ .error (.referenceCycle index) := by
  unfold cell heap
  cases s.heaps[x.heap]? with
  | none => simp
  | some h => cases hc : h.cells[x.index]? <;> simp [hc]

/-- A missing cell and an unbound reference are no cycles. -/
theorem stop_ne_referenceCycle (index : Nat) : s.stop y ≠ .error (.referenceCycle index) := by
  unfold stop
  cases hc : s.cell y with
  | error e =>
    rintro ⟨⟩
    exact cell_ne_referenceCycle hc
  | ok c => dsimp only; split <;> simp

/-- A store resolves exactly if every walk is over within the limit. -/
theorem resolves_iff : s.Resolves ↔ ∀ x, s.walk maxChain x = none := by
  constructor
  · intro hs x
    by_contra hlong
    exact hs x x.index (originWithin_of_long x (Option.isSome_iff_ne_none.mpr hlong))
  · intro hshort x index
    obtain ⟨k, y, hk, hwalk, hstop⟩ := exists_stop (hshort x)
    rw [origin_of_stop hwalk hstop hk]
    exact stop_ne_referenceCycle index

/-- In a store that resolves, no walk returns to a slot. -/
theorem Resolves.walk_ne_self (hs : s.Resolves) (hk : 0 < k) : s.walk k x ≠ some x := by
  intro hloop
  have hle : maxChain ≤ maxChain * k := Nat.le_mul_of_pos_right _ hk
  have hlong := isSome_walk_of_le hle (by rw [walk_mul hloop]; rfl)
  rw [resolves_iff.mp hs x] at hlong
  exact Bool.noConfusion hlong

/-- In a store that resolves, a walk comes past a slot at most once. -/
theorem Resolves.walk_injective (hs : s.Resolves) (hj : s.walk j x = some y)
    (hk : s.walk k x = some y) : j = k := by
  wlog hjk : j ≤ k generalizing j k
  · exact (this hk hj (by omega)).symm
  by_contra hne
  exact hs.walk_ne_self (by omega) (walk_between hjk hj hk)

end SlotMachine.Store
