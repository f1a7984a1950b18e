import SlotMachine.Proofs.Store.Walk
import Mathlib.Tactic.IntervalCases

/-!
# Binding and resolution

A binding redirects one slot. It is refused when the target is the slot itself or when the walk from
the target stops there; a slot that the walk merely passes is not noticed, and neither is the length
of the chains that come about. This file says exactly when an accepted binding leaves every walk
ending: the walk from the target must not come past the slot, and no chain through the slot may
reach the limit.
-/

namespace SlotMachine

namespace StoreM

variable {s s' : Store}

/-- A bound cell is a reference. -/
theorem isReference_of_boundTags {slot target : Slot} {c : Cell} {binding : Binding}
    {referent : Tag} {tags : List Tag} {fixed : Bool}
    (h : boundTags slot c binding referent = .ok tags) :
    (⟨tags, fixed, .ref target⟩ : Cell).isReference = true := by
  unfold boundTags at h
  split at h
  · cases h
  · split at h
    · rename_i href
      cases hcheck : checkReferent (Cell.outer c.innerTags) referent with
      | error e => simp [hcheck, Except.map] at h
      | ok _ =>
        cases binding with
        | mutable =>
          obtain rfl : c.tags = tags := by simpa [hcheck, Except.map] using h
          exact href
        | const =>
          obtain rfl : Tag.const :: c.innerTags = tags := by simpa [hcheck, Except.map] using h
          rfl
    · split at h
      · cases h
      · obtain rfl : [binding.tag, Tag.untyped] = tags := by simpa using h
        cases binding <;> rfl

/-- A slot is never bound to itself. -/
theorem bind_self (slot : Slot) (binding : Binding) (s : Store) :
    bind slot slot binding s = .error (.referenceCycle slot.index) s := by
  unfold bind
  rw [if_pos rfl]
  rfl

/-- A slot is never bound where the walk from the target stops at it. -/
theorem bind_of_origin {slot target : Slot} (binding : Binding)
    (horigin : s.origin target = .ok slot) :
    bind slot target binding s = .error (.referenceCycle slot.index) s := by
  by_cases heq : slot = target
  · rw [← heq, bind_self]
  · unfold bind
    rw [if_neg heq]
    dsimp only
    rw [ask_bind_of_ok horigin, if_pos rfl]
    rfl

/-- A binding is accepted exactly if the target resolves to another slot and the cell may become a
reference to it; then that cell alone is replaced. -/
theorem bind_eq_ok_iff {slot target : Slot} {binding : Binding} :
    bind slot target binding s = .ok () s' ↔
      slot ≠ target ∧ ∃ referent referentCell c tags,
        s.origin target = .ok referent ∧ referent ≠ slot ∧ s.cell referent = .ok referentCell ∧
        s.cell slot = .ok c ∧ boundTags slot c binding referentCell.tag = .ok tags ∧
        s' = s.setCell slot ⟨tags, c.fixed, .ref target⟩ := by
  constructor
  · intro h
    have hne : slot ≠ target := by
      rintro rfl
      rw [bind_self] at h
      cases h
    unfold bind at h
    rw [if_neg hne] at h
    dsimp only at h
    rw [Action.bind_eq_ok_iff] at h
    obtain ⟨referent, s₁, hreferent, h⟩ := h
    obtain ⟨horigin, rfl⟩ := ask_eq_ok_iff.mp hreferent
    have hother : referent ≠ slot := by
      rintro rfl
      rw [if_pos rfl] at h
      cases h
    rw [if_neg hother] at h
    simp only [Action.bind_eq_ok_iff, ask_eq_ok_iff, replace_eq_ok_iff] at h
    obtain ⟨referentCell, _, ⟨hreferentCell, rfl⟩, c, _, ⟨hc, rfl⟩, tags, _, ⟨htags, rfl⟩, _,
      hs'⟩ := h
    exact ⟨hne, referent, referentCell, c, tags, horigin, hother, hreferentCell, hc, htags, hs'⟩
  · rintro ⟨hne, referent, referentCell, c, tags, horigin, hother, hreferentCell, hc, htags, rfl⟩
    unfold bind
    rw [if_neg hne]
    dsimp only
    rw [ask_bind_of_ok horigin, if_neg hother]
    rw [ask_bind_of_ok hreferentCell]
    rw [ask_bind_of_ok hc]
    rw [ask_bind_of_ok htags]
    exact replace_eq_ok_iff.mpr ⟨⟨c, hc⟩, rfl⟩

/-- The tags of a binding are never refused as a cycle. -/
theorem boundTags_ne_referenceCycle (slot : Slot) (c : Cell) (binding : Binding) (referent : Tag)
    (index : Nat) : boundTags slot c binding referent ≠ .error (.referenceCycle index) := by
  unfold boundTags
  split
  · simp
  · split
    · unfold checkReferent
      by_cases hfits : Cell.outer c.innerTags = Tag.untyped ∨ referent = Tag.untyped ∨
          Cell.outer c.innerTags = referent
      · rw [if_pos hfits]
        simp [Except.map]
      · rw [if_neg hfits]
        simp [Except.map]
    · split <;> simp

/-- In a store that resolves, a binding is refused as a cycle in two cases only: the target is the
slot itself, or the walk from the target stops at the slot. -/
theorem bind_eq_referenceCycle_iff (hs : s.Resolves) {slot target : Slot} {binding : Binding} :
    (∃ index s', bind slot target binding s = .error (.referenceCycle index) s') ↔
      slot = target ∨ s.origin target = .ok slot := by
  constructor
  · rintro ⟨index, s', h⟩
    by_contra hneither
    rw [not_or] at hneither
    obtain ⟨hne, hother⟩ := hneither
    unfold bind at h
    rw [if_neg hne] at h
    dsimp only at h
    cases horigin : s.origin target with
    | error e =>
      rw [ask_bind_of_error horigin] at h
      cases h
      exact hs target index horigin
    | ok referent =>
      have hreferent : referent ≠ slot := fun heq => hother (by rw [horigin, heq])
      rw [ask_bind_of_ok horigin, if_neg hreferent] at h
      cases hreferentCell : s.cell referent with
      | error e =>
        rw [ask_bind_of_error hreferentCell] at h
        cases h
        exact Store.cell_ne_referenceCycle hreferentCell
      | ok referentCell =>
        rw [ask_bind_of_ok hreferentCell] at h
        cases hc : s.cell slot with
        | error e =>
          rw [ask_bind_of_error hc] at h
          cases h
          exact Store.cell_ne_referenceCycle hc
        | ok c =>
          rw [ask_bind_of_ok hc] at h
          cases htags : boundTags slot c binding referentCell.tag with
          | error e =>
            rw [ask_bind_of_error htags] at h
            cases h
            exact boundTags_ne_referenceCycle _ _ _ _ index htags
          | ok tags =>
            rw [ask_bind_of_ok htags] at h
            rw [replace_eq_ok_iff.mpr ⟨⟨c, hc⟩, rfl⟩] at h
            cases h
  · rintro (rfl | horigin)
    · exact ⟨_, s, bind_self slot binding s⟩
    · exact ⟨_, s, bind_of_origin binding horigin⟩

end StoreM

namespace Store

variable {s s' : Store} {slot target : Slot}

/-- The store after a binding: one slot leads to the target, and all other cells are as before. -/
structure Redirects (s s' : Store) (slot target : Slot) : Prop where
  /-- The bound slot leads to the target. -/
  next_slot : s'.next? slot = some target
  /-- No other cell has changed. -/
  cell_other : ∀ other, other ≠ slot → s'.cell other = s.cell other

/-- An accepted binding redirects its slot. -/
theorem redirects_of_bind {binding : Binding} (h : StoreM.bind slot target binding s = .ok () s') :
    s.Redirects s' slot target := by
  obtain ⟨-, referent, referentCell, c, tags, -, -, -, hc, htags, rfl⟩ := StoreM.bind_eq_ok_iff.mp h
  refine ⟨?_, fun other hother => ?_⟩
  · rw [next?, cell_setCell hc, if_pos rfl]
    simp [StoreM.isReference_of_boundTags htags]
  · rw [cell_setCell hc, if_neg hother]

namespace Redirects

/-- Away from the bound slot every reference leads where it led. -/
theorem next_other (hr : s.Redirects s' slot target) {other : Slot} (hother : other ≠ slot) :
    s'.next? other = s.next? other := by
  rw [next?, hr.cell_other other hother, next?]

/-- A walk is unchanged as long as it has not come to the bound slot. -/
theorem walk_eq (hr : s.Redirects s' slot target) {k : Nat} {x : Slot}
    (hbefore : ∀ j < k, s.walk j x ≠ some slot) : s'.walk k x = s.walk k x := by
  induction k generalizing x with
  | zero => rfl
  | succ k ih =>
    have hx : x ≠ slot := fun heq => hbefore 0 (by omega) (by rw [heq, walk])
    rw [walk, walk, hr.next_other hx]
    cases hy : s.next? x with
    | none => rfl
    | some y =>
      refine ih fun j hj hmeet => hbefore (j + 1) (by omega) ?_
      simpa [walk, hy] using hmeet

/-- A walk that came to the bound slot now goes on from the target. -/
theorem walk_through (hr : s.Redirects s' slot target) (hs : s.Resolves) {j : Nat} {x : Slot}
    (hx : s.walk j x = some slot) (k : Nat) : s'.walk (j + 1 + k) x = s'.walk k target := by
  have hfirst : s'.walk j x = some slot := by
    rw [hr.walk_eq fun i hi hmeet => absurd (hs.walk_injective hmeet hx) (by omega), hx]
  have hstep : s'.walk 1 slot = some target := by simp [walk, hr.next_slot]
  rw [Nat.add_assoc, walk_of_walk hfirst, walk_of_walk hstep]

/-- A walk that does not come past the bound slot is unchanged. -/
theorem walk_eq_of_not_meets (hr : s.Redirects s' slot target) {x : Slot}
    (hx : ¬ s.Meets x slot) (k : Nat) : s'.walk k x = s.walk k x :=
  hr.walk_eq fun j _ hmeet => hx ⟨j, hmeet⟩

/-- If every walk still ends, the walk from the target does not come past the slot. -/
theorem not_meets_of_resolves (hr : s.Redirects s' slot target) (hs : s.Resolves)
    (hs' : s'.Resolves) : ¬ s.Meets target slot := by
  rintro ⟨k, hk⟩
  have hclosed : s'.walk (k + 1 + 0) target = s'.walk 0 target := hr.walk_through hs hk 0
  exact hs'.walk_ne_self (by omega) hclosed

/-- If every walk still ends, so does every walk that leads through the slot and on from the
target. -/
theorem through_lt_of_resolves (hr : s.Redirects s' slot target) (hs : s.Resolves)
    (hs' : s'.Resolves) {x : Slot} {j k : Nat} (hx : s.walk j x = some slot)
    (hk : (s.walk k target).isSome) : j + 1 + k < maxChain := by
  have hmeets := hr.not_meets_of_resolves hs hs'
  have hwalk : (s'.walk (j + 1 + k) x).isSome := by
    rw [hr.walk_through hs hx, hr.walk_eq_of_not_meets hmeets]
    exact hk
  by_contra hlong
  have hlimit := isSome_walk_of_le (by omega : maxChain ≤ j + 1 + k) hwalk
  rw [resolves_iff.mp hs' x] at hlimit
  exact Bool.noConfusion hlimit

/-- Every walk still ends if the walk from the target does not come past the slot and no chain
through the slot reaches the limit. -/
theorem resolves_of_through_lt (hr : s.Redirects s' slot target) (hs : s.Resolves)
    (hmeets : ¬ s.Meets target slot)
    (hthrough : ∀ x j k, s.walk j x = some slot → (s.walk k target).isSome →
      j + 1 + k < maxChain) : s'.Resolves := by
  rw [resolves_iff]
  intro x
  by_cases hx : s.Meets x slot
  · obtain ⟨j, hj⟩ := hx
    have hroom : j + 1 + 0 < maxChain := hthrough x j 0 hj rfl
    obtain ⟨k, hk⟩ : ∃ k, maxChain = j + 1 + k := ⟨maxChain - (j + 1), by omega⟩
    rw [hk, hr.walk_through hs hj, hr.walk_eq_of_not_meets hmeets]
    by_contra hlong
    have hlt := hthrough x j k hj (Option.isSome_iff_ne_none.mpr hlong)
    omega
  · rw [hr.walk_eq_of_not_meets hx]
    exact resolves_iff.mp hs x

/-- Under the same conditions the bound slot has the origin of the target. -/
theorem origin_eq (hr : s.Redirects s' slot target) (hs : s.Resolves)
    (hmeets : ¬ s.Meets target slot)
    (hthrough : ∀ x j k, s.walk j x = some slot → (s.walk k target).isSome →
      j + 1 + k < maxChain) : s'.origin slot = s.origin target := by
  obtain ⟨k, y, hk, hwalk, hstop⟩ := exists_stop (resolves_iff.mp hs target)
  have hy : y ≠ slot := fun heq => hmeets ⟨k, by rw [hwalk, heq]⟩
  have hwalk' : s'.walk (0 + 1 + k) slot = some y := by
    rw [hr.walk_through hs rfl, hr.walk_eq_of_not_meets hmeets, hwalk]
  have hstop' : s'.next? y = none := by rw [hr.next_other hy, hstop]
  have hshort := hthrough slot 0 k rfl (by rw [hwalk]; rfl)
  rw [origin_of_stop hwalk hstop hk, origin_of_stop hwalk' hstop' hshort]
  rw [stop, stop, hr.cell_other y hy]

end Redirects

/-- In a store that resolves, a binding is refused as a cycle exactly if the target is the slot
itself or its walk stops at the slot. An accepted binding gives the slot the origin of the target
and leaves every walk ending exactly if the walk from the target does not come past the slot and
every walk through the slot, continued from the target, stays below the limit. -/
theorem bind_preserves_resolution_iff {s : Store} (hs : s.Resolves) (slot target : Slot)
    (binding : Binding) :
    ((∃ index s', StoreM.bind slot target binding s = .error (.referenceCycle index) s') ↔
      slot = target ∨ s.origin target = .ok slot) ∧
    ∀ s', StoreM.bind slot target binding s = .ok () s' →
      ((s'.origin slot = s.origin target ∧ s'.Resolves) ↔
        ¬ s.Meets target slot ∧
          ∀ x j k, s.walk j x = some slot → (s.walk k target).isSome → j + 1 + k < maxChain) := by
  refine ⟨StoreM.bind_eq_referenceCycle_iff hs, fun s' h => ?_⟩
  have hr := redirects_of_bind h
  constructor
  · rintro ⟨-, hs'⟩
    exact ⟨hr.not_meets_of_resolves hs hs', fun x j k => hr.through_lt_of_resolves hs hs'⟩
  · rintro ⟨hmeets, hthrough⟩
    exact ⟨hr.origin_eq hs hmeets hthrough, hr.resolves_of_through_lt hs hmeets hthrough⟩

/-- Four cells of which the third refers to the first and the first to the second. -/
def threeLinked : Store :=
  ⟨#[⟨.module, #[⟨[Tag.ref, Tag.untyped], false, .ref ⟨0, 1⟩⟩, Cell.free,
    ⟨[Tag.ref, Tag.untyped], false, .ref ⟨0, 0⟩⟩, Cell.free]⟩], #[], 16⟩

/-- Every walk in the store is over after two steps. -/
theorem walk_threeLinked (x : Slot) : threeLinked.walk 3 x = none := by
  by_cases hx : x.heap = 0 ∧ x.index < 4
  · obtain ⟨heap, index⟩ := x
    obtain ⟨rfl, hindex⟩ := hx
    dsimp only at hindex
    interval_cases index <;> decide
  · have hcell : threeLinked.next? x = none := by
      rw [not_and_or] at hx
      rcases hx with hheap | hindex
      · simp [next?, cell, heap, threeLinked, hheap]
      · by_cases hheap : x.heap = 0 <;> simp [next?, cell, heap, threeLinked, hheap, hindex]
    simp [walk, hcell]

/-- A step that is taken is one of the first two. -/
theorem lt_of_walk_threeLinked {k : Nat} {x : Slot} (h : (threeLinked.walk k x).isSome) :
    k < 3 := by
  by_contra hlong
  have hthree := isSome_walk_of_le (by omega : 3 ≤ k) h
  rw [walk_threeLinked] at hthree
  exact Bool.noConfusion hthree

/-- The store resolves. -/
theorem resolves_threeLinked : threeLinked.Resolves := by
  rw [resolves_iff]
  intro x
  by_contra hlong
  have hlt := lt_of_walk_threeLinked (Option.isSome_iff_ne_none.mpr hlong)
  exact absurd hlt (by decide)

/-- Binding the fourth cell to the third is accepted and leaves every walk ending. -/
theorem bind_threeLinked_open :
    threeLinked.Resolves ∧ ∃ s', StoreM.bind ⟨0, 3⟩ ⟨0, 2⟩ .mutable threeLinked = .ok () s' ∧
      s'.origin ⟨0, 3⟩ = .ok ⟨0, 1⟩ ∧ s'.Resolves := by
  refine ⟨resolves_threeLinked, _, rfl, ?_⟩
  refine ((bind_preserves_resolution_iff resolves_threeLinked ⟨0, 3⟩ ⟨0, 2⟩ .mutable).2 _
    rfl).mpr ⟨?_, fun x j k hj hk => ?_⟩
  · rintro ⟨k, hk⟩
    have hlt := lt_of_walk_threeLinked (by rw [hk]; rfl : (threeLinked.walk k ⟨0, 2⟩).isSome)
    revert hk
    interval_cases k <;> decide
  · have hjlt := lt_of_walk_threeLinked (by rw [hj]; rfl : (threeLinked.walk j x).isSome)
    have hklt := lt_of_walk_threeLinked hk
    unfold maxChain
    omega

/-- Binding the first cell to the third is accepted too, although the walk from the third comes past
the first: afterwards following references from the first cell does not end. -/
theorem bind_threeLinked_closed :
    threeLinked.Resolves ∧ ∃ s', StoreM.bind ⟨0, 0⟩ ⟨0, 2⟩ .mutable threeLinked = .ok () s' ∧
      s'.origin ⟨0, 0⟩ = .error (.referenceCycle 0) ∧ ¬ s'.Resolves := by
  refine ⟨resolves_threeLinked, threeLinked.setCell ⟨0, 0⟩ _, rfl, ?_⟩
  -- Two steps lead from the first cell back to it, and the limit is a multiple of two.
  have hloop : (threeLinked.setCell ⟨0, 0⟩ ⟨[Tag.ref, Tag.untyped], false, .ref ⟨0, 2⟩⟩).walk 2
      ⟨0, 0⟩ = some ⟨0, 0⟩ := by decide
  have hcycle := originWithin_of_long ⟨0, 0⟩ (by rw [walk_mul hloop 2048]; rfl)
  exact ⟨hcycle, fun hs' => hs' ⟨0, 0⟩ 0 hcycle⟩

end Store

end SlotMachine
