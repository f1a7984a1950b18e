import SlotMachine.Image
import Mathlib.Data.List.Basic
import Mathlib.Data.List.Induction
import Mathlib.Data.List.Nodup
import Mathlib.Tactic.Common

/-!
# Shared constants

While an image is built, a constant that the pool has already is not added again, and cells and
classes may be added at any time. The pool is then made of the constants that were asked for, each
once, in the order of their first use, and the index that is given for a constant is its place in
that order. So an index given early stays good, and constants share one exactly if they are
identical. Doubles are identical if their bits are, although as numbers both zeros agree and a NaN
differs from itself.
-/

namespace SlotMachine

/-- The two values are one constant: doubles are compared by their bits, all other values as they
are everywhere. -/
def Value.Identical : Value → Value → Prop
  | .double a, .double b => a.bits = b.bits
  | v, w => v.sameAs w = true

/-- Identical values are equal. -/
theorem Value.identical_iff {v w : Value} : v.Identical w ↔ v = w := by
  unfold Identical
  split
  · rename_i a b
    rw [Value.double.injEq, Double.mk.injEq]
  · rename_i hother
    unfold sameAs
    split
    · exact (hother _ _ rfl rfl).elim
    · exact beq_iff_eq

/-- One call while an image is built. -/
inductive BuildCall where
  /-- Ask for the index of a constant. -/
  | constant (v : Value)
  /-- Add a heap cell. -/
  | slot (tags : List Tag)
  /-- Add a class. -/
  | cls (c : ClassDecl)

/-- The constants that are asked for, in order. -/
def BuildCall.constants : List BuildCall → List Value
  | [] => []
  | .constant v :: calls => v :: constants calls
  | .slot _ :: calls => constants calls
  | .cls _ :: calls => constants calls

section Distinct

variable {α : Type} [BEq α] [LawfulBEq α]

/-- One more element is distinct from the others or changes nothing. -/
theorem eraseDups_concat (xs : List α) (x : α) :
    (xs ++ [x]).eraseDups = if x ∈ xs then xs.eraseDups else xs.eraseDups ++ [x] := by
  rw [List.eraseDups_append]
  by_cases hx : x ∈ xs <;> simp [List.removeAll, hx, List.eraseDups_cons]

/-- Distinct elements occur once. -/
theorem nodup_eraseDups (xs : List α) : xs.eraseDups.Nodup := by
  induction xs using List.reverseRecOn with
  | nil => simp
  | append_singleton xs x ih =>
    rw [eraseDups_concat]
    split
    · exact ih
    · rename_i hx
      rw [← List.concat_eq_append, List.nodup_concat, List.mem_eraseDups]
      exact ⟨hx, ih⟩

/-- The last element keeps its place among the distinct ones when more elements come. -/
theorem idxOf_eraseDups_concat (xs : List α) (x : α) (more : List α) :
    (xs ++ [x]).eraseDups.idxOf x = (xs ++ x :: more).eraseDups.idxOf x := by
  have hmem : x ∈ (xs ++ [x]).eraseDups := List.mem_eraseDups.mpr (by simp)
  have hmore : (xs ++ [x] ++ more).eraseDups =
      (xs ++ [x]).eraseDups ++ (more.removeAll (xs ++ [x])).eraseDups := List.eraseDups_append
  rw [List.append_cons xs x more, hmore, List.idxOf_append_of_mem hmem]

end Distinct

namespace Image

variable {m : Image} {v : Value} {seen : List Value}

/-- Build further on an image. The answer has the indices that were given for constants, in order. -/
def build (m : Image) : List BuildCall → Except Refusal (List Nat × Image)
  | [] => .ok ([], m)
  | .constant v :: calls =>
    match m.intern v with
    | .ok (index, m) => (m.build calls).map fun (indices, m) => (index :: indices, m)
    | .error e => .error e
  | .slot tags :: calls => (m.addSlot tags).2.build calls
  | .cls c :: calls => (m.addClass c).build calls

/-- The pool holds the constants that were asked for, each once and in order of first use. -/
def Pools (m : Image) (seen : List Value) : Prop :=
  m.constants.toList = seen.eraseDups

/-- A constant that can be pooled is given its place among the distinct ones, and counts as asked
for afterwards. -/
theorem Pools.intern (hm : m.Pools seen) (hv : isPoolable v = true) :
    ∃ m', m.intern v = .ok ((seen ++ [v]).eraseDups.idxOf v, m') ∧ m'.Pools (seen ++ [v]) := by
  unfold Image.intern
  rw [if_pos hv, hm, eraseDups_concat]
  by_cases hseen : v ∈ seen
  · have hmem : v ∈ seen.eraseDups := List.mem_eraseDups.mpr hseen
    have hfound : seen.eraseDups.findIdx? (· == v) = some (seen.eraseDups.idxOf v) :=
      List.findIdx?_eq_some_of_exists ⟨v, hmem, beq_self_eq_true v⟩
    rw [hfound, if_pos hseen]
    refine ⟨m, rfl, ?_⟩
    rw [Pools, eraseDups_concat, if_pos hseen, hm]
  · have hmem : v ∉ seen.eraseDups := fun h => hseen (List.mem_eraseDups.mp h)
    have hnone : seen.eraseDups.findIdx? (· == v) = none := List.idxOf?_eq_none_iff.mpr hmem
    have hsize : m.constants.size = (seen.eraseDups ++ [v]).idxOf v := by
      rw [List.idxOf_append_of_notMem hmem, ← Array.length_toList, hm]
      simp
    rw [hnone, if_neg hseen, ← hsize]
    refine ⟨_, rfl, ?_⟩
    rw [Pools, eraseDups_concat, if_neg hseen, Array.toList_push, hm]

/-- Building is never refused when all constants can be pooled. Every constant that is asked for
counts, and the indices are the places among all of them. -/
theorem Pools.build {calls : List BuildCall} (hm : m.Pools seen)
    (hcalls : ∀ v ∈ BuildCall.constants calls, isPoolable v = true) :
    ∃ m', m'.Pools (seen ++ BuildCall.constants calls) ∧
      m.build calls = .ok ((BuildCall.constants calls).map
        (seen ++ BuildCall.constants calls).eraseDups.idxOf, m') := by
  induction calls generalizing m seen with
  | nil => exact ⟨m, by simpa [BuildCall.constants] using hm, rfl⟩
  | cons call calls ih =>
    cases call with
    | constant v =>
      obtain ⟨hv, hothers⟩ := List.forall_mem_cons.mp hcalls
      obtain ⟨m₁, hintern, hm₁⟩ := hm.intern hv
      obtain ⟨m', hm', hbuild⟩ := ih hm₁ hothers
      rw [List.append_assoc, List.singleton_append] at hm' hbuild
      refine ⟨m', hm', ?_⟩
      -- What is asked for later does not move the constant.
      rw [idxOf_eraseDups_concat seen v (BuildCall.constants calls)] at hintern
      rw [Image.build, hintern]
      simp only [hbuild, Except.map, BuildCall.constants, List.map_cons]
    | slot tags => exact ih (m := (m.addSlot tags).2) hm hcalls
    | cls c => exact ih (m := m.addClass c) hm hcalls

/-- A constant that was asked for stands at its place among the distinct ones. -/
theorem Pools.getElem?_idxOf (hm : m.Pools seen) (hv : v ∈ seen) :
    m.constants[seen.eraseDups.idxOf v]? = some v := by
  rw [← Array.getElem?_toList, hm]
  exact List.getElem?_idxOf (List.mem_eraseDups.mpr hv)

/-- Constants that come later are asked for later. -/
theorem constants_append (before later : List BuildCall) :
    BuildCall.constants (before ++ later) =
      BuildCall.constants before ++ BuildCall.constants later := by
  induction before with
  | nil => rfl
  | cons call before ih => cases call <;> simp [BuildCall.constants, ih]

/-- Let an image be built from nothing by any calls whose constants can be pooled. Then every call
is answered. The pool has the constants that were asked for, each once and in order of first use,
and no two of them are identical. Two answers are the same index exactly if the constants are
identical. And a constant stands at the index given for it, both in the pool of that time and in the
one of the end, whatever calls come later. -/
theorem constants_shared (calls : List BuildCall)
    (hcalls : ∀ v ∈ BuildCall.constants calls, isPoolable v = true) :
    ∃ indices m, empty.build calls = .ok (indices, m) ∧
      m.constants.toList = (BuildCall.constants calls).eraseDups ∧
      m.constants.toList.Pairwise (fun v w => ¬ v.Identical w) ∧
      indices.length = (BuildCall.constants calls).length ∧
      (∀ (j k : Nat) i i' v w, indices[j]? = some i → indices[k]? = some i' →
        (BuildCall.constants calls)[j]? = some v → (BuildCall.constants calls)[k]? = some w →
        (i = i' ↔ v.Identical w)) ∧
      ∀ before v later, calls = before ++ .constant v :: later →
        ∃ given i m₁ m₂, empty.build before = .ok (given, m₁) ∧ m₁.intern v = .ok (i, m₂) ∧
          indices[(BuildCall.constants before).length]? = some i ∧
          m₂.constants[i]? = some v ∧ m.constants[i]? = some v := by
  have hempty : empty.Pools [] := rfl
  obtain ⟨m, hm, hbuild⟩ := hempty.build hcalls
  rw [List.nil_append] at hm hbuild
  refine ⟨_, m, hbuild, hm, ?_, List.length_map _, ?_, ?_⟩
  · rw [hm]
    exact (nodup_eraseDups _).imp fun hne hsame => hne (Value.identical_iff.mp hsame)
  · intro j k i i' v w hi hi' hv hw
    rw [List.getElem?_map, hv] at hi
    rw [List.getElem?_map, hw] at hi'
    obtain rfl := Option.some.inj hi
    obtain rfl := Option.some.inj hi'
    have hmem : v ∈ (BuildCall.constants calls).eraseDups :=
      List.mem_eraseDups.mpr (List.mem_of_getElem? hv)
    rw [Value.identical_iff]
    exact List.idxOf_inj hmem
  · rintro before v later rfl
    rw [constants_append] at hcalls hm ⊢
    obtain ⟨m₁, hm₁, hbefore⟩ := hempty.build fun w hw =>
      hcalls w (List.mem_append_left _ hw)
    rw [List.nil_append] at hm₁ hbefore
    obtain ⟨m₂, hintern, hm₂⟩ := hm₁.intern (hcalls v (by simp [BuildCall.constants]))
    rw [idxOf_eraseDups_concat _ v (BuildCall.constants later)] at hintern
    have hlater : BuildCall.constants (.constant v :: later) = v :: BuildCall.constants later := rfl
    rw [hlater] at hm ⊢
    refine ⟨_, _, m₁, m₂, hbefore, hintern, by simp, ?_, hm.getElem?_idxOf (by simp)⟩
    rw [← idxOf_eraseDups_concat]
    exact hm₂.getElem?_idxOf (by simp)

/-- Calls for both zeros, for two NaNs with different bits and for numbers and texts that look alike,
some of them twice, with a cell and a class in between. -/
def lookAlikes : List BuildCall :=
  [.constant (.double Double.zero), .slot [Tag.long], .constant (.double ⟨0x8000000000000000⟩),
    .constant (.double Double.nan), .constant (.long 1), .cls ⟨"Foo", [], []⟩,
    .constant (.double Double.nan), .constant (.double ⟨0x7ff8000000000001⟩), .constant (.byte 1),
    .constant (.double Double.zero), .constant (.text "1"), .constant (.long 1)]

/-- A zero, a NaN and a number that come again are given the index that they had, and all others have
an index of their own. -/
theorem constants_lookAlikes :
    (∀ v ∈ BuildCall.constants lookAlikes, isPoolable v = true) ∧
    ∃ m, empty.build lookAlikes = .ok ([0, 1, 2, 3, 2, 4, 5, 0, 6, 3], m) ∧
      m.constants.toList.Pairwise (fun v w => ¬ v.Identical w) ∧
      m.constants[1]? = some (.double ⟨0x8000000000000000⟩) := by
  have hpoolable : ∀ v ∈ BuildCall.constants lookAlikes, isPoolable v = true := by decide
  obtain ⟨indices, m, hbuild, hpool, hdistinct, -⟩ := constants_shared lookAlikes hpoolable
  have hindices : (empty.build lookAlikes).map Prod.fst = .ok [0, 1, 2, 3, 2, 4, 5, 0, 6, 3] := by
    decide +kernel
  rw [hbuild] at hindices
  obtain rfl : indices = [0, 1, 2, 3, 2, 4, 5, 0, 6, 3] := Except.ok.inj hindices
  refine ⟨hpoolable, m, hbuild, hdistinct, ?_⟩
  rw [← Array.getElem?_toList, hpool]
  decide +kernel

end Image

end SlotMachine
