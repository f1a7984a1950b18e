import SlotMachine.Proofs.Store.Access
import Mathlib.Tactic.Common

/-!
# What a write changes

A write follows the references from its slot and replaces the cell in which it lands. That cell is
no reference, neither before nor after, and references are all that a walk looks at. So a write
leads no walk astray, whatever the store looks like, and what it stores is read through exactly
those slots whose walks end at the cell.
-/

namespace SlotMachine

/-- What a cell becomes when a value is written to it. -/
inductive Cell.Takes (c : Cell) (v : Value) : Cell → Prop where
  /-- An undeclared cell takes on the type of the value. -/
  | undeclared : c.fixed = false → c.Takes v (Cell.holding v)
  /-- A declared cell of the value's type keeps its type. -/
  | declared : c.fixed = true → c.tag = v.tag → c.Takes v { c with value := v }
  /-- A declared cell of another numeric kind holds the converted number. -/
  | converted {w : Value} {lossy : Bool} : c.fixed = true → c.tag ≠ v.tag →
      c.tag.isNumeric = true → v.convert? c.tag = some (w, lossy) →
      c.Takes v { c with value := w }

namespace Cell

variable {c c' : Cell} {v : Value}

/-- A cell is a reference exactly if its outer tag is one of the two. -/
theorem isReference_iff : c.isReference = true ↔ c.tag = Tag.ref ∨ c.tag = Tag.const := by
  simp [isReference, Tag.isReference]

/-- A cell that took on the type of a value is a reference only if the value is one. -/
theorem isReference_holding (hv : ∀ target, v ≠ .ref target) : (holding v).isReference = false := by
  cases v with
  | ref target => exact absurd rfl (hv target)
  | _ => rfl

/-- Writing does not change whether a type was declared. -/
theorem Takes.fixed_eq (h : c.Takes v c') : c'.fixed = c.fixed := by
  cases h with
  | undeclared hfixed => exact hfixed.symm
  | declared _ _ => rfl
  | converted _ _ _ _ => rfl

/-- Writing keeps a declared type. -/
theorem Takes.tags_eq (h : c.Takes v c') (hfixed : c.fixed = true) : c'.tags = c.tags := by
  cases h with
  | undeclared hfree =>
    rw [hfree] at hfixed
    cases hfixed
  | declared _ _ => rfl
  | converted _ _ _ _ => rfl

/-- Writing turns no cell into a reference, unless the value is one. -/
theorem Takes.isReference_eq (h : c.Takes v c') (hv : ∀ target, v ≠ .ref target)
    (hc : c.isReference = false) : c'.isReference = false := by
  cases h with
  | undeclared _ => exact isReference_holding hv
  | declared _ _ => exact hc
  | converted _ _ _ _ => exact hc

end Cell

namespace Store

variable {s s' s₁ : Store} {slot t x y : Slot} {c c' : Cell}

/-- The store as it is, or with one more warning. -/
def Warned (s s₁ : Store) : Prop :=
  s₁ = s ∨ ∃ w, s₁ = s.warn w

/-- Two stores agree but for the cell at one slot. -/
structure DiffersOnlyAt (s s' : Store) (t : Slot) : Prop where
  /-- Every other slot has the cell it had, or is missing as it was. -/
  cell_other : ∀ x, x ≠ t → s'.cell x = s.cell x
  /-- The heaps are the same ones. -/
  kind_eq : ∀ id, s'.kind? id = s.kind? id
  /-- No heap has grown or shrunk. -/
  size_eq : ∀ id, s'.heapSize id = s.heapSize id
  /-- Arrays are limited as before. -/
  maxLen_eq : s'.maxLen = s.maxLen

/-- Stores that do not differ differ at most in one cell. -/
theorem DiffersOnlyAt.refl (s : Store) (t : Slot) : s.DiffersOnlyAt s t :=
  ⟨fun _ _ => rfl, fun _ => rfl, fun _ => rfl, rfl⟩

/-- Changes of one cell add up. -/
theorem DiffersOnlyAt.trans (h : s.DiffersOnlyAt s₁ t) (h' : s₁.DiffersOnlyAt s' t) :
    s.DiffersOnlyAt s' t where
  cell_other x hx := (h'.cell_other x hx).trans (h.cell_other x hx)
  kind_eq id := (h'.kind_eq id).trans (h.kind_eq id)
  size_eq id := (h'.size_eq id).trans (h.size_eq id)
  maxLen_eq := h'.maxLen_eq.trans h.maxLen_eq

/-- A warning changes no cell. -/
theorem Warned.cell_eq (h : s.Warned s₁) (x : Slot) : s₁.cell x = s.cell x := by
  rcases h with rfl | ⟨w, rfl⟩ <;> rfl

/-- Replacing a cell leaves everything else alone. -/
theorem differsOnlyAt_setCell (hc : s.cell t = .ok c) (new : Cell) :
    s.DiffersOnlyAt (s.setCell t new) t where
  cell_other x hx := by rw [cell_setCell hc, if_neg hx]
  kind_eq id := kind?_modifyHeap s t.heap id _
  size_eq id := by
    unfold heapSize heap setCell
    rw [heaps_modifyHeap]
    by_cases hid : id = t.heap
    · rw [if_pos hid]
      cases s.heaps[id]? <;> simp [Except.map]
    · rw [if_neg hid]
  maxLen_eq := rfl

/-- So does replacing it after a warning. -/
theorem Warned.differsOnlyAt (h : s.Warned s₁) (hc : s.cell t = .ok c) (new : Cell) :
    s.DiffersOnlyAt (s₁.setCell t new) t := by
  rcases h with rfl | ⟨w, rfl⟩
  · exact differsOnlyAt_setCell hc new
  · have hset := differsOnlyAt_setCell (s := s.warn w) hc new
    exact ⟨hset.cell_other, hset.kind_eq, hset.size_eq, hset.maxLen_eq⟩

/-- A walk finds the same at a slot of both stores: the same cell, or cells that are no references. -/
def SameRoad (s s' : Store) (x : Slot) : Prop :=
  s'.cell x = s.cell x ∨ ∃ c c', s.cell x = .ok c ∧ s'.cell x = .ok c' ∧
    c.isReference = false ∧ c'.isReference = false

/-- A walk finds the same at every slot of both stores. -/
def SameRoads (s s' : Store) : Prop :=
  ∀ x, s.SameRoad s' x

namespace SameRoad

/-- The walk goes on to the same slot, or stops. -/
theorem next?_eq (h : s.SameRoad s' x) : s'.next? x = s.next? x := by
  unfold next?
  rcases h with heq | ⟨c, c', hc, hc', hplain, hplain'⟩
  · rw [heq]
  · simp [hc, hc', hplain, hplain']

/-- Where the walk stops, the verdict is the same. -/
theorem stop_eq (h : s.SameRoad s' x) : s'.stop x = s.stop x := by
  unfold stop
  rcases h with heq | ⟨c, c', hc, hc', hplain, hplain'⟩
  · rw [heq]
  · simp [hc, hc', hplain, hplain']

end SameRoad

/-- Following references takes the same steps if it finds the same on its walk. -/
theorem originWithin_congr (start : Slot) (n : Nat) (h : ∀ y, s.Meets x y → s.SameRoad s' y) :
    s'.originWithin start n x = s.originWithin start n x := by
  induction n generalizing x with
  | zero => rfl
  | succ n ih =>
    have hx := h x ⟨0, rfl⟩
    rw [originWithin_succ, originWithin_succ, hx.next?_eq, hx.stop_eq]
    cases hnext : s.next? x with
    | none => rfl
    | some y => exact ih fun z hz => h z (hz.of_next? hnext)

/-- A slot whose walk finds the same has the origin it had, or none for the same reason. -/
theorem origin_congr (h : ∀ y, s.Meets x y → s.SameRoad s' y) : s'.origin x = s.origin x :=
  originWithin_congr x maxChain h

namespace SameRoads

/-- Following references that may be written through takes the same steps. -/
theorem writableWithin_eq (h : s.SameRoads s') (start : Slot) (n : Nat) (x : Slot) :
    s'.writableWithin start n x = s.writableWithin start n x := by
  induction n generalizing x with
  | zero => rfl
  | succ n ih =>
    rw [writableWithin, writableWithin]
    rcases h x with heq | ⟨c, c', hc, hc', hplain, hplain'⟩
    · rw [heq]
      cases s.cell x with
      | error e => rfl
      | ok c =>
        dsimp only
        split
        · rfl
        · split
          · cases hvalue : c.value with
            | ref next => exact ih next
            | _ => rfl
          · rfl
    · have hneither : ∀ {c : Cell}, c.isReference = false → c.tag ≠ Tag.const ∧ c.tag ≠ Tag.ref := by
        intro c hplain
        constructor <;> intro htag <;> simp [Cell.isReference, htag, Tag.isReference] at hplain
      rw [hc, hc']
      simp [hneither hplain, hneither hplain']

/-- Every slot has the origin it had, or none for the same reason. -/
theorem origin_eq (h : s.SameRoads s') (x : Slot) : s'.origin x = s.origin x :=
  origin_congr fun y _ => h y

/-- Every write lands where it landed, or is refused for the same reason. -/
theorem writable_eq (h : s.SameRoads s') (x : Slot) : s'.writable x = s.writable x :=
  h.writableWithin_eq x maxChain x

end SameRoads

/-- A write lands in a cell that is no reference. -/
theorem cell_of_writableWithin {start : Slot} {n : Nat}
    (h : s.writableWithin start n x = .ok t) : ∃ c, s.cell t = .ok c ∧ c.isReference = false := by
  induction n generalizing x with
  | zero => simp [writableWithin] at h
  | succ n ih =>
    rw [writableWithin] at h
    cases hc : s.cell x with
    | error e => simp [hc] at h
    | ok c =>
      simp only [hc] at h
      split at h
      · cases h
      · rename_i hconst
        split at h
        · cases hvalue : c.value with
          | ref next =>
            simp only [hvalue] at h
            exact ih h
          | _ => simp [hvalue] at h
        · rename_i href
          cases h
          refine ⟨c, hc, ?_⟩
          by_contra hreference
          rcases Cell.isReference_iff.mp (by simpa using hreference) with htag | htag
          · exact href htag
          · exact hconst htag

/-- A write lands at the origin. -/
theorem originWithin_of_writableWithin {start : Slot} {n : Nat} (start' : Slot)
    (h : s.writableWithin start n x = .ok y) : s.originWithin start' n x = .ok y := by
  induction n generalizing x with
  | zero => cases h
  | succ n ih =>
    rw [writableWithin] at h
    rw [originWithin]
    cases hc : s.cell x with
    | error e => simp [hc] at h
    | ok c =>
      simp only [hc] at h ⊢
      split at h
      · cases h
      · rename_i hconst
        split at h
        · rename_i href
          rw [if_pos (Cell.isReference_iff.mpr (.inl href))]
          cases hvalue : c.value with
          | ref next =>
            simp only [hvalue] at h
            exact ih h
          | _ => simp [hvalue] at h
        · rename_i href
          have hplain : ¬ c.isReference = true := fun hreference =>
            (Cell.isReference_iff.mp hreference).elim href hconst
          rw [if_neg hplain]
          exact h

/-- A cell that changes without being a reference misleads no walk. -/
theorem DiffersOnlyAt.sameRoads (h : s.DiffersOnlyAt s' t) (hc : s.cell t = .ok c)
    (hc' : s'.cell t = .ok c') (hplain : c.isReference = false) (hplain' : c'.isReference = false) :
    s.SameRoads s' := by
  intro x
  by_cases hx : x = t
  · rw [hx]
    exact .inr ⟨c, c', hc, hc', hplain, hplain'⟩
  · exact .inl (h.cell_other x hx)

/-- What is read through a slot is decided by the cell of its origin. -/
theorem value_of_origin (h : s.origin y = .ok t) (hc : s.cell t = .ok c) :
    s.value y = .ok c.value := by
  simp [value, originCell, h, hc, Except.bind, Except.map]

/-- With the roads and the cell of its origin unchanged, a slot has the value it had, or none for
the same reason. -/
theorem value_congr (horigin : s'.origin y = s.origin y)
    (hcell : ∀ o, s.origin y = .ok o → s'.cell o = s.cell o) : s'.value y = s.value y := by
  unfold value originCell
  rw [horigin]
  cases ho : s.origin y with
  | error e => rfl
  | ok o => simp only [Except.bind, hcell o ho]

end Store

namespace StoreM

open Store

variable {s s' : Store} {slot : Slot} {v : Value}

/-- Warning about a conversion succeeds. -/
theorem warnIfLossy_eq_ok (lossy : Bool) (source target : Tag) (s : Store) :
    ∃ s₁, warnIfLossy lossy source target s = .ok () s₁ ∧ s.Warned s₁ := by
  unfold warnIfLossy
  split
  · exact ⟨_, rfl, .inr ⟨_, rfl⟩⟩
  · exact ⟨s, rfl, .inl rfl⟩

/-- Should the action fail in the store, nothing has changed. -/
def Atomic {α : Type} (x : StoreM α) (s : Store) : Prop :=
  ∀ e s', x s = .error e s' → s' = s

/-- An action that succeeds does not fail. -/
theorem atomic_of_ok {α : Type} {x : StoreM α} {a : α} (h : x s = .ok a s') : Atomic x s := by
  intro e s'' he
  rw [h] at he
  cases he

/-- Refusing at once changes nothing. -/
theorem atomic_throw {α : Type} (e : Fault) (s : Store) : Atomic (throw e : StoreM α) s := by
  intro e' s' h
  cases h
  rfl

/-- Questions come before changes. -/
theorem atomic_ask_bind {α β : Type} {question : Store → Except Fault α} {f : α → StoreM β}
    (hf : ∀ a, question s = .ok a → Atomic (f a) s) : Atomic (ask question >>= f) s := by
  intro e s' h
  cases hq : question s with
  | error e' =>
    rw [ask_bind_of_error hq] at h
    cases h
    rfl
  | ok a =>
    rw [ask_bind_of_ok hq] at h
    exact hf a hq e s' h

/-- Everything that writing a value can do: it is refused and nothing changes, or the cell in which
it lands takes the value, perhaps with a warning. -/
theorem writeValue_outcome (slot : Slot) (v : Value) (s : Store) :
    (∃ e, writeValue slot v s = .error e s) ∨
      ∃ t c c' s₁, s.writable slot = .ok t ∧ s.cell t = .ok c ∧ c.Takes v c' ∧ s.Warned s₁ ∧
        writeValue slot v s = .ok () (s₁.setCell t c') := by
  unfold writeValue
  cases hwritable : s.writable slot with
  | error e => exact .inl ⟨e, ask_bind_of_error hwritable⟩
  | ok t =>
    rw [ask_bind_of_ok hwritable]
    cases hc : s.cell t with
    | error e => exact .inl ⟨e, ask_bind_of_error hc⟩
    | ok c =>
      rw [ask_bind_of_ok hc]
      by_cases hfixed : c.fixed = true
      · rw [if_neg (by simp [hfixed])]
        by_cases htag : c.tag = v.tag
        · rw [if_pos htag]
          exact .inr ⟨t, c, _, s, rfl, hc, .declared hfixed htag, .inl rfl, replace_of_cell hc _⟩
        · rw [if_neg htag]
          cases hconvert : (if c.tag.isNumeric then v.convert? c.tag else none) with
          | none => exact .inl ⟨_, rfl⟩
          | some converted =>
            obtain ⟨w, lossy⟩ := converted
            obtain ⟨hnumeric, hsome⟩ := Option.ite_none_right_eq_some.mp hconvert
            obtain ⟨s₁, hwarn, hwarned⟩ := warnIfLossy_eq_ok lossy v.tag c.tag s
            have hc₁ : s₁.cell t = .ok c := (hwarned.cell_eq t).trans hc
            refine .inr ⟨t, c, _, s₁, rfl, hc, .converted hfixed htag hnumeric hsome, hwarned, ?_⟩
            dsimp only
            rw [Action.bind_of_ok hwarn, replace_of_cell hc₁]
      · have hfree : c.fixed = false := by simpa using hfixed
        rw [if_pos (by simp [hfree])]
        exact .inr ⟨t, c, _, s, rfl, hc, .undeclared hfree, .inl rfl, replace_of_cell hc _⟩

/-- Writing a value that is no reference goes through the mutable references. -/
theorem write_eq_writeValue (hv : ∀ target, v ≠ .ref target) (slot : Slot) :
    write slot v = writeValue slot v := by
  cases v with
  | ref target => exact absurd rfl (hv target)
  | _ => rfl

/-- Where an accepted write of a value that is no reference has landed, and what it left there. -/
theorem landing_of_write (hv : ∀ target, v ≠ .ref target) (h : write slot v s = .ok () s') :
    ∃ t c c', s.writable slot = .ok t ∧ s.cell t = .ok c ∧ s'.cell t = .ok c' ∧ c.Takes v c' ∧
      s.DiffersOnlyAt s' t := by
  rw [write_eq_writeValue hv] at h
  rcases writeValue_outcome slot v s with ⟨e, he⟩ | ⟨t, c, c', s₁, ht, hc, htakes, hwarned, hok⟩
  · rw [he] at h
    cases h
  · rw [hok] at h
    cases h
    refine ⟨t, c, c', ht, hc, ?_, htakes, hwarned.differsOnlyAt hc c'⟩
    rw [cell_setCell ((hwarned.cell_eq t).trans hc), if_pos rfl]

/-- An accepted write of a value that is no reference misleads no walk. -/
theorem sameRoads_of_write (hv : ∀ target, v ≠ .ref target)
    (h : write slot v s = .ok () s') : s.SameRoads s' := by
  obtain ⟨t, c, c', ht, hc, hc', htakes, hdiffers⟩ := landing_of_write hv h
  obtain ⟨c₀, hc₀, hplain⟩ := cell_of_writableWithin ht
  obtain rfl : c = c₀ := by simpa [hc] using hc₀
  exact hdiffers.sameRoads hc hc' hplain (htakes.isReference_eq hv hplain)

/-- An accepted write of a value that is no reference replaces the cell in which it lands and nothing
else. That cell is no reference before or after, and a declared type stays. Every slot keeps its
origin and the place where writes to it land, or the reason why it has none; and a slot keeps its
value, unless its origin is the cell: then it has the value that the cell took. -/
theorem write_changes_one_cell (hv : ∀ target, v ≠ .ref target) (h : write slot v s = .ok () s') :
    ∃ t c c', s.writable slot = .ok t ∧ s.cell t = .ok c ∧ s'.cell t = .ok c' ∧ c.Takes v c' ∧
      s.DiffersOnlyAt s' t ∧ c.isReference = false ∧ c'.isReference = false ∧
      c'.fixed = c.fixed ∧ (c.fixed = true → c'.tags = c.tags) ∧
      (∀ y, s'.origin y = s.origin y ∧ s'.writable y = s.writable y) ∧
      (∀ y, s.origin y ≠ .ok t → s'.value y = s.value y) ∧
      ∀ y, s.origin y = .ok t → s'.value y = .ok c'.value := by
  obtain ⟨t, c, c', ht, hc, hc', htakes, hdiffers⟩ := landing_of_write hv h
  obtain ⟨c₀, hc₀, hplain⟩ := cell_of_writableWithin ht
  obtain rfl : c₀ = c := by simpa [hc] using hc₀.symm
  have hplain' := htakes.isReference_eq hv hplain
  have hroads := hdiffers.sameRoads hc hc' hplain hplain'
  refine ⟨t, c₀, c', ht, hc, hc', htakes, hdiffers, hplain, hplain', htakes.fixed_eq,
    htakes.tags_eq, fun y => ⟨hroads.origin_eq y, hroads.writable_eq y⟩, fun y hy => ?_,
    fun y hy => ?_⟩
  · refine value_congr (hroads.origin_eq y) fun o ho => hdiffers.cell_other o ?_
    rintro rfl
    exact hy ho
  · exact value_of_origin ((hroads.origin_eq y).trans hy) hc'

/-- A declared byte, a reference to it, a const reference to that one, and an unbound reference. -/
def sharedByte : Store :=
  ⟨#[⟨.module, #[⟨[Tag.byte], true, .byte 5⟩, ⟨[Tag.ref, Tag.byte], true, .ref ⟨0, 0⟩⟩,
    ⟨[Tag.const, Tag.untyped], false, .ref ⟨0, 1⟩⟩, ⟨[Tag.ref, Tag.byte], true, .nothing⟩]⟩], #[], 16⟩

/-- A long number written through the mutable reference is narrowed to the declared byte and seen
through the const one; the unbound reference leads nowhere, as before. -/
theorem write_sharedByte : (∀ target, Value.long 300 ≠ .ref target) ∧
    ∃ s', write ⟨0, 1⟩ (.long 300) sharedByte = .ok () s' ∧ s'.value ⟨0, 2⟩ = .ok (.byte 44) ∧
      s'.origin ⟨0, 3⟩ = .error (.unboundReference 3) := by
  have hwrite : write ⟨0, 1⟩ (.long 300) sharedByte = .ok () _ := rfl
  refine ⟨by simp, _, hwrite, ?_⟩
  obtain ⟨t, c, c', ht, -, hc', -, -, -, -, -, -, hroads, -, hvalue⟩ :=
    write_changes_one_cell (by simp) hwrite
  have hlanding : sharedByte.writable ⟨0, 1⟩ = .ok ⟨0, 0⟩ := rfl
  obtain rfl : (⟨0, 0⟩ : Slot) = t := by simpa [hlanding] using ht
  refine ⟨?_, (hroads ⟨0, 3⟩).1.trans rfl⟩
  rw [hvalue ⟨0, 2⟩ rfl, ← Except.ok.inj hc']
  rfl

end StoreM

end SlotMachine
