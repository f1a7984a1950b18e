import SlotMachine.Store.Access
import SlotMachine.Proofs.Store.Binding
import SlotMachine.Proofs.Store.Sound
import Mathlib.Tactic.Common

/-!
# Reading, writing and binding in a sound store

Following references from an exposed slot leads to exposed slots, so that a write never lands in a
header, and what is read from a sound store may be written to it again.
-/

namespace SlotMachine

/-- The tags that have a meaning. -/
def Tag.meaningful : List Tag :=
  [Tag.untyped, Tag.byte, Tag.long, Tag.double, Tag.uint64, Tag.string, Tag.array, Tag.ref,
    Tag.const, Tag.object, Tag.origin]

/-- A cell with any meaningful outer tag may start with the zero of that tag. -/
theorem Tag.mem_homes_zero : ∀ t ∈ Tag.meaningful, t ∈ (Value.zero t).homes := by
  decide +kernel

/-- A cell may always have the tag of its value. -/
theorem Value.tag_mem_homes (v : Value) : v.tag ∈ v.homes := by
  cases v <;> simp [Value.tag, Value.homes]

/-- Values are at home under meaningful tags only. -/
theorem Value.meaningful_of_mem_homes {v : Value} {t : Tag} (h : t ∈ v.homes) :
    t ∈ Tag.meaningful := by
  cases v <;> simp only [Value.homes, Value.tag, List.mem_cons, List.not_mem_nil, or_false] at h
  all_goals simp only [Tag.meaningful, List.mem_cons, List.not_mem_nil, or_false]; tauto

/-- A converted number has the kind that was asked for. -/
theorem Value.tag_of_convert? {v w : Value} {kind : Tag} {lossy : Bool}
    (h : v.convert? kind = some (w, lossy)) : w.tag = kind ∧ w.isNumeric = true := by
  unfold Value.convert? at h
  obtain ⟨n, -, hn⟩ := Option.bind_eq_some_iff.mp h
  unfold Number.convert? at hn
  split at hn
  · rename_i hkind
    cases hn
    exact ⟨hkind.symm, rfl⟩
  · split at hn
    · rename_i hkind
      cases hn
      exact ⟨hkind.symm, rfl⟩
    · split at hn
      · rename_i hkind
        cases hn
        exact ⟨hkind.symm, rfl⟩
      · split at hn
        · rename_i hkind
          cases hn
          exact ⟨hkind.symm, rfl⟩
        · cases hn

/-- A numeral is read as a number. -/
theorem Value.isNumeric_of_read? {cs : List Char} {v : Value} {kind : Tag}
    (h : Value.read? cs kind = some v) : v.isNumeric = true := by
  unfold Value.read? at h
  split at h
  · obtain ⟨i, -, hi⟩ := Option.bind_eq_some_iff.mp h
    split at hi <;> cases hi
    rfl
  · split at h
    · obtain ⟨i, -, hi⟩ := Option.bind_eq_some_iff.mp h
      split at hi <;> cases hi
      rfl
    · split at h
      · split at h
        · cases h
        · obtain ⟨i, -, hi⟩ := Option.bind_eq_some_iff.mp h
          split at hi <;> cases hi
          rfl
      · split at h
        · obtain ⟨d, -, rfl⟩ := Option.map_eq_some_iff.mp h
          rfl
        · cases h

namespace Cell

/-- A declared cell fits if its outer tag has a meaning. -/
theorem fits_declared {tags : List Tag} (h : outer tags ∈ Tag.meaningful) : (declared tags).Fits :=
  Tag.mem_homes_zero _ h

/-- A cell that fits could be declared anew. -/
theorem Fits.declared {c : Cell} (h : c.Fits) : (Cell.declared c.tags).Fits :=
  fits_declared (Value.meaningful_of_mem_homes h)

/-- A cell that took on the type of its value fits. -/
theorem fits_holding (v : Value) : (holding v).Fits := by
  cases v <;> simp [holding, Fits, tag, outer, Value.tags, Value.tag, Value.homes]

end Cell

namespace Store

variable {s : Store} {known : String → Prop} {slot target : Slot} {c : Cell} {v : Value}

/-- Numbers name no heaps. -/
theorem vouches_of_isNumeric (h : v.isNumeric = true) : s.Vouches v := by
  cases v <;> trivial

/-- A declared cell that fits may stand in any store. -/
theorem admits_declared {tags : List Tag} (h : (Cell.declared tags).Fits) :
    s.Admits (Cell.declared tags) := by
  refine ⟨h, fun hfixed => by simpa [Cell.declared, Cell.tag] using hfixed, ?_⟩
  simp only [Cell.declared, Value.zero]
  split_ifs <;> trivial

/-- An untyped cell may stand in any store. -/
theorem admits_free : s.Admits Cell.free :=
  ⟨by decide, fun h => Bool.noConfusion h, trivial⟩

/-- A cell without a type may stand in any store. -/
theorem admits_blank : s.Admits Cell.blank :=
  ⟨by decide, fun h => Bool.noConfusion h, trivial⟩

/-- A cell that took on the type of a value may stand wherever the value may. -/
theorem admits_holding (hv : s.Vouches v) : s.Admits (Cell.holding v) :=
  ⟨Cell.fits_holding v, fun h => Bool.noConfusion h, hv⟩

/-- The machine's own cells have no declared types. -/
theorem Sound.fixed_of_scratch (hs : s.Sound known) (hkind : s.kind? slot.heap = some .scratch)
    (hc : s.cell slot = .ok c) : c.fixed = false := by
  obtain ⟨h, hh, hcell⟩ := cell_eq_ok_iff.mp hc
  have hscratch : h.kind = .scratch := by simpa [kind?, hh] using hkind
  have hshaped := hs.shaped hh
  simp only [Heap.Shaped, hscratch] at hshaped
  exact hshaped c (Array.mem_of_getElem? hcell)

/-- Following references from an exposed slot leads to an exposed slot. -/
theorem Sound.exposed_of_originWithin (hs : s.Sound known) {start origin : Slot} {n : Nat}
    (hslot : s.Exposed slot) (h : s.originWithin start n slot = .ok origin) : s.Exposed origin := by
  induction n generalizing slot with
  | zero => simp [originWithin] at h
  | succ n ih =>
    rw [originWithin] at h
    cases hc : s.cell slot with
    | error e => simp [hc] at h
    | ok c =>
      simp only [hc] at h
      split at h
      · cases hv : c.value with
        | ref next =>
          have hnext : s.Exposed next := hs.vouches hc hv
          simp only [hv] at h
          exact ih hnext h
        | _ => simp [hv] at h
      · cases h
        exact hslot

/-- A write to an exposed slot lands in an exposed slot. -/
theorem Sound.exposed_of_writableWithin (hs : s.Sound known) {start landing : Slot} {n : Nat}
    (hslot : s.Exposed slot) (h : s.writableWithin start n slot = .ok landing) :
    s.Exposed landing := by
  induction n generalizing slot with
  | zero => simp [writableWithin] at h
  | succ n ih =>
    rw [writableWithin] at h
    cases hc : s.cell slot with
    | error e => simp [hc] at h
    | ok c =>
      simp only [hc] at h
      split at h
      · cases h
      · split at h
        · cases hv : c.value with
          | ref next =>
            have hnext : s.Exposed next := hs.vouches hc hv
            simp only [hv] at h
            exact ih hnext h
          | _ => simp [hv] at h
        · cases h
          exact hslot

/-- A slot that has an origin has a cell. -/
theorem exists_cell_of_origin {origin : Slot} (h : s.origin slot = .ok origin) :
    ∃ c, s.cell slot = .ok c := by
  unfold Store.origin at h
  rw [show maxChain = 4095 + 1 from rfl, originWithin] at h
  cases hc : s.cell slot with
  | error e => simp [hc] at h
  | ok c => exact ⟨c, rfl⟩

/-- The origin of a slot has a cell. -/
theorem cell_of_originCell (h : s.originCell slot = .ok c) :
    ∃ origin, s.origin slot = .ok origin ∧ s.cell origin = .ok c := by
  unfold originCell at h
  cases horigin : s.origin slot with
  | error e => simp [horigin, Except.bind] at h
  | ok origin => exact ⟨origin, rfl, by simpa [horigin, Except.bind] using h⟩

/-- A value is read from a cell. -/
theorem cell_of_value (h : s.value slot = .ok v) :
    ∃ origin c, s.origin slot = .ok origin ∧ s.cell origin = .ok c ∧ c.value = v := by
  unfold value at h
  cases hcell : s.originCell slot with
  | error e => simp [hcell, Except.map] at h
  | ok c =>
    obtain ⟨origin, horigin, hc⟩ := cell_of_originCell hcell
    exact ⟨origin, c, horigin, hc, by simpa [hcell, Except.map] using h⟩

/-- What is read from a sound store may be written to it. -/
theorem Sound.vouches_value (hs : s.Sound known) (h : s.value slot = .ok v) : s.Vouches v := by
  obtain ⟨origin, c, -, hc, hv⟩ := cell_of_value h
  exact hs.vouches hc hv

end Store

namespace StoreM

open Store Discipline

variable {s : Store} {known : String → Prop} {slot target : Slot} {v : Value}

/-- A declared type that is no reference is never bound. -/
theorem boundTags_of_declared {c : Cell} (hfixed : c.fixed = true) (href : c.isReference = false)
    (binding : Binding) (referent : Tag) :
    boundTags slot c binding referent = .error (.notAReference slot.index) := by
  have hconst : c.tag ≠ Tag.const := by
    intro htag
    rw [Cell.isReference, htag] at href
    cases href
  simp [boundTags, hconst, href, hfixed]

/-- The cell that a binding leaves is acceptable if the target is exposed. -/
theorem accepts_bound {c : Cell} {binding : Binding} {referent : Tag} {tags : List Tag}
    (hs : s.Sound known) (htarget : s.Exposed target) (hc : s.cell slot = .ok c)
    (htags : boundTags slot c binding referent = .ok tags) :
    s.Accepts slot ⟨tags, c.fixed, .ref target⟩ := by
  have href : (⟨tags, c.fixed, .ref target⟩ : Cell).isReference = true :=
    isReference_of_boundTags htags
  have hhome : Cell.outer tags = Tag.ref ∨ Cell.outer tags = Tag.const := by
    simpa [Cell.isReference, Cell.tag, Tag.isReference] using href
  refine ⟨⟨?_, fun _ => ?_, htarget⟩, fun hc' hfixed hplain => ?_, fun hkind => ?_⟩
  · rcases hhome with htag | htag <;> simp [Cell.Fits, Cell.tag, Value.homes, htag]
  · rcases hhome with htag | htag <;> rw [Cell.tag, htag] <;> decide
  · cases hc.symm.trans hc'
    rw [boundTags_of_declared hfixed hplain] at htags
    cases htags
  · exact show c.fixed = false from hs.fixed_of_scratch hkind hc

/-- Binding a slot to an exposed one. -/
theorem keeps_bind (hs : s.Sound known) (htarget : s.Exposed target) (slot : Slot)
    (binding : Binding) :
    (discipline known).Keeps (bind slot target binding) s fun _ _ => True := by
  unfold bind
  dsimp only
  split
  · exact keeps_of_error rfl hs (Evolves.refl s)
  · refine keeps_ask_bind hs fun referent _ => ?_
    split
    · exact keeps_of_error rfl hs (Evolves.refl s)
    · refine keeps_ask_bind hs fun referentCell _ => ?_
      refine keeps_ask_bind hs fun c hc => ?_
      refine keeps_ask_bind hs fun tags htags => ?_
      exact keeps_replace hs (accepts_bound hs htarget hc htags)

/-- A value put into an exposed declared cell of its type is acceptable. -/
theorem accepts_value {c : Cell} {w : Value} (hs : s.Sound known) (hslot : s.Exposed slot)
    (hc : s.cell slot = .ok c) (htag : c.tag ∈ w.homes) (hw : s.Vouches w) :
    s.Accepts slot { c with value := w } := by
  refine ⟨⟨htag, (hs.admits hc).typed, hw⟩, fun hc' hfixed _ => ?_, fun hkind => ?_⟩
  · cases hc.symm.trans hc'
    exact ⟨hslot, rfl, hfixed⟩
  · exact show c.fixed = false from hs.fixed_of_scratch hkind hc

/-- An undeclared cell may be replaced by any undeclared one that may stand in the store. -/
theorem accepts_undeclared {c new : Cell} (hc : s.cell slot = .ok c) (hfixed : c.fixed = false)
    (hnew : s.Admits new) (hnewFixed : new.fixed = false) : s.Accepts slot new := by
  refine ⟨hnew, fun hc' hfixed' _ => ?_, fun _ => hnewFixed⟩
  cases hc.symm.trans hc'
  rw [hfixed] at hfixed'
  cases hfixed'

/-- Warning about a conversion. -/
theorem keeps_warnIfLossy (hs : s.Sound known) (lossy : Bool) (source target : Tag) :
    (discipline known).Keeps (warnIfLossy lossy source target) s
      fun _ s' => ∀ slot, s'.cell slot = s.cell slot := by
  unfold warnIfLossy
  split
  · exact keeps_warn hs _
  · exact keeps_pure hs fun _ => rfl

/-- Writing a value to an exposed slot. -/
theorem keeps_writeValue (hs : s.Sound known) (hslot : s.Exposed slot) (hv : s.Vouches v) :
    (discipline known).Keeps (writeValue slot v) s fun _ _ => True := by
  unfold writeValue
  refine keeps_ask_bind hs fun landing hlanding => ?_
  have hexposed := hs.exposed_of_writableWithin hslot hlanding
  refine keeps_ask_bind hs fun c hc => ?_
  split
  · rename_i hfixed
    exact keeps_replace hs
      (accepts_undeclared hc (by simpa using hfixed) (admits_holding hv) rfl)
  · split
    · rename_i htag
      exact keeps_replace hs
        (accepts_value hs hexposed hc (by rw [htag]; exact v.tag_mem_homes) hv)
    · split
      · rename_i converted lossy hconvert
        have hsome : v.convert? c.tag = some (converted, lossy) := by
          split at hconvert
          · exact hconvert
          · cases hconvert
        obtain ⟨htag, hnumeric⟩ := Value.tag_of_convert? hsome
        refine (keeps_warnIfLossy hs lossy v.tag c.tag).bind fun _ s' hs' hev hcells => ?_
        refine keeps_replace hs' (accepts_value hs' (hexposed.mono hev.toGrows)
          ((hcells landing).trans hc) ?_ (vouches_of_isNumeric hnumeric))
        rw [← htag]
        exact converted.tag_mem_homes
      · exact keeps_throw hs

/-- Writing any value to an exposed slot. -/
theorem keeps_write (hs : s.Sound known) (hslot : s.Exposed slot) (hv : s.Vouches v) :
    (discipline known).Keeps (write slot v) s fun _ _ => True := by
  unfold write
  split
  · exact keeps_bind hs hv slot .mutable
  · exact keeps_writeValue hs hslot hv

/-- Reading a number changes no heap. -/
theorem keeps_readNumber (hs : s.Sound known) (slot : Slot) (kind : Tag) (operation : String) :
    (discipline known).Keeps (readNumber slot kind operation) s
      fun _ s' => ∀ slot, s'.cell slot = s.cell slot := by
  unfold readNumber
  refine keeps_ask_bind hs fun v _ => ?_
  split
  · refine (keeps_warnIfLossy hs _ _ _).bind fun _ s' hs' _ hcells => ?_
    exact keeps_pure hs' hcells
  · exact keeps_throw hs

/-- Reading an index changes no heap. -/
theorem keeps_readLong (hs : s.Sound known) (slot : Slot) :
    (discipline known).Keeps (readLong slot) s
      fun _ s' => ∀ slot, s'.cell slot = s.cell slot := by
  refine (keeps_readNumber hs slot Tag.long "read long").bind fun v s' hs' _ hcells => ?_
  cases v with
  | long n => exact keeps_pure hs' hcells
  | _ => exact keeps_throw hs'

/-- Reading a size or a jump target changes no heap. -/
theorem keeps_readUInt64 (hs : s.Sound known) (slot : Slot) :
    (discipline known).Keeps (readUInt64 slot) s
      fun _ s' => ∀ slot, s'.cell slot = s.cell slot := by
  refine (keeps_readNumber hs slot Tag.uint64 "read uint64").bind fun v s' hs' _ hcells => ?_
  cases v with
  | uint64 n => exact keeps_pure hs' hcells
  | _ => exact keeps_throw hs'

/-- Untyped cells can be added to every heap that is there. -/
theorem extend_of_heap {heap : HeapId} {h : Heap} (hh : s.heaps[heap]? = some h) (len : Nat) :
    extend heap len s = .ok () (s.modifyHeap heap fun cells =>
      cells ++ Array.replicate (len - h.cells.size) Cell.free) :=
  ask_bind_of_ok (heapSize_eq_ok_iff.mpr ⟨h, hh, rfl⟩)

/-- Adding untyped cells to a module's heap. -/
theorem keeps_extend {heap : HeapId} (hs : s.Sound known) (hheap : s.IsModule heap) (len : Nat) :
    (discipline known).Keeps (extend heap len) s fun _ _ => True := by
  obtain ⟨h, hh, hkind⟩ := kind?_eq_some_iff.mp hheap
  refine keeps_of_ok (extend_of_heap hh len) (hs.modifyHeap hh ?_ ?_)
    (evolves_modifyHeap hh ?_ ?_ ?_) trivial
  · simp only [Heap.Shaped, hkind]
  · intro c hc
    rcases Array.mem_append.mp hc with hold | hnew
    · exact hs.admitted hh c hold
    · rw [Array.eq_of_mem_replicate hnew]
      exact admits_free
  · rw [Array.size_append]
    omega
  · intro hobject
    rw [hkind] at hobject
    cases hobject
  · intro index c hc hfixed _
    refine ⟨c, ?_, rfl, hfixed⟩
    rw [Array.getElem?_append_left (Array.getElem?_eq_some_iff.mp hc).1, hc]

end StoreM

end SlotMachine
