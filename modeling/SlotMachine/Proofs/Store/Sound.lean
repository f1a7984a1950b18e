import SlotMachine.Store.Array
import SlotMachine.Proofs.Discipline
import SlotMachine.Proofs.Store.Cells
import Mathlib.Tactic.Common

/-!
# Sound stores

A store is sound when every cell holds a value that fits its type, every handle names a heap of its
kind, no reference leads to the header of array storage or of an instance, and these headers are
what they should be. Stores evolve without losing heaps, cells, declared types or the names of
instances.

The class names that instances may carry are a parameter: a machine knows more and more of them.
-/

namespace SlotMachine

/-- The outer tags of the cells that may hold a value. -/
def Value.homes : Value → List Tag
  | nothing => [Tag.untyped, Tag.array, Tag.ref, Tag.const, Tag.object, Tag.origin]
  | ref _ => [Tag.ref, Tag.const]
  | v => [v.tag]

/-- The value of the cell fits its outer tag. -/
def Cell.Fits (c : Cell) : Prop :=
  c.tag ∈ c.value.homes

instance (c : Cell) : Decidable c.Fits :=
  inferInstanceAs (Decidable (c.tag ∈ c.value.homes))

/-- Array elements of this kind start in cells that fit. -/
def ElementKind.Fits : ElementKind → Prop
  | tagged tags => (Cell.declared tags).Fits
  | _ => True

/-- Whether cell 0 of the heap belongs to the machine and not to the program. -/
def HeapKind.hasHeader : HeapKind → Bool
  | array _ | object => true
  | module | scratch => false

/-- The heap has the layout of its kind. Array storage starts with the element count, which leaves
no element without a cell; an instance starts with a class name of those allowed; and the cells of
the machine itself have no declared types. -/
def Heap.Shaped (maxLen : Nat) (known : String → Prop) (h : Heap) : Prop :=
  match h.kind with
  | .module => True
  | .scratch => ∀ c ∈ h.cells, c.fixed = false
  | .array element =>
    element.Fits ∧ ∃ count, h.cells[0]? = some ⟨[Tag.uint64], true, .uint64 count⟩ ∧
      count.toNat < h.cells.size ∧ h.cells.size ≤ maxLen + 1
  | .object => ∃ name, h.cells[0]? = some ⟨[Tag.string], true, .text name⟩ ∧ known name

namespace Store

/-- The heap is array storage. -/
def IsArray (s : Store) (id : HeapId) : Prop :=
  ∃ element, s.kind? id = some (.array element)

/-- The heap is a class instance. -/
def IsObject (s : Store) (id : HeapId) : Prop :=
  s.kind? id = some .object

/-- The heap is an instance, and its header carries the class name. -/
def HasInstance (s : Store) (object : HeapId) (name : String) : Prop :=
  ∃ h, s.heaps[object]? = some h ∧ h.kind = .object ∧
    h.cells[0]? = some ⟨[Tag.string], true, .text name⟩

/-- The heap belongs to a module. -/
def IsModule (s : Store) (id : HeapId) : Prop :=
  s.kind? id = some .module

/-- The slot lies in some heap and is not a header there. The cell itself may be missing. -/
def Exposed (s : Store) (slot : Slot) : Prop :=
  ∃ kind, s.kind? slot.heap = some kind ∧ (slot.index = 0 → kind.hasHeader = false)

/-- The handles in the value name heaps of their kind, and a reference leads to no header. -/
def Vouches (s : Store) : Value → Prop
  | .array a => s.IsArray a.storage
  | .object heap => s.IsObject heap
  | .ref target => s.Exposed target
  | _ => True

/-- The cell may stand in the store. -/
structure Admits (s : Store) (c : Cell) : Prop where
  /-- Its value fits its type. -/
  fits : c.Fits
  /-- Nothing is declared to be untyped. -/
  typed : c.fixed = true → c.tag ≠ Tag.untyped
  /-- Its value leads to what it says. -/
  vouched : s.Vouches c.value

/-- What holds of the stores of a machine, given the class names that instances may carry. -/
structure Sound (known : String → Prop) (s : Store) : Prop where
  /-- Every heap has the layout of its kind. -/
  shaped : ∀ {id : HeapId} {h : Heap}, s.heaps[id]? = some h → h.Shaped s.maxLen known
  /-- Every cell may stand where it does. -/
  admitted : ∀ {id : HeapId} {h : Heap}, s.heaps[id]? = some h → ∀ c ∈ h.cells, s.Admits c

/-- How stores grow. -/
structure Grows (s s' : Store) : Prop where
  /-- Heaps stay, keep their kind, and lose no cells; an instance keeps its class name. -/
  heap_le : ∀ {id : HeapId} {h : Heap}, s.heaps[id]? = some h →
    ∃ h', s'.heaps[id]? = some h' ∧ h'.kind = h.kind ∧ h.cells.size ≤ h'.cells.size ∧
      (h.kind = .object → h'.cells[0]? = h.cells[0]?)
  /-- The limit on arrays stays. -/
  maxLen_eq : s'.maxLen = s.maxLen

/-- The slot has the declared type that its cell had. -/
def KeepsType (s' : Store) (slot : Slot) (c : Cell) : Prop :=
  ∃ c', s'.cell slot = .ok c' ∧ c'.tags = c.tags ∧ c'.fixed = true

/-- How stores change: they grow, and a declared type other than a reference stays. -/
structure Evolves (s s' : Store) : Prop extends Grows s s' where
  /-- Declared types stay. -/
  declared : ∀ {slot : Slot} {c : Cell}, s.cell slot = .ok c → c.fixed = true → c.isReference = false →
    s'.KeepsType slot c

variable {s s' s'' : Store} {known known' : String → Prop} {slot target : Slot} {id : HeapId}
  {c : Cell} {v : Value} {h : Heap}

/-- Whether a cell is a reference depends on its tags alone. -/
theorem isReference_of_tags_eq {c c' : Cell} (htags : c'.tags = c.tags)
    (href : c.isReference = false) : c'.isReference = false := by
  rw [Cell.isReference, Cell.tag, htags]
  exact href

/-- A store grows by not changing. -/
theorem Grows.refl (s : Store) : s.Grows s :=
  ⟨fun hh => ⟨_, hh, rfl, Nat.le_refl _, fun _ => rfl⟩, rfl⟩

/-- Growth adds up. -/
theorem Grows.trans (h₁ : s.Grows s') (h₂ : s'.Grows s'') : s.Grows s'' := by
  refine ⟨fun hh => ?_, h₂.maxLen_eq.trans h₁.maxLen_eq⟩
  obtain ⟨h', hh', hkind', hsize', hname'⟩ := h₁.heap_le hh
  obtain ⟨h'', hh'', hkind'', hsize'', hname''⟩ := h₂.heap_le hh'
  refine ⟨h'', hh'', hkind''.trans hkind', Nat.le_trans hsize' hsize'', fun hobject => ?_⟩
  rw [hname'' (hkind'.trans hobject), hname' hobject]

/-- A store evolves by not changing. -/
theorem Evolves.refl (s : Store) : s.Evolves s :=
  ⟨Grows.refl s, fun hc hfixed _ => ⟨_, hc, rfl, hfixed⟩⟩

/-- Changes of a store add up. -/
theorem Evolves.trans (h₁ : s.Evolves s') (h₂ : s'.Evolves s'') : s.Evolves s'' := by
  refine ⟨h₁.toGrows.trans h₂.toGrows, fun {slot c} hc hfixed href => ?_⟩
  obtain ⟨c', hc', htags', hfixed'⟩ := h₁.declared hc hfixed href
  have href' := isReference_of_tags_eq htags' href
  obtain ⟨c'', hc'', htags'', hfixed''⟩ := h₂.declared hc' hfixed' href'
  exact ⟨c'', hc'', htags''.trans htags', hfixed''⟩

/-- The discipline of stores. -/
def discipline (known : String → Prop) : Discipline Store where
  Sound := Sound known
  Evolves := Evolves
  refl := Evolves.refl
  trans := Evolves.trans

/-- A heap keeps its kind. -/
theorem Grows.kind_eq (hg : s.Grows s') {kind : HeapKind} (hkind : s.kind? id = some kind) :
    s'.kind? id = some kind := by
  obtain ⟨h, hh, rfl⟩ := kind?_eq_some_iff.mp hkind
  obtain ⟨h', hh', hkind', -⟩ := hg.heap_le hh
  exact kind?_eq_some_iff.mpr ⟨h', hh', hkind'⟩

theorem IsArray.mono (ha : s.IsArray id) (hg : s.Grows s') : s'.IsArray id := by
  obtain ⟨element, hkind⟩ := ha
  exact ⟨element, hg.kind_eq hkind⟩

theorem IsObject.mono (ho : s.IsObject id) (hg : s.Grows s') : s'.IsObject id :=
  hg.kind_eq ho

/-- An instance keeps its header. -/
theorem HasInstance.mono {object : HeapId} {name : String} (ho : s.HasInstance object name)
    (hg : s.Grows s') : s'.HasInstance object name := by
  obtain ⟨heap, hheap, hkind, hheader⟩ := ho
  obtain ⟨heap', hheap', hkind', -, hkept⟩ := hg.heap_le hheap
  exact ⟨heap', hheap', hkind'.trans hkind, (hkept hkind).trans hheader⟩

theorem HasInstance.isObject {object : HeapId} {name : String} (ho : s.HasInstance object name) :
    s.IsObject object := by
  obtain ⟨heap, hheap, hkind, -⟩ := ho
  exact kind?_eq_some_iff.mpr ⟨heap, hheap, hkind⟩

theorem IsModule.mono (hm : s.IsModule id) (hg : s.Grows s') : s'.IsModule id :=
  hg.kind_eq hm

theorem Exposed.mono (he : s.Exposed slot) (hg : s.Grows s') : s'.Exposed slot := by
  obtain ⟨kind, hkind, hheader⟩ := he
  exact ⟨kind, hg.kind_eq hkind, hheader⟩

theorem Vouches.mono (hv : s.Vouches v) (hg : s.Grows s') : s'.Vouches v := by
  cases v with
  | array a => exact IsArray.mono hv hg
  | object heap => exact IsObject.mono hv hg
  | ref target => exact Exposed.mono hv hg
  | _ => trivial

theorem Admits.mono (hc : s.Admits c) (hg : s.Grows s') : s'.Admits c :=
  ⟨hc.fits, hc.typed, hc.vouched.mono hg⟩

/-- What a cell needs of a store depends on the kinds of its heaps alone. -/
theorem Admits.mono_kind (hc : s.Admits c) (hkind : ∀ id, s'.kind? id = s.kind? id) :
    s'.Admits c := by
  refine ⟨hc.fits, hc.typed, ?_⟩
  have hv := hc.vouched
  cases hvalue : c.value <;> simp only [hvalue, Vouches, IsArray, IsObject, Exposed, hkind] at hv ⊢
  all_goals exact hv

/-- Every slot of a module's heap is exposed. -/
theorem IsModule.exposed (hm : s.IsModule id) (index : Nat) : s.Exposed ⟨id, index⟩ :=
  ⟨.module, hm, fun _ => rfl⟩

/-- Every cell of a sound store may stand where it does. -/
theorem Sound.admits (hs : s.Sound known) (hc : s.cell slot = .ok c) : s.Admits c := by
  obtain ⟨h, hh, hmem⟩ := cell_eq_ok_iff.mp hc
  exact hs.admitted hh c (Array.mem_of_getElem? hmem)

/-- The value of every cell of a sound store leads to what it says. -/
theorem Sound.vouches (hs : s.Sound known) (hc : s.cell slot = .ok c) (hv : c.value = v) :
    s.Vouches v := by
  rw [← hv]
  exact (hs.admits hc).vouched

/-- A store stays sound when more class names are known. -/
theorem Sound.mono (hs : s.Sound known) (hknown : ∀ name, known name → known' name) :
    s.Sound known' := by
  refine ⟨fun {id h} hh => ?_, hs.admitted⟩
  have hshaped := hs.shaped hh
  unfold Heap.Shaped at hshaped ⊢
  cases hkind : h.kind with
  | module => trivial
  | scratch => simpa [hkind] using hshaped
  | array element => simpa [hkind] using hshaped
  | object =>
    obtain ⟨name, hcell, hname⟩ : ∃ name, h.cells[0]? = some ⟨[Tag.string], true, .text name⟩ ∧
        known name := by simpa [hkind] using hshaped
    exact ⟨name, hcell, hknown name hname⟩

/-- Changing the cells of one heap keeps a store sound if the heap keeps its layout and every new
cell may stand there. -/
theorem Sound.modifyHeap (hs : s.Sound known) {f : Array Cell → Array Cell}
    (hh : s.heaps[id]? = some h)
    (hshaped : ({ h with cells := f h.cells } : Heap).Shaped s.maxLen known)
    (hcells : ∀ c ∈ f h.cells, s.Admits c) : (s.modifyHeap id f).Sound known := by
  have hadmits : ∀ c, s.Admits c → (s.modifyHeap id f).Admits c := fun c hc =>
    hc.mono_kind fun other => kind?_modifyHeap s id other f
  constructor
  · intro other h' hh'
    rcases heap_of_modifyHeap hh hh' with rfl | hold
    · exact hshaped
    · exact hs.shaped hold
  · intro other h' hh' c hc
    rcases heap_of_modifyHeap hh hh' with rfl | hold
    · exact hadmits c (hcells c hc)
    · exact hadmits c (hs.admitted hold c hc)

/-- A store grows when the cells of one heap change, if no cell is lost and an instance keeps its
class name. -/
theorem grows_modifyHeap {f : Array Cell → Array Cell} (hh : s.heaps[id]? = some h)
    (hsize : h.cells.size ≤ (f h.cells).size)
    (hname : h.kind = .object → (f h.cells)[0]? = h.cells[0]?) : s.Grows (s.modifyHeap id f) := by
  refine ⟨fun {other h'} hh' => ?_, rfl⟩
  rw [heaps_modifyHeap]
  split
  · rename_i heq
    subst heq
    obtain rfl : h = h' := by simpa [hh] using hh'
    exact ⟨{ h with cells := f h.cells }, by rw [hh]; rfl, rfl, hsize, hname⟩
  · exact ⟨h', hh', rfl, Nat.le_refl _, fun _ => rfl⟩

/-- Changing the cells of one heap is an evolution if the store grows and declared types stay. -/
theorem evolves_modifyHeap {f : Array Cell → Array Cell} (hh : s.heaps[id]? = some h)
    (hsize : h.cells.size ≤ (f h.cells).size)
    (hname : h.kind = .object → (f h.cells)[0]? = h.cells[0]?)
    (hdeclared : ∀ (index : Nat) (c : Cell), h.cells[index]? = some c → c.fixed = true →
      c.isReference = false → ∃ c', (f h.cells)[index]? = some c' ∧ c'.tags = c.tags ∧
        c'.fixed = true) : s.Evolves (s.modifyHeap id f) := by
  constructor
  · exact grows_modifyHeap hh hsize hname
  · intro slot c hc hfixed href
    obtain ⟨h', hh', hmem⟩ := cell_eq_ok_iff.mp hc
    by_cases heq : slot.heap = id
    · obtain rfl : h = h' := by simpa [← heq, hh'] using hh.symm
      obtain ⟨c', hmem', htags, hfixed'⟩ := hdeclared slot.index c hmem hfixed href
      refine ⟨c', cell_eq_ok_iff.mpr ⟨{ h with cells := f h.cells }, ?_, hmem'⟩, htags, hfixed'⟩
      rw [heaps_modifyHeap, if_pos heq, hh']
      rfl
    · refine ⟨c, cell_eq_ok_iff.mpr ⟨h', ?_, hmem⟩, rfl, hfixed⟩
      rw [heaps_modifyHeap, if_neg heq, hh']

/-- Adding a heap is an evolution. -/
theorem evolves_alloc (s : Store) (kind : HeapKind) (cells : Array Cell) :
    s.Evolves (s.alloc kind cells).2 := by
  have hkeep : ∀ {id : HeapId} {h : Heap}, s.heaps[id]? = some h →
      (s.alloc kind cells).2.heaps[id]? = some h := by
    intro id h hh
    have hlt : id < s.heaps.size := (Array.getElem?_eq_some_iff.mp hh).1
    rw [heaps_alloc, if_neg (Nat.ne_of_lt hlt), hh]
  constructor
  · exact ⟨fun hh => ⟨_, hkeep hh, rfl, Nat.le_refl _, fun _ => rfl⟩, rfl⟩
  · intro slot c hc hfixed _
    obtain ⟨h, hh, hmem⟩ := cell_eq_ok_iff.mp hc
    exact ⟨c, cell_eq_ok_iff.mpr ⟨h, hkeep hh, hmem⟩, rfl, hfixed⟩

/-- Adding a heap keeps a store sound if the heap has the layout of its kind and its cells may stand
in the store. -/
theorem Sound.alloc (hs : s.Sound known) {kind : HeapKind} {cells : Array Cell}
    (hshaped : (⟨kind, cells⟩ : Heap).Shaped s.maxLen known) (hcells : ∀ c ∈ cells, s.Admits c) :
    (s.alloc kind cells).2.Sound known := by
  have hgrows := (evolves_alloc s kind cells).toGrows
  constructor
  · intro id h hh
    rw [heaps_alloc] at hh
    split at hh
    · obtain rfl : ⟨kind, cells⟩ = h := by simpa using hh
      exact hshaped
    · exact hs.shaped hh
  · intro id h hh c hc
    rw [heaps_alloc] at hh
    split at hh
    · obtain rfl : ⟨kind, cells⟩ = h := by simpa using hh
      exact (hcells c hc).mono hgrows
    · exact (hs.admitted hh c hc).mono hgrows

/-- The element count of array storage. -/
theorem Sound.array_header (hs : s.Sound known) (ha : s.IsArray id) :
    ∃ h element count, s.heaps[id]? = some h ∧ h.kind = .array element ∧ element.Fits ∧
      h.cells[0]? = some ⟨[Tag.uint64], true, .uint64 count⟩ ∧ count.toNat < h.cells.size ∧
      h.cells.size ≤ s.maxLen + 1 := by
  obtain ⟨element, hkind⟩ := ha
  obtain ⟨h, hh, hkind⟩ := kind?_eq_some_iff.mp hkind
  have hshaped := hs.shaped hh
  simp only [Heap.Shaped, hkind] at hshaped
  obtain ⟨hfits, count, hcell, hcount, hsize⟩ := hshaped
  exact ⟨h, element, count, hh, hkind, hfits, hcell, hcount, hsize⟩

/-- The class name of an instance. -/
theorem Sound.object_header (hs : s.Sound known) (ho : s.IsObject id) :
    ∃ h name, s.heaps[id]? = some h ∧ h.kind = .object ∧
      h.cells[0]? = some ⟨[Tag.string], true, .text name⟩ ∧ known name := by
  obtain ⟨h, hh, hkind⟩ := kind?_eq_some_iff.mp ho
  have hshaped := hs.shaped hh
  simp only [Heap.Shaped, hkind] at hshaped
  obtain ⟨name, hcell, hname⟩ := hshaped
  exact ⟨h, name, hh, hkind, hcell, hname⟩

/-- A header has a declared type that is no reference. -/
theorem Sound.header_declared (hs : s.Sound known) (hh : s.heaps[id]? = some h)
    (hheader : h.kind.hasHeader = true) :
    ∃ c, h.cells[0]? = some c ∧ c.fixed = true ∧ c.isReference = false := by
  have hshaped := hs.shaped hh
  unfold Heap.Shaped at hshaped
  cases hkind : h.kind with
  | module => simp [hkind, HeapKind.hasHeader] at hheader
  | scratch => simp [hkind, HeapKind.hasHeader] at hheader
  | array element =>
    simp only [hkind] at hshaped
    obtain ⟨-, count, hcell, -⟩ := hshaped
    exact ⟨_, hcell, rfl, rfl⟩
  | object =>
    simp only [hkind] at hshaped
    obtain ⟨name, hcell, -⟩ := hshaped
    exact ⟨_, hcell, rfl, rfl⟩

/-- What may be put in place of the cell at a slot: a cell that may stand in the store, of the same
declared type if there is one that is no reference. Headers are not for programs to replace. -/
structure Accepts (s : Store) (slot : Slot) (new : Cell) : Prop where
  /-- The cell may stand in the store. -/
  admits : s.Admits new
  /-- A declared type stays, and it is not that of a header. -/
  declared : ∀ {c : Cell}, s.cell slot = .ok c → c.fixed = true → c.isReference = false →
    s.Exposed slot ∧ new.tags = c.tags ∧ new.fixed = true
  /-- The machine's own cells have no declared types. -/
  scratch : s.kind? slot.heap = some .scratch → new.fixed = false

/-- A cell that programs may replace is no header. -/
theorem Accepts.not_header (hs : s.Sound known) {new : Cell} (hnew : s.Accepts slot new)
    (hh : s.heaps[slot.heap]? = some h) (hheader : h.kind.hasHeader = true) : slot.index ≠ 0 := by
  intro hzero
  obtain ⟨c, hcell, hfixed, href⟩ := hs.header_declared hh hheader
  have hc : s.cell slot = .ok c := cell_eq_ok_iff.mpr ⟨h, hh, by rw [hzero, hcell]⟩
  obtain ⟨kind, hkind, hopen⟩ := (hnew.declared hc hfixed href).1
  obtain rfl : h.kind = kind := by simpa [kind?, hh] using hkind
  rw [hopen hzero] at hheader
  cases hheader

/-- Replacing a cell by an acceptable one keeps the layout of its heap. -/
theorem Accepts.shaped (hs : s.Sound known) {new : Cell} (hnew : s.Accepts slot new)
    (hh : s.heaps[slot.heap]? = some h) :
    ({ h with cells := h.cells.setIfInBounds slot.index new } : Heap).Shaped s.maxLen known := by
  have hshaped := hs.shaped hh
  have hnot := hnew.not_header hs hh
  unfold Heap.Shaped at hshaped ⊢
  cases hkind : h.kind with
  | module => trivial
  | scratch =>
    simp only [hkind] at hshaped ⊢
    intro c hc
    rcases Array.mem_or_eq_of_mem_setIfInBounds hc with hold | rfl
    · exact hshaped c hold
    · exact hnew.scratch (kind?_eq_some_iff.mpr ⟨h, hh, hkind⟩)
  | array element =>
    simp only [hkind] at hshaped ⊢
    rw [Array.getElem?_setIfInBounds_ne (hnot (by rw [hkind]; rfl)), Array.size_setIfInBounds]
    exact hshaped
  | object =>
    simp only [hkind] at hshaped ⊢
    rw [Array.getElem?_setIfInBounds_ne (hnot (by rw [hkind]; rfl))]
    exact hshaped

/-- Replacing a cell by an acceptable one keeps a store sound. -/
theorem Sound.setCell (hs : s.Sound known) {new : Cell} (hnew : s.Accepts slot new)
    (hc : s.cell slot = .ok c) : (s.setCell slot new).Sound known := by
  obtain ⟨h, hh, -⟩ := cell_eq_ok_iff.mp hc
  refine hs.modifyHeap hh (hnew.shaped hs hh) fun c hc => ?_
  rcases Array.mem_or_eq_of_mem_setIfInBounds hc with hold | rfl
  · exact hs.admitted hh c hold
  · exact hnew.admits

/-- Replacing a cell by an acceptable one is an evolution. -/
theorem Accepts.evolves (hs : s.Sound known) {new : Cell} (hnew : s.Accepts slot new)
    (hc : s.cell slot = .ok c) : s.Evolves (s.setCell slot new) := by
  obtain ⟨h, hh, hcell⟩ := cell_eq_ok_iff.mp hc
  refine evolves_modifyHeap hh (by simp) (fun hkind => ?_) fun index c' hc' hfixed href => ?_
  · exact Array.getElem?_setIfInBounds_ne (hnew.not_header hs hh (by rw [hkind]; rfl))
  · by_cases heq : slot.index = index
    · have hslot : s.cell slot = .ok c' := cell_eq_ok_iff.mpr ⟨h, hh, by rw [heq, hc']⟩
      have hbound : index < h.cells.size := (Array.getElem?_eq_some_iff.mp hc').1
      refine ⟨new, by simp [heq, hbound], (hnew.declared hslot hfixed href).2⟩
    · exact ⟨c', by rw [Array.getElem?_setIfInBounds_ne heq, hc'], rfl, hfixed⟩

end Store

namespace StoreM

open Store Discipline

variable {s : Store} {known : String → Prop} {slot : Slot}

/-- Asking a question changes nothing. -/
theorem keeps_ask_bind {α β : Type} {question : Store → Except Fault α} {f : α → StoreM β}
    {Q : β → Store → Prop} (hs : s.Sound known)
    (hf : ∀ a, question s = .ok a → (discipline known).Keeps (f a) s Q) :
    (discipline known).Keeps (ask question >>= f) s Q := by
  cases hq : question s with
  | error e =>
    exact keeps_of_error (ask_bind_of_error hq) hs (Evolves.refl s)
  | ok a =>
    exact Keeps.of_eq (ask_bind_of_ok hq) (Evolves.refl s) (hf a hq)

/-- Replacing a cell by an acceptable one. -/
theorem keeps_replace {new : Cell} (hs : s.Sound known) (hnew : s.Accepts slot new) :
    (discipline known).Keeps (replace slot new) s fun _ _ => True := by
  refine keeps_ask_bind hs fun c hc => ?_
  exact keeps_modify (hs.setCell hnew hc) (hnew.evolves hs hc) trivial

/-- Recording a warning changes no heap. -/
theorem keeps_warn (hs : s.Sound known) (w : Warning) :
    (discipline known).Keeps (warn w) s fun _ s' => ∀ slot, s'.cell slot = s.cell slot := by
  have hgrows : s.Grows (s.warn w) := ⟨fun hh => ⟨_, hh, rfl, Nat.le_refl _, fun _ => rfl⟩, rfl⟩
  refine keeps_modify ⟨hs.shaped, fun hh c hc => (hs.admitted hh c hc).mono hgrows⟩ ?_ fun _ => rfl
  exact ⟨hgrows, fun hc hfixed _ => ⟨_, hc, rfl, hfixed⟩⟩

/-- Adding a heap, whose number comes out. -/
theorem keeps_alloc {kind : HeapKind} {cells : Array Cell} (hs : s.Sound known)
    (hshaped : (⟨kind, cells⟩ : Heap).Shaped s.maxLen known) (hcells : ∀ c ∈ cells, s.Admits c) :
    (discipline known).Keeps (alloc kind cells) s fun id s' =>
      s'.heaps[id]? = some ⟨kind, cells⟩ := by
  refine keeps_of_ok rfl (hs.alloc hshaped hcells) (evolves_alloc s kind cells) ?_
  exact (heaps_alloc s kind cells s.heaps.size).trans (if_pos rfl)

end StoreM

end SlotMachine
