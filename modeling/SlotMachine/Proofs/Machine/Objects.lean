import SlotMachine.Proofs.Machine.Calls
import Mathlib.Tactic.Common

/-!
# Allocation, elements and members of a sound machine

New arrays and instances are stored where programs may write, elements and members are bound by
slots behind the header, and the instance of a top-level class is placed in its slot in one go with
the note that the module has it.
-/

namespace SlotMachine.MachineM

open Discipline Instruction

variable {m : Machine} {f : Frame}

/-- A new instance starts with the name of its class. -/
theorem template_header (cls : Class) :
    cls.template[0]? = some ⟨[Tag.string], true, .text cls.name⟩ := by
  unfold Class.template
  rw [Array.getElem?_append_left (by simp)]
  rfl

/-- The cells of a new instance of a usable class have the layout of an instance. -/
theorem shaped_template {cls : Class} {known : String → Prop} (hcls : cls.Usable known)
    (maxLen : Nat) : (⟨.object, cls.template⟩ : Heap).Shaped maxLen known :=
  ⟨cls.name, template_header cls, hcls.name_known⟩

/-- The cells of a new instance of a usable class may stand in any store. -/
theorem admits_template {cls : Class} {known : String → Prop} (hcls : cls.Usable known)
    (s : Store) : ∀ c ∈ cls.template, s.Admits c := by
  intro c hc
  unfold Class.template at hc
  rcases Array.mem_append.mp hc with hheader | hmember
  · obtain rfl := List.mem_singleton.mp (Array.mem_def.mp hheader)
    refine ⟨?_, fun _ => ?_, trivial⟩
    · show Tag.string ∈ [Tag.string]
      simp
    · show Tag.string ≠ Tag.untyped
      decide
  · obtain ⟨member, hmem, rfl⟩ := List.mem_map.mp (List.mem_toArray.mp hmember)
    exact Store.admits_declared (hcls.members_fit member hmem)

/-- Allocating an instance of a usable class. -/
theorem keeps_allocObject (hm : m.Sound) {cls : Class} (hcls : cls.Usable m.registry.Knows) :
    Machine.discipline.Keeps (onStore (StoreM.alloc .object cls.template)) m fun object m' =>
      m'.store.HasInstance object cls.name ∧ m'.registry = m.registry := by
  have halloc := StoreM.keeps_alloc hm.linkage.store (shaped_template hcls m.store.maxLen)
    (admits_template hcls m.store)
  refine (keeps_onStore hm halloc).mono fun object m' _ _ hpost => ?_
  obtain ⟨hheap, hregistry⟩ := hpost
  exact ⟨⟨_, hheap, rfl, template_header cls⟩, hregistry⟩

/-- An instance of a usable class is the next heap. -/
theorem exists_allocObject (hm : m.Sound) {cls : Class} (hcls : cls.Usable m.registry.Knows) :
    ∃ m', onStore (StoreM.alloc .object cls.template) m = .ok m.store.heaps.size m' ∧ m'.Sound ∧
      m.Evolves m' ∧ m'.store.HasInstance m.store.heaps.size cls.name ∧
      m'.registry = m.registry :=
  ⟨_, rfl, (keeps_allocObject hm hcls).promised rfl⟩

/-- Allocating an array and storing its handle in an exposed slot. -/
theorem keeps_newArray (hm : m.Sound) {target : Slot} (htarget : m.store.Exposed target)
    {element : ElementKind} (helement : element.Fits) (len : Nat) :
    Machine.discipline.Keeps (newArray target element len) m fun _ _ => True := by
  unfold newArray
  refine (keeps_onStore hm (StoreM.keeps_allocArray hm.linkage.store helement len)).bind
    fun a m₁ hm₁ hev₁ ha => ?_
  have hwrite := StoreM.keeps_write hm₁.linkage.store (htarget.mono hev₁.grows)
    (show m₁.store.Vouches (.array a) from ha.1)
  refine (keeps_onStore hm₁ hwrite).bind fun _ m₂ hm₂ _ _ => ?_
  exact keeps_pure hm₂ trivial

/-- Storing an instance in an exposed slot and beginning its constructor. -/
theorem keeps_storing (hm : m.Sound) {target : Slot} (htarget : m.store.Exposed target)
    {object : HeapId} (hobject : m.store.IsObject object) (cls : Class) {resume : Resume}
    (hresume : resume.Sound m.store) :
    Machine.discipline.Keeps (do
      onStore (StoreM.write target (.object object))
      construct cls object resume) m fun _ _ => True := by
  have hwrite := StoreM.keeps_write hm.linkage.store htarget
    (show m.store.Vouches (.object object) from hobject)
  refine (keeps_onStore hm hwrite).bind fun _ m' hm' hev _ => ?_
  exact keeps_construct hm' cls object (hresume.mono hev.grows)

/-- Allocating an instance of a usable class, storing it in an exposed slot, and beginning its
constructor. -/
theorem keeps_newInstance (hm : m.Sound) {target : Slot} (htarget : m.store.Exposed target)
    {cls : Class} (hcls : cls.Usable m.registry.Knows) {resume : Resume}
    (hresume : resume.Sound m.store) :
    Machine.discipline.Keeps (newInstance target cls resume) m fun _ _ => True := by
  unfold newInstance
  refine (keeps_allocObject hm hcls).bind fun object m' hm' hev hobject => ?_
  exact keeps_storing hm' (htarget.mono hev.grows) hobject.1.isObject cls (hresume.mono hev.grows)

/-- However this ends, the instance has been allocated and carries the name of its class. -/
theorem named_newInstance (hm : m.Sound) {target : Slot} (htarget : m.store.Exposed target)
    {cls : Class} (hcls : cls.Usable m.registry.Knows) {resume : Resume}
    (hresume : resume.Sound m.store) :
    Action.Ends (newInstance target cls resume) m
      (fun _ m' => m'.store.HasInstance m.store.heaps.size cls.name)
      (fun _ m' => m'.store.HasInstance m.store.heaps.size cls.name) := by
  obtain ⟨m₁, halloc, hm₁, hev, hnamed, -⟩ := exists_allocObject hm hcls
  have hstoring := keeps_storing hm₁ (htarget.mono hev.grows) hnamed.isObject cls
    (hresume.mono hev.grows)
  have hends := hstoring.ends fun m' hev' => hnamed.mono hev'.grows
  exact Action.ends_bind_of_ok halloc (hends.mono (fun _ _ h => h.2) fun _ _ h => h)

/-- A handle that is read names array storage. -/
theorem isArray_of_array {s : Store} {known : String → Prop} (hs : s.Sound known) {slot : Slot}
    {a : ArrayHandle} (h : s.array slot = .ok a) : s.IsArray a.storage := by
  unfold Store.array at h
  split at h
  · rename_i a' hvalue
    cases h
    exact hs.vouches_value hvalue
  · cases h
  · cases h

/-- A text that is read from a slot lies in some heap. -/
theorem kind_of_text {s : Store} {slot : Slot} {text : String} (h : s.text slot = .ok text) :
    ∃ kind, s.kind? slot.heap = some kind := by
  unfold Store.text at h
  split at h
  · rename_i text' hvalue
    obtain ⟨origin, -, horigin, -⟩ := Store.cell_of_value hvalue
    obtain ⟨c, hc⟩ := Store.exists_cell_of_origin horigin
    exact Store.exists_kind_of_cell hc
  · cases h
  · cases h

/-- The cell that holds the instance of a top-level class. -/
def topCell (object : HeapId) : Cell :=
  { Cell.declared [Tag.object] with value := .object object }

/-- The machine in which an instance has been put into a slot and noted. -/
def withTop (m : Machine) (module : ModuleId) (slot : Slot) (object : HeapId) : Machine :=
  { m with
    store := m.store.setCell slot (topCell object)
    registry := m.registry.setTopInstance module object }

section Placing

variable {module : ModuleId} {loaded : LoadedModule} {object : HeapId} {index : Nat} {c : Cell}

/-- The store grows when an instance is put into a module's heap. -/
theorem grows_withTop (hm : m.Sound) (hloaded : m.registry.modules[module]? = some loaded) :
    m.store.Grows (withTop m module ⟨loaded.heap, index⟩ object).store := by
  obtain ⟨h, hh, hkind⟩ := Store.kind?_eq_some_iff.mp (hm.linkage.module_heap hloaded)
  change m.store.Grows (m.store.modifyHeap loaded.heap fun cells =>
    cells.setIfInBounds index (topCell object))
  refine Store.grows_modifyHeap hh (by simp) fun hobject => ?_
  rw [hkind] at hobject
  cases hobject

/-- A machine stays sound when an instance is put into a module's heap and noted. -/
theorem sound_withTop (hm : m.Sound) (hloaded : m.registry.modules[module]? = some loaded)
    (hobject : m.store.IsObject object) :
    (withTop m module ⟨loaded.heap, index⟩ object).Sound := by
  obtain ⟨h, hh, hkind⟩ := Store.kind?_eq_some_iff.mp (hm.linkage.module_heap hloaded)
  have hgrows : m.store.Grows (withTop m module ⟨loaded.heap, index⟩ object).store :=
    grows_withTop hm hloaded
  have hstore : (m.store.setCell ⟨loaded.heap, index⟩ (topCell object)).Sound m.registry.Knows := by
    refine hm.linkage.store.modifyHeap hh (by simp only [Heap.Shaped, hkind]) fun c hc => ?_
    rcases Array.mem_or_eq_of_mem_setIfInBounds hc with hold | rfl
    · exact hm.linkage.store.admitted hh c hold
    · refine ⟨?_, fun _ => ?_, hobject⟩
      · show Tag.object ∈ [Tag.object]
        simp
      · show Tag.object ≠ Tag.untyped
        decide
  refine ⟨⟨hstore, fun hm' => ?_, fun hm' => ?_, hm.linkage.class_name, hm.linkage.members_fit⟩,
    hgrows.kind_eq hm.scratch, fun f hf => (hm.frames f hf).mono hgrows, hm.natives, hm.maxLen⟩
  · obtain ⟨before, hbefore, hheap, -⟩ := Registry.module_of_setTopInstance hm'
    rw [← hheap]
    exact (hm.linkage.module_heap hbefore).mono hgrows
  · obtain ⟨before, hbefore, -, hconstants, -⟩ := Registry.module_of_setTopInstance hm'
    rw [← hconstants]
    exact hm.linkage.constants hbefore

/-- A machine evolves when the instance of a top-level class is put into its slot and noted. -/
theorem evolves_withTop (hm : m.Sound) (hloaded : m.registry.modules[module]? = some loaded)
    (hnone : loaded.topInstance = none) (hc : m.store.cell ⟨loaded.heap, topSlot⟩ = .ok c) :
    m.Evolves (withTop m module ⟨loaded.heap, topSlot⟩ object) where
  grows := grows_withTop hm hloaded
  module_kept {id before} hbefore := by
    have hmodule := Registry.modules_setTopInstance m.registry module id object
    by_cases heq : id = module
    · subst heq
      cases hloaded.symm.trans hbefore
      rw [if_pos rfl, hloaded] at hmodule
      exact ⟨_, hmodule, rfl, fun object h => by rw [hnone] at h; cases h⟩
    · rw [if_neg heq, hbefore] at hmodule
      exact ⟨before, hmodule, rfl, fun _ h => h⟩
  module_new hm' := by
    obtain ⟨before, hbefore, hheap, -, htop⟩ := Registry.module_of_setTopInstance hm'
    exact .inl ⟨before, hbefore, hheap, htop⟩
  knows := id
  settings := rfl
  declared {slot c'} hc' hfixed _ := by
    have hcell : (withTop m module ⟨loaded.heap, topSlot⟩ object).store.cell slot =
        if slot = ⟨loaded.heap, topSlot⟩ then .ok (topCell object) else m.store.cell slot :=
      Store.cell_setCell hc _
    by_cases heq : slot = ⟨loaded.heap, topSlot⟩
    · subst heq
      have hnoted := Registry.modules_setTopInstance m.registry module module object
      rw [if_pos rfl, hloaded] at hnoted
      rw [if_pos rfl] at hcell
      exact .inr ⟨rfl, ⟨module, loaded, _, object, hloaded, rfl, hnone, hnoted, rfl⟩,
        topCell object, hcell, rfl, rfl⟩
    · rw [if_neg heq] at hcell
      exact .inl ⟨c', hcell.trans hc', rfl, hfixed⟩

/-- Putting the instance of a top-level class into its slot and noting it, and what follows: either
the slot is missing and nothing changes, or what follows starts from where the instance is noted. -/
theorem placing_cases (m : Machine) (module : ModuleId) (slot : Slot) (object : HeapId) {β : Type}
    (next : MachineM β) :
    let placing : MachineM β := do
      onStore (StoreM.replace slot { Cell.declared [Tag.object] with value := .object object })
      modify fun m => { m with registry := m.registry.setTopInstance module object }
      next
    (∃ e, placing m = .error e m) ∨
      ∃ c, m.store.cell slot = .ok c ∧ placing m = next (withTop m module slot object) := by
  intro placing
  cases hc : m.store.cell slot with
  | error e =>
    have hreplace : onStore (StoreM.replace slot (topCell object)) m = .error e m := by
      rw [onStore_eq, StoreM.replace, StoreM.ask_bind_of_error hc]
      rfl
    exact .inl ⟨e, Action.bind_of_error hreplace⟩
  | ok c =>
    have hreplace : onStore (StoreM.replace slot (topCell object)) m =
        .ok () (m.withLinkage ⟨m.registry, m.store.setCell slot (topCell object)⟩) := by
      rw [onStore_eq, StoreM.replace_eq_ok_iff.mpr ⟨⟨c, hc⟩, rfl⟩]
    exact .inr ⟨c, rfl, Action.bind_of_ok hreplace⟩

/-- Placing the instance of a top-level class and beginning its constructor. -/
theorem keeps_placing (hm : m.Sound) (hloaded : m.registry.modules[module]? = some loaded)
    (hnone : loaded.topInstance = none) (hobject : m.store.IsObject object) (cls : Class)
    {resume : Resume} (hresume : resume.Sound m.store) :
    Machine.discipline.Keeps (do
      onStore (StoreM.replace ⟨loaded.heap, topSlot⟩
        { Cell.declared [Tag.object] with value := .object object })
      modify fun m => { m with registry := m.registry.setTopInstance module object }
      let flow ← construct cls object resume
      pure (object, flow)) m fun made _ => made.1 = object := by
  rcases placing_cases m module ⟨loaded.heap, topSlot⟩ object _ with ⟨e, he⟩ | ⟨c, hc, heq⟩
  · exact keeps_of_error he hm (Machine.Evolves.refl m)
  · have hsound : (withTop m module ⟨loaded.heap, topSlot⟩ object).Sound :=
      sound_withTop hm hloaded hobject
    have hev : m.Evolves (withTop m module ⟨loaded.heap, topSlot⟩ object) :=
      evolves_withTop hm hloaded hnone hc
    refine Keeps.of_eq heq hev ?_
    refine (keeps_construct hsound cls object (hresume.mono hev.grows)).bind
      fun flow m' hm' _ _ => ?_
    exact keeps_pure hm' rfl

/-- Room for the instance of a top-level class is made in its module's heap, and the instance becomes
the next heap. -/
theorem exists_topObject (hm : m.Sound) (hloaded : m.registry.modules[module]? = some loaded)
    {cls : Class} (hcls : cls.Usable m.registry.Knows) :
    ∃ m', (∀ {β : Type} (next : HeapId → MachineM β), (do
          onStore (StoreM.extend loaded.heap (topSlot + 1))
          let object ← onStore (StoreM.alloc .object cls.template)
          next object) m = next m.store.heaps.size m') ∧
      m'.Sound ∧ m.Evolves m' ∧ m'.store.HasInstance m.store.heaps.size cls.name ∧
      m'.registry = m.registry := by
  have hheap : m.store.IsModule loaded.heap := hm.linkage.module_heap hloaded
  obtain ⟨h, hh, -⟩ := Store.kind?_eq_some_iff.mp hheap
  obtain ⟨m₁, hextend, hsize, hregistry⟩ : ∃ m₁,
      onStore (StoreM.extend loaded.heap (topSlot + 1)) m = .ok () m₁ ∧
        m₁.store.heaps.size = m.store.heaps.size ∧ m₁.registry = m.registry := by
    rw [onStore_eq, StoreM.extend_of_heap hh]
    exact ⟨_, rfl, Array.size_modify, rfl⟩
  obtain ⟨hm₁, hev₁, -⟩ := (keeps_onStore hm
    (StoreM.keeps_extend hm.linkage.store hheap (topSlot + 1))).promised hextend
  rw [← hregistry] at hcls
  obtain ⟨m₂, halloc, hm₂, hev₂, hnamed, hregistry₂⟩ := exists_allocObject hm₁ hcls
  rw [hsize] at halloc hnamed
  refine ⟨m₂, fun next => ?_, hm₂, hev₁.trans hev₂, hnamed, hregistry₂.trans hregistry⟩
  exact (Action.bind_of_ok hextend).trans (Action.bind_of_ok halloc)

end Placing

/-- Beginning to make the instance of a module's top-level class. -/
theorem keeps_topInstance (hm : m.Sound) (module : ModuleId) {resume : Resume}
    (hresume : resume.Sound m.store) :
    Machine.discipline.Keeps (topInstance module resume) m fun _ _ => True := by
  unfold topInstance
  refine keeps_ask_bind hm fun loaded hloaded => ?_
  have hmodule := module_eq_ok_iff.mp hloaded
  split
  · refine (keeps_perform hm hresume).bind fun _ m' hm' _ _ => ?_
    exact keeps_pure hm' trivial
  · rename_i hnone
    refine (keeps_onLinkage hm (LinkM.keeps_topClass hm.linkage module)).bind
      fun cls m₁ hm₁ hev₁ hpost₁ => ?_
    have hmodule₁ := hpost₁.2 hmodule
    obtain ⟨m₂, hstart, hm₂, hev₂, hnamed, hregistry⟩ := exists_topObject hm₁ hmodule₁ hpost₁.1
    rw [← hregistry] at hmodule₁
    have hresume₂ := hresume.mono (hev₁.grows.trans hev₂.grows)
    have hplacing := keeps_placing hm₂ hmodule₁ hnone hnamed.isObject cls hresume₂
    exact Keeps.of_eq (hstart _) hev₂ (hplacing.mono fun _ _ _ _ _ => trivial)

/-- Once the top-level class is found, the instance is allocated and carries the name of the class,
however this ends. -/
theorem named_topInstance (hm : m.Sound) {module : ModuleId} {loaded : LoadedModule} {cls : Class}
    {m₁ : Machine} {resume : Resume} (hloaded : m.registry.module module = .ok loaded)
    (hnone : loaded.topInstance = none)
    (hclass : onLinkage (LinkM.topClass module) m = .ok cls m₁) (hresume : resume.Sound m.store) :
    Action.Ends (topInstance module resume) m
      (fun made m' => made.1 = m₁.store.heaps.size ∧
        m'.store.HasInstance m₁.store.heaps.size cls.name)
      (fun _ m' => m'.store.HasInstance m₁.store.heaps.size cls.name) := by
  obtain ⟨hm₁, hev₁, husable, hkept⟩ :=
    (keeps_onLinkage hm (LinkM.keeps_topClass hm.linkage module)).promised hclass
  have hmodule := hkept (module_eq_ok_iff.mp hloaded)
  obtain ⟨m₂, hstart, hm₂, hev₂, hnamed, hregistry⟩ := exists_topObject hm₁ hmodule husable
  rw [← hregistry] at hmodule
  have hplacing := keeps_placing hm₂ hmodule hnone hnamed.isObject cls
    (hresume.mono (hev₁.grows.trans hev₂.grows))
  have hends := hplacing.ends fun m' hev => hnamed.mono hev.grows
  have hasked : ask (fun m => m.registry.module module) m = .ok loaded m := by
    simp [ask, hloaded]
  unfold topInstance
  refine Action.ends_bind_of_ok hasked ?_
  rw [hnone]
  refine Action.ends_bind_of_ok hclass ?_
  rw [Action.Ends, hstart]
  exact hends

/-- Binding a slot to the instance of another module's top-level class. -/
theorem keeps_bindModule (hm : m.Sound) (target : Slot) (file : String) :
    Machine.discipline.Keeps (bindModule target file) m fun _ _ => True := by
  unfold bindModule
  refine (keeps_onLinkage hm (LinkM.keeps_requireFile hm.linkage file)).bind
    fun module m' hm' _ _ => ?_
  refine keeps_ask_bind hm' fun loaded hloaded => ?_
  have hheap := hm'.linkage.module_heap (module_eq_ok_iff.mp hloaded)
  have hresume : (Resume.bind target ⟨loaded.heap, topSlot⟩).Sound m'.store := hheap.exposed topSlot
  refine (keeps_topInstance hm' module hresume).bind fun _ m'' hm'' _ _ => ?_
  exact keeps_pure hm'' trivial

/-- Allocating what a class name asks for. -/
theorem keeps_newNamed (hm : m.Sound) (f : Frame) {target : Slot}
    (htarget : m.store.Exposed target) (size : Nat) (name : String) :
    Machine.discipline.Keeps (newNamed f target size name) m fun _ _ => True := by
  unfold newNamed
  refine keeps_ask_bind hm fun qualified _ => ?_
  refine (keeps_onLinkage hm (LinkM.keeps_findClass hm.linkage qualified)).bind
    fun cls m' hm' hev hpost => ?_
  have htarget' := htarget.mono hev.grows
  split
  · exact keeps_newInstance hm' htarget' hpost.1 (Resume.sound_proceed m'.store)
  · have hinstances : (ElementKind.instances cls.name).Fits := trivial
    exact keeps_newArray hm' htarget' hinstances size

/-- Allocating an array of elements like a slot. -/
theorem keeps_newLike (hm : m.Sound) {target : Slot} (htarget : m.store.Exposed target)
    (typeSlot : Slot) (size : Nat) :
    Machine.discipline.Keeps (newLike target typeSlot size) m fun _ _ => True := by
  unfold newLike
  refine keeps_ask_bind hm fun c hc => ?_
  obtain ⟨origin, -, hcell⟩ := Store.cell_of_originCell hc
  refine keeps_newArray hm htarget ?_ size
  unfold elementsLike
  split
  · trivial
  · exact (hm.linkage.store.admits hcell).fits.declared

/-- Allocating. -/
theorem keeps_new (hm : m.Sound) (hf : f.Sound m.store) (i : Instruction) :
    Machine.discipline.Keeps (new f i) m fun _ _ => True := by
  unfold new
  refine keeps_ask_bind hm fun operands _ => ?_
  have hread := StoreM.keeps_readUInt64 hm.linkage.store (f.slot (nth 1 operands))
  refine (keeps_onStore hm hread).bind fun size m' hm' hev _ => ?_
  have htarget := Simple.exposed_slot (hf.heap.mono hev.grows) (nth 0 operands)
  dsimp only
  split
  · have huntyped : ElementKind.untyped.Fits := trivial
    exact keeps_newArray hm' htarget huntyped _
  · refine keeps_ask_bind hm' fun v _ => ?_
    split
    · refine keeps_ask_bind hm' fun top _ => ?_
      split
      · exact keeps_bindModule hm' _ _
      · split
        · exact keeps_newLike hm' htarget _ _
        · exact keeps_newNamed hm' f htarget _ _
    · exact keeps_newLike hm' htarget _ _

/-- Binding a slot to an array element. -/
theorem keeps_array (hm : m.Sound) (i : Instruction) :
    Machine.discipline.Keeps (array f i) m fun _ _ => True := by
  unfold array
  refine keeps_ask_bind hm fun operands _ => ?_
  refine keeps_ask_bind hm fun a ha => ?_
  have harray : m.store.IsArray a.storage := isArray_of_array hm.linkage.store ha
  have hread := StoreM.keeps_readLong hm.linkage.store (f.slot (nth 2 operands))
  refine (keeps_onStore hm hread).bind fun index m₁ hm₁ hev₁ _ => ?_
  have hreach := StoreM.keeps_reachElement hm₁.linkage.store (harray.mono hev₁.grows) index
  refine (keeps_onStore hm₁ hreach).bind fun element m₂ hm₂ hev₂ hpost => ?_
  cases element with
  | ready slot =>
    have hresume : (Resume.bind (f.slot (nth 0 operands)) slot).Sound m₂.store := hpost.1
    refine (keeps_perform hm₂ hresume).bind fun _ m₃ hm₃ _ _ => ?_
    exact keeps_pure hm₃ trivial
  | unbuilt slot className =>
    refine (keeps_onLinkage hm₂ (LinkM.keeps_findClass hm₂.linkage className)).bind
      fun cls m₃ hm₃ hev₃ hpost₃ => ?_
    have hslot : m₃.store.Exposed slot := Store.Exposed.mono hpost.1 hev₃.grows
    have hresume : (Resume.bind (f.slot (nth 0 operands)) slot).Sound m₃.store := hslot
    exact keeps_newInstance hm₃ hslot hpost₃.1 hresume

/-- Binding a slot to a member. -/
theorem keeps_loadMember (hm : m.Sound) (i : Instruction) :
    Machine.discipline.Keeps (loadMember f i) m fun _ _ => True := by
  unfold loadMember
  refine keeps_ask_bind hm fun operands _ => ?_
  refine (keeps_receiver hm f (nth 1 operands)).bind fun object m₁ hm₁ _ _ => ?_
  refine keeps_ask_bind hm₁ fun member _ => ?_
  refine keeps_ask_bind hm₁ fun className hname => ?_
  obtain ⟨kind, hkind⟩ := kind_of_text hname
  refine (keeps_onLinkage hm₁ (LinkM.keeps_findClass hm₁.linkage className)).bind
    fun cls m₂ hm₂ hev₂ _ => ?_
  split
  · exact keeps_throw hm₂
  · rename_i offset _
    have hresume : (Resume.bind (f.slot (nth 0 operands)) ⟨object, 1 + offset⟩).Sound m₂.store :=
      ⟨kind, hev₂.grows.kind_eq hkind, fun hzero => by simp at hzero⟩
    refine (keeps_perform hm₂ hresume).bind fun _ m₃ hm₃ _ _ => ?_
    exact keeps_pure hm₃ trivial

end SlotMachine.MachineM
