import SlotMachine.Proofs.Session
import Mathlib.Tactic.Common

/-!
# What holds throughout a session

Whatever programs a host loads and starts, every cell holds a value of its type, declared types
stay, handles and headers can be trusted, and no element of an array is looked for outside its
storage. All of it follows from the soundness of the machine in every state of a session.
-/

namespace SlotMachine

/-- The value of the cell has the kind that the outer tag asks for. No tags count as untyped. -/
structure Cell.WellTyped (c : Cell) : Prop where
  /-- The outer tag has a meaning. -/
  known : c.tag.isKnown = true
  /-- An untyped cell is empty. -/
  untyped : c.tag = Tag.untyped → c.value = .nothing
  /-- Numbers and texts are of exactly the kind of the tag. -/
  scalar : c.tag ∈ [Tag.byte, Tag.long, Tag.double, Tag.uint64, Tag.string] →
    c.value.tag = c.tag
  /-- Handles are of the kind of the tag, and they may be missing. -/
  handle : c.tag ∈ [Tag.array, Tag.object, Tag.origin] →
    c.value.tag = c.tag ∨ c.value = .nothing
  /-- References and const references hold a slot, or nothing yet. -/
  reference : c.tag ∈ [Tag.ref, Tag.const] → (∃ target, c.value = .ref target) ∨ c.value = .nothing

/-- Every cell of the store is well typed. -/
def Store.WellTyped (s : Store) : Prop :=
  ∀ (slot : Slot) (c : Cell), s.cell slot = .ok c → c.WellTyped

/-- From one state to a later one, a declared type that is no reference stays as a whole. The slot of
a module's top-level instance is excepted if the instance was put there in between. -/
def Machine.KeepsDeclared (m m' : Machine) : Prop :=
  ∀ (slot : Slot) (c : Cell), m.store.cell slot = .ok c → c.fixed = true →
    c.isReference = false → m'.store.KeepsType slot c ∨ m.Placed m' slot

/-- Reaching an element either fails and changes nothing, because the index lies before the first
element or the array would become too long, or it leads to a cell behind the header of the storage,
which has lost no cells. -/
def StoreM.StaysInside (a : ArrayHandle) (index : Int64) (s : Store) : Prop :=
  match StoreM.reachElement a index s with
  | .error e s' => s' = s ∧ (e = .invalidIndex index ∨
      ∃ requested, e = .allocationLimit .array requested s.maxLen ∧ s.maxLen < requested)
  | .ok element s' => s.Grows s' ∧ element.slot.heap = a.storage ∧ 0 < element.slot.index ∧
      ∃ h, s'.heaps[a.storage]? = some h ∧ element.slot.index < h.cells.size

/-- In a step of the machine, an element of an array may be reached in the given store. -/
inductive Machine.Touches (m : Machine) : ArrayHandle → Int64 → Store → Prop where
  /-- By binding a slot to the element: the handle and the index are read before. -/
  | access {holder place : Slot} {a : ArrayHandle} {index : Int64} {s : Store} :
    m.store.array holder = .ok a → StoreM.readLong place m.store = .ok index s →
    m.Touches a index s
  /-- By collecting the further arguments of a call: the class of the function is found, the other
  parameters are bound, an array is allocated and its elements before this one are filled. Calls
  without arguments have none to collect. -/
  | argument {f : Frame} {cls : Class} {m₁ : Machine} {loaded : LoadedModule} {function : Function}
    {slots : List UInt64} {formals rest : List Slot} {k : Nat} {a : ArrayHandle} {s₁ s₂ s₃ : Store} :
    f ∈ m.frames →
    (MachineM.onLinkage (LinkM.topClass f.module) m = .ok cls m₁ ∨
      ∃ name, MachineM.onLinkage (LinkM.findClass name) m = .ok cls m₁) →
    m₁.registry.module cls.module = .ok loaded →
    formals = function.params.map (fun index => ⟨loaded.heap, index.toNat⟩) →
    StoreM.passArguments ((formals.zip (slots.map f.slot)).take function.namedCount) m₁.store =
      .ok () s₁ →
    rest = (slots.map f.slot).drop function.namedCount →
    StoreM.allocArray .untyped rest.length s₁ = .ok a s₂ → k < rest.length →
    StoreM.fillArray a 0 (rest.take k) s₂ = .ok () s₃ →
    m.Touches a (Int64.ofNat k) s₃

/-- Handles lead where they say and headers say what is true. -/
structure Machine.Trustworthy (maxLen : Nat) (m : Machine) : Prop where
  /-- Array handles name array storage. -/
  array_handle : ∀ {slot : Slot} {c : Cell} {a : ArrayHandle},
    m.store.cell slot = .ok c → c.value = .array a → m.store.IsArray a.storage
  /-- Instances are instances. -/
  object_handle : ∀ {slot : Slot} {c : Cell} {object : HeapId},
    m.store.cell slot = .ok c → c.value = .object object → m.store.IsObject object
  /-- References lead to no header. -/
  reference : ∀ {slot target : Slot} {c : Cell},
    m.store.cell slot = .ok c → c.value = .ref target → target.index = 0 →
      ¬ m.store.IsArray target.heap ∧ ¬ m.store.IsObject target.heap
  /-- Array storage starts with a count of elements that all have cells, and has no more cells than
  the limit allows. -/
  array_header : ∀ {id : HeapId}, m.store.IsArray id → ∃ h count, m.store.heaps[id]? = some h ∧
    h.cells[0]? = some ⟨[Tag.uint64], true, .uint64 count⟩ ∧ count.toNat ≤ h.cells.size - 1 ∧
    h.cells.size - 1 ≤ maxLen
  /-- Instances start with the name of a class that is known. -/
  object_header : ∀ {id : HeapId}, m.store.IsObject id → ∃ h name, m.store.heaps[id]? = some h ∧
    h.cells[0]? = some ⟨[Tag.string], true, .text name⟩ ∧ m.registry.Knows name
  /-- Making an instance of a known class adds a heap that starts with the qualified name of the
  class, even when storing the instance or beginning its constructor fails. -/
  new_header : ∀ {target : Slot} {name : String} {cls : Class} {resume : Resume},
    m.store.Exposed target → m.registry.class? name = some cls → resume.Sound m.store →
    Action.Ends (MachineM.newInstance target cls resume) m
      (fun _ m' => m'.store.HasInstance m.store.heaps.size cls.name)
      (fun _ m' => m'.store.HasInstance m.store.heaps.size cls.name)
  /-- So does making the instance of a module's top-level class, once the class is found. -/
  top_header : ∀ {module : ModuleId} {loaded : LoadedModule} {cls : Class} {m₁ : Machine}
    {resume : Resume}, m.registry.module module = .ok loaded → loaded.topInstance = none →
    MachineM.onLinkage (LinkM.topClass module) m = .ok cls m₁ → resume.Sound m.store →
    Action.Ends (MachineM.topInstance module resume) m
      (fun made m' => made.1 = m₁.store.heaps.size ∧
        m'.store.HasInstance m₁.store.heaps.size cls.name)
      (fun _ m' => m'.store.HasInstance m₁.store.heaps.size cls.name)
  /-- Elements of array storage are looked for inside it, whatever the index. -/
  element : ∀ {a : ArrayHandle}, m.store.IsArray a.storage → ∀ index,
    StoreM.StaysInside a index m.store
  /-- So are the elements that a step reaches after other changes of the store. -/
  inside : ∀ {a : ArrayHandle} {index : Int64} {s : Store}, m.Touches a index s →
    StoreM.StaysInside a index s

/-- The tags of numbers and texts, of handles and of references are different ones. -/
theorem Tag.not_mem_others : ∀ t ∈ [Tag.ref, Tag.const],
    t ≠ Tag.untyped ∧ t ∉ [Tag.byte, Tag.long, Tag.double, Tag.uint64, Tag.string] ∧
      t ∉ [Tag.array, Tag.object, Tag.origin] := by
  decide +kernel

/-- Nothing is at home under every tag but those of numbers and texts, a reference under both
reference tags, and any other value under its own tag alone. -/
theorem Value.cases_of_mem_homes {v : Value} {t : Tag} (h : t ∈ v.homes) :
    (v = .nothing ∧ t ∉ [Tag.byte, Tag.long, Tag.double, Tag.uint64, Tag.string]) ∨
      ((∃ target, v = .ref target) ∧ t ∈ [Tag.ref, Tag.const]) ∨
      (v.tag = t ∧ t ∉ [Tag.untyped, Tag.ref, Tag.const]) := by
  cases v with
  | nothing =>
    have hdisjoint : ∀ t ∈ Value.nothing.homes,
        t ∉ [Tag.byte, Tag.long, Tag.double, Tag.uint64, Tag.string] := by decide +kernel
    exact .inl ⟨rfl, hdisjoint t h⟩
  | ref target => exact .inr (.inl ⟨⟨target, rfl⟩, h⟩)
  | _ =>
    obtain rfl := List.mem_singleton.mp h
    exact .inr (.inr ⟨rfl, by simp only [Value.tag]; decide⟩)

/-- A value that fits the outer tag has the kind that the tag asks for. -/
theorem Cell.wellTyped_of_fits {c : Cell} (h : c.Fits) : c.WellTyped := by
  have hknown : ∀ t ∈ Tag.meaningful, t.isKnown = true := by decide +kernel
  refine ⟨hknown c.tag (Value.meaningful_of_mem_homes h), fun htag => ?_, fun htag => ?_,
    fun htag => ?_, fun htag => ?_⟩
  all_goals rcases Value.cases_of_mem_homes h with ⟨hvalue, hplain⟩ | ⟨hvalue, hhome⟩ | ⟨hown, hout⟩
  · exact hvalue
  · exact absurd htag (Tag.not_mem_others c.tag hhome).1
  · exact absurd (by simp [htag]) hout
  · exact absurd htag hplain
  · exact absurd htag (Tag.not_mem_others c.tag hhome).2.1
  · exact hown
  · exact .inr hvalue
  · exact absurd htag (Tag.not_mem_others c.tag hhome).2.2
  · exact .inl hown
  · exact .inr hvalue
  · exact .inl hvalue
  · exact absurd (List.mem_cons_of_mem Tag.untyped htag) hout

namespace Store

variable {s : Store} {known : String → Prop}

/-- A sound store is well typed. -/
theorem Sound.wellTyped (hs : s.Sound known) : s.WellTyped :=
  fun _ _ hc => Cell.wellTyped_of_fits (hs.admits hc).fits

/-- No slot is both exposed and a header. -/
theorem Exposed.not_header {slot : Slot} (he : s.Exposed slot) (hzero : slot.index = 0) :
    ¬ s.IsArray slot.heap ∧ ¬ s.IsObject slot.heap := by
  obtain ⟨kind, hkind, hopen⟩ := he
  have hplain := hopen hzero
  constructor
  · rintro ⟨element, harray⟩
    rw [hkind, Option.some.injEq] at harray
    rw [harray] at hplain
    cases hplain
  · intro hobject
    rw [IsObject, hkind, Option.some.injEq] at hobject
    rw [hobject] at hplain
    cases hplain

end Store

/-- In a sound store, elements of array storage are looked for inside. -/
theorem StoreM.staysInside_of_isArray {s : Store} {known : String → Prop} (hs : s.Sound known)
    {a : ArrayHandle} (ha : s.IsArray a.storage) (index : Int64) :
    StoreM.StaysInside a index s := by
  have hreaches := StoreM.reaches_of_isArray hs ha index
  unfold StoreM.Reaches at hreaches
  unfold StoreM.StaysInside
  cases hreach : StoreM.reachElement a index s with
  | error e s' =>
    rw [hreach] at hreaches
    exact hreaches
  | ok element s' =>
    rw [hreach] at hreaches
    obtain ⟨-, hev, hheap, hpos, c, hc⟩ := hreaches
    obtain ⟨h, hh, hcell⟩ := Store.cell_eq_ok_iff.mp hc
    rw [hheap] at hh
    exact ⟨hev.toGrows, hheap, hpos, h, hh, (Array.getElem?_eq_some_iff.mp hcell).1⟩

namespace Machine

variable {m : Machine}

/-- Finding the class of a function that is called leaves a sound machine. -/
theorem sound_of_class_found {id : ModuleId} {cls : Class} {m₁ : Machine} (hm : m.Sound)
    (h : MachineM.onLinkage (LinkM.topClass id) m = .ok cls m₁ ∨
      ∃ name, MachineM.onLinkage (LinkM.findClass name) m = .ok cls m₁) :
    m₁.Sound ∧ m.Evolves m₁ := by
  rcases h with htop | ⟨name, hfind⟩
  · exact (MachineM.keeps_onLinkage hm (LinkM.keeps_topClass hm.linkage id)).last
      (.inl ⟨cls, htop⟩)
  · exact (MachineM.keeps_onLinkage hm (LinkM.keeps_findClass hm.linkage name)).last
      (.inl ⟨cls, hfind⟩)

/-- A sound machine looks for elements inside the storage of their array. -/
theorem Sound.staysInside (hm : m.Sound) {a : ArrayHandle} {index : Int64} {s : Store}
    (h : m.Touches a index s) : StoreM.StaysInside a index s := by
  cases h with
  | access harray hread =>
    have ha := MachineM.isArray_of_array hm.linkage.store harray
    obtain ⟨hs, hev⟩ := (StoreM.keeps_readLong hm.linkage.store _).last (.inl ⟨index, hread⟩)
    exact StoreM.staysInside_of_isArray hs (ha.mono hev.toGrows) index
  | @argument f cls m₁ loaded function slots formals rest k a s₁ s₂ s₃ hf hclass hloaded hformals
      hpass hrest halloc hk hfill =>
    obtain ⟨hm₁, hev₁⟩ := sound_of_class_found hm hclass
    have hheap := hm₁.linkage.module_heap (MachineM.module_eq_ok_iff.mp hloaded)
    have hargs := MachineM.exposed_args ((hm.frames f hf).heap.mono hev₁.grows) slots
    have hpairs : ∀ p ∈ (formals.zip (slots.map f.slot)).take function.namedCount,
        m₁.store.IsModule p.1.heap ∧ m₁.store.Exposed p.2 := by
      intro p hp
      rw [hformals] at hp
      exact StoreM.exposed_of_mem_zip hheap hargs (List.mem_of_mem_take hp)
    obtain ⟨hs₁, -⟩ := (StoreM.keeps_passArguments hm₁.linkage.store hpairs).last
      (.inl ⟨(), hpass⟩)
    have huntyped : ElementKind.untyped.Fits := trivial
    obtain ⟨hs₂, -, ha⟩ := (StoreM.keeps_allocArray hs₁ huntyped rest.length).promised halloc
    obtain ⟨hs₃, hev₃⟩ := (StoreM.keeps_fillArray hs₂ ha).last (.inl ⟨(), hfill⟩)
    exact StoreM.staysInside_of_isArray hs₃ (ha.mono hev₃.toGrows) (Int64.ofNat k)

/-- The handles and headers of a sound machine can be trusted. -/
theorem Sound.trustworthy (hm : m.Sound) : m.Trustworthy m.settings.maxObjectLen where
  array_handle hc hvalue := hm.linkage.store.vouches hc hvalue
  object_handle hc hvalue := hm.linkage.store.vouches hc hvalue
  reference {slot target c} hc hvalue hzero := by
    have hexposed : m.store.Exposed target := hm.linkage.store.vouches hc hvalue
    exact hexposed.not_header hzero
  array_header ha := by
    obtain ⟨h, element, count, hh, -, -, hheader, hcount, hsize⟩ :=
      hm.linkage.store.array_header ha
    rw [← hm.maxLen]
    exact ⟨h, count, hh, hheader, by omega, Nat.sub_le_of_le_add hsize⟩
  object_header ho := by
    obtain ⟨h, name, hh, -, hheader, hname⟩ := hm.linkage.store.object_header ho
    exact ⟨h, name, hh, hheader, hname⟩
  new_header htarget hcls hresume :=
    MachineM.named_newInstance hm htarget (hm.linkage.usable hcls) hresume
  top_header hloaded hnone hclass hresume :=
    MachineM.named_topInstance hm hloaded hnone hclass hresume
  element ha index := StoreM.staysInside_of_isArray hm.linkage.store ha index
  inside h := hm.staysInside h

end Machine

namespace Session

variable (settings : Settings) (source : Source) (sink : Sink)

/-- Every state of a session is sound, has the settings of the session, and later ones evolve from
it. -/
theorem sound_session (events later : List HostEvent) :
    let before := ((create settings source sink).play events).machine
    before.Sound ∧ before.settings = settings ∧
      before.Evolves ((create settings source sink).play (events ++ later)).machine := by
  intro before
  have hcreate : (create settings source sink).machine.Sound :=
    Machine.sound_create settings source sink
  obtain ⟨hbefore, hev⟩ := sound_play hcreate events
  rw [play_append]
  exact ⟨hbefore, hev.settings, (sound_play hbefore later).2⟩

/-- In every state of every session each cell holds a value of the kind that its type asks for, and
a declared type that is no reference stays in all later states, but for the slot of a module's
top-level instance when the instance is put there. -/
theorem wellTyped_and_keepsDeclared (events later : List HostEvent) :
    let before := ((create settings source sink).play events).machine
    let after := ((create settings source sink).play (events ++ later)).machine
    before.store.WellTyped ∧ before.KeepsDeclared after := by
  intro before after
  obtain ⟨hsound, -, hev⟩ := sound_session settings source sink events later
  exact ⟨hsound.linkage.store.wellTyped, fun _ _ hc hfixed href => hev.declared hc hfixed href⟩

/-- In every state of every session handles and headers can be trusted; and in all later states the
heaps are still there with their kinds and all their cells, and the instances with the names of
their classes. -/
theorem trustworthy_and_grows (events later : List HostEvent) :
    let before := ((create settings source sink).play events).machine
    let after := ((create settings source sink).play (events ++ later)).machine
    before.Trustworthy settings.maxObjectLen ∧ before.store.Grows after.store := by
  intro before after
  obtain ⟨hsound, hsettings, hev⟩ := sound_session settings source sink events later
  refine ⟨?_, hev.grows⟩
  rw [← hsettings]
  exact hsound.trustworthy

end Session

end SlotMachine
