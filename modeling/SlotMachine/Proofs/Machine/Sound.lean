import SlotMachine.Machine.Run
import SlotMachine.Proofs.Linkage
import SlotMachine.Proofs.Native
import SlotMachine.Proofs.Store.Passing
import Mathlib.Tactic.Common

/-!
# Sound machines

A machine is sound when its store and registry are, and when every frame works in a module's heap
and leads back to slots that a program may write. Machines evolve as their stores do, with one
exception: the instance of a module's top-level class is put into slot 2 of the module's heap
whatever was declared there.
-/

namespace SlotMachine

/-- What a caller does after a call leads to an exposed slot. -/
def Resume.Sound (s : Store) : Resume → Prop
  | proceed => True
  | bind _ target => s.Exposed target

/-- What holds of every frame. -/
structure Frame.Sound (s : Store) (f : Frame) : Prop where
  /-- Operands are slots of a module's heap. -/
  heap : s.IsModule f.heap
  /-- The return value goes to an exposed slot. -/
  returnSlot : ∀ slot, f.returnSlot = some slot → s.Exposed slot
  /-- So does what the caller binds. -/
  resume : f.resume.Sound s

namespace Machine

/-- Registry and store. -/
def linkage (m : Machine) : Linkage := ⟨m.registry, m.store⟩

/-- What holds of every machine with the standard native functions. -/
structure Sound (m : Machine) : Prop where
  /-- Registry and store are sound. -/
  linkage : m.linkage.Sound
  /-- The slot that takes unwanted return values is a cell of the machine itself. -/
  scratch : m.store.kind? scratchSlot.heap = some .scratch
  /-- The frames are sound. -/
  frames : ∀ f ∈ m.frames, f.Sound m.store
  /-- There are no other native functions. -/
  natives : m.natives = NativeTable.standard
  /-- Arrays are limited as the settings say. -/
  maxLen : m.store.maxLen = m.settings.maxObjectLen

/-- Between two states, the instance of the top-level class of the module that has the slot's heap
was put into the slot. -/
structure Placed (m m' : Machine) (slot : Slot) : Prop where
  /-- It is the slot for such instances. -/
  index : slot.index = MachineM.topSlot
  /-- The module had no instance before and has one afterwards. -/
  noted : ∃ (id : ModuleId) (before after : LoadedModule) (object : HeapId),
    m.registry.modules[id]? = some before ∧ before.heap = slot.heap ∧
    before.topInstance = none ∧ m'.registry.modules[id]? = some after ∧
    after.topInstance = some object
  /-- The slot is declared to hold an instance. -/
  cell : ∃ c, m'.store.cell slot = .ok c ∧ c.tags = [Tag.object] ∧ c.fixed = true

/-- How machines change. -/
structure Evolves (m m' : Machine) : Prop where
  /-- The store grows. -/
  grows : m.store.Grows m'.store
  /-- Modules keep their heap and the instance of their top-level class. -/
  module_kept : ∀ {id : ModuleId} {loaded : LoadedModule}, m.registry.modules[id]? = some loaded →
    ∃ loaded', m'.registry.modules[id]? = some loaded' ∧ loaded'.heap = loaded.heap ∧
      ∀ object, loaded.topInstance = some object → loaded'.topInstance = some object
  /-- The heap of a new module is new. -/
  module_new : ∀ {id : ModuleId} {loaded' : LoadedModule},
    m'.registry.modules[id]? = some loaded' →
      (∃ loaded, m.registry.modules[id]? = some loaded ∧ loaded.heap = loaded'.heap ∧
        (loaded'.topInstance = none → loaded.topInstance = none)) ∨
      m.store.kind? loaded'.heap = none
  /-- Known names stay known. -/
  knows : ∀ {name : String}, m.registry.Knows name → m'.registry.Knows name
  /-- The settings stay. -/
  settings : m'.settings = m.settings
  /-- Declared types other than references stay, but for the slots of top-level instances. -/
  declared : ∀ {slot : Slot} {c : Cell}, m.store.cell slot = .ok c → c.fixed = true →
    c.isReference = false → m'.store.KeepsType slot c ∨ m.Placed m' slot

variable {m m' m'' : Machine}

/-- A machine evolves by not changing. -/
theorem Evolves.refl (m : Machine) : m.Evolves m where
  grows := Store.Grows.refl m.store
  module_kept hm := ⟨_, hm, rfl, fun _ h => h⟩
  module_new hm := .inl ⟨_, hm, rfl, id⟩
  knows := id
  settings := rfl
  declared hc hfixed _ := .inl ⟨_, hc, rfl, hfixed⟩

/-- An instance that is placed stays noted, and its slot stays declared. -/
theorem Placed.trans_evolves {slot : Slot} (hp : m.Placed m' slot) (hev : m'.Evolves m'') :
    m.Placed m'' slot := by
  obtain ⟨hindex, ⟨id, before, after, object, hbefore, hheap, hnone, hafter, hsome⟩, c, hc, htags,
    hfixed⟩ := hp
  obtain ⟨after', hafter', -, htop⟩ := hev.module_kept hafter
  refine ⟨hindex, ⟨id, before, after', object, hbefore, hheap, hnone, hafter', htop object hsome⟩,
    ?_⟩
  have href : c.isReference = false := by rw [Cell.isReference, Cell.tag, htags]; rfl
  rcases hev.declared hc hfixed href with ⟨c', hc', htags', hfixed'⟩ | hagain
  · exact ⟨c', hc', htags'.trans htags, hfixed'⟩
  · exact hagain.cell

/-- An instance placed later was placed since an earlier state, if its slot was there already. -/
theorem Evolves.trans_placed {slot : Slot} {c : Cell} (hev : m.Evolves m')
    (hc : m.store.cell slot = .ok c) (hp : m'.Placed m'' slot) : m.Placed m'' slot := by
  obtain ⟨hindex, ⟨id, before, after, object, hbefore, hheap, hnone, hafter, hsome⟩, hcell⟩ := hp
  rcases hev.module_new hbefore with ⟨loaded, hloaded, hsame, htop⟩ | hnew
  · exact ⟨hindex, ⟨id, loaded, after, object, hloaded, hsame.trans hheap, htop hnone, hafter,
      hsome⟩, hcell⟩
  · obtain ⟨kind, hkind⟩ := Store.exists_kind_of_cell hc
    rw [hheap, hkind] at hnew
    cases hnew

/-- Changes of a machine add up. -/
theorem Evolves.trans (h₁ : m.Evolves m') (h₂ : m'.Evolves m'') : m.Evolves m'' where
  grows := h₁.grows.trans h₂.grows
  module_kept hm := by
    obtain ⟨loaded', hloaded', hheap', htop'⟩ := h₁.module_kept hm
    obtain ⟨loaded'', hloaded'', hheap'', htop''⟩ := h₂.module_kept hloaded'
    exact ⟨loaded'', hloaded'', hheap''.trans hheap', fun object h => htop'' object (htop' object h)⟩
  module_new {id loaded''} hm := by
    rcases h₂.module_new hm with ⟨loaded', hloaded', hheap', htop'⟩ | hnew
    · rcases h₁.module_new hloaded' with ⟨loaded, hloaded, hheap, htop⟩ | hnew
      · exact .inl ⟨loaded, hloaded, hheap.trans hheap', fun h => htop (htop' h)⟩
      · exact .inr (by rw [← hheap', hnew])
    · refine .inr ?_
      cases hkind : m.store.kind? loaded''.heap with
      | none => rfl
      | some kind =>
        rw [h₁.grows.kind_eq hkind] at hnew
        cases hnew
  knows h := h₂.knows (h₁.knows h)
  settings := h₂.settings.trans h₁.settings
  declared {slot c} hc hfixed href := by
    rcases h₁.declared hc hfixed href with ⟨c', hc', htags', hfixed'⟩ | hplaced
    · have href' := Store.isReference_of_tags_eq htags' href
      rcases h₂.declared hc' hfixed' href' with ⟨c'', hc'', htags'', hfixed''⟩ | hplaced
      · exact .inl ⟨c'', hc'', htags''.trans htags', hfixed''⟩
      · exact .inr (h₁.trans_placed hc hplaced)
    · exact .inr (hplaced.trans_evolves h₂)

/-- The discipline of machines. -/
def discipline : Discipline Machine where
  Sound := Sound
  Evolves := Evolves
  refl := Evolves.refl
  trans := Evolves.trans

end Machine

namespace Resume

theorem sound_proceed (s : Store) : proceed.Sound s :=
  trivial

theorem Sound.mono {r : Resume} {s s' : Store} (hr : r.Sound s) (hg : s.Grows s') : r.Sound s' := by
  cases r with
  | proceed => trivial
  | bind result target => exact Store.Exposed.mono hr hg

end Resume

theorem Frame.Sound.mono {f : Frame} {s s' : Store} (hf : f.Sound s) (hg : s.Grows s') :
    f.Sound s' :=
  ⟨hf.heap.mono hg, fun slot h => (hf.returnSlot slot h).mono hg, hf.resume.mono hg⟩

namespace Machine

variable {m : Machine} {l : Linkage}

/-- Sink, source, program and frames are no part of how a machine evolves. -/
theorem evolves_of_eq {m' : Machine} (hstore : m'.store = m.store)
    (hmodules : m'.registry.modules = m.registry.modules)
    (hclasses : m'.registry.classes = m.registry.classes) (hsettings : m'.settings = m.settings) :
    m.Evolves m' where
  grows := by rw [hstore]; exact Store.Grows.refl m.store
  module_kept hm := ⟨_, by rw [hmodules, hm], rfl, fun _ h => h⟩
  module_new hm := .inl ⟨_, by rw [← hmodules, hm], rfl, fun h => h⟩
  knows h := by rw [Registry.knows_of_eq hclasses]; exact h
  settings := hsettings
  declared hc hfixed _ := .inl ⟨_, by rw [hstore, hc], rfl, hfixed⟩

/-- Sink, source and program may change, and so may the frames as long as they are sound. -/
theorem Sound.of_eq (hm : m.Sound) {m' : Machine} (hstore : m'.store = m.store)
    (hmodules : m'.registry.modules = m.registry.modules)
    (hclasses : m'.registry.classes = m.registry.classes) (hnatives : m'.natives = m.natives)
    (hsettings : m'.settings = m.settings) (hframes : ∀ f ∈ m'.frames, f.Sound m.store) :
    m'.Sound where
  linkage := hm.linkage.of_eq hstore hmodules hclasses
  scratch := by rw [hstore]; exact hm.scratch
  frames f hf := by rw [hstore]; exact hframes f hf
  natives := hnatives.trans hm.natives
  maxLen := by rw [hstore, hsettings]; exact hm.maxLen

/-- The machine with other registry and store. -/
def withLinkage (m : Machine) (l : Linkage) : Machine :=
  { m with registry := l.registry, store := l.store }

/-- A machine stays sound when registry and store change as linking changes them. -/
theorem Sound.withLinkage (hm : m.Sound) (hl : l.Sound) (hev : m.linkage.Evolves l) :
    (m.withLinkage l).Sound where
  linkage := hl
  scratch := hev.store.toGrows.kind_eq hm.scratch
  frames f hf := (hm.frames f hf).mono hev.store.toGrows
  natives := hm.natives
  maxLen := hev.store.maxLen_eq.trans hm.maxLen

/-- A machine evolves when registry and store change as linking changes them. -/
theorem evolves_withLinkage (hev : m.linkage.Evolves l) : m.Evolves (m.withLinkage l) where
  grows := hev.store.toGrows
  module_kept hm := ⟨_, hev.module_eq hm, rfl, fun _ h => h⟩
  module_new {id loaded'} hm := by
    rcases hev.module_new hm with hold | hnew
    · exact .inl ⟨loaded', hold, rfl, fun h => h⟩
    · exact .inr hnew
  knows h := hev.knows h
  settings := rfl
  declared hc hfixed href := .inl (hev.store.declared hc hfixed href)

/-- A change of the store alone, as a change of registry and store. -/
theorem linkage_evolves_of_store {s : Store} (hev : m.store.Evolves s) :
    m.linkage.Evolves ⟨m.registry, s⟩ :=
  ⟨hev, id, .inl, id⟩

/-- Registry and store stay sound when the store changes soundly. -/
theorem Sound.linkage_of_store (hm : m.Sound) {s : Store} (hs : s.Sound m.registry.Knows)
    (hev : m.store.Evolves s) : Linkage.Sound ⟨m.registry, s⟩ where
  store := hs
  module_heap h := (hm.linkage.module_heap h).mono hev.toGrows
  constants := hm.linkage.constants
  class_name := hm.linkage.class_name
  members_fit := hm.linkage.members_fit

end Machine

namespace MachineM

open Discipline

variable {m : Machine} {α β : Type}

/-- Asking a question changes nothing. -/
theorem keeps_ask_bind {question : Machine → Except Fault α} {f : α → MachineM β}
    {Q : β → Machine → Prop} (hm : m.Sound)
    (hf : ∀ a, question m = .ok a → Machine.discipline.Keeps (f a) m Q) :
    Machine.discipline.Keeps (ask question >>= f) m Q := by
  cases hq : question m with
  | error e =>
    have hask : ask question m = .error e m := by simp [ask, hq]
    exact keeps_of_error (Action.bind_of_error hask) hm (Machine.Evolves.refl m)
  | ok a =>
    have hask : ask question m = .ok a m := by simp [ask, hq]
    exact Keeps.of_eq (Action.bind_of_ok hask) (Machine.Evolves.refl m) (hf a hq)

/-- How an action on registry and store acts on the machine. -/
theorem onLinkage_eq (action : LinkM α) (m : Machine) :
    onLinkage action m =
      match action m.linkage with
      | .ok a l => .ok a (m.withLinkage l)
      | .error e l => .error e (m.withLinkage l) := by
  obtain ⟨store, registry, sink, natives, settings, frames, program⟩ := m
  unfold onLinkage Machine.linkage
  dsimp only
  cases action ⟨registry, store⟩ <;> rfl

/-- How an action on the store acts on the machine. -/
theorem onStore_eq (action : StoreM α) (m : Machine) :
    onStore action m =
      match action m.store with
      | .ok a s => .ok a (m.withLinkage ⟨m.registry, s⟩)
      | .error e s => .error e (m.withLinkage ⟨m.registry, s⟩) := rfl

/-- How an action of a native function acts on the machine. -/
theorem onWorld_eq (action : WorldM α) (m : Machine) :
    onWorld action m =
      match action ⟨m.store, m.sink⟩ with
      | .ok a w => .ok a { m.withLinkage ⟨m.registry, w.store⟩ with sink := w.sink }
      | .error e w => .error e { m.withLinkage ⟨m.registry, w.store⟩ with sink := w.sink } := by
  obtain ⟨store, registry, sink, natives, settings, frames, program⟩ := m
  unfold onWorld
  dsimp only
  cases action ⟨store, sink⟩ <;> rfl

/-- An action on registry and store, as an action of the machine. -/
theorem keeps_onLinkage {action : LinkM α} {P : α → Linkage → Prop} (hm : m.Sound)
    (h : Linkage.discipline.Keeps action m.linkage P) :
    Machine.discipline.Keeps (onLinkage action) m fun a m' =>
      P a m'.linkage ∧ ∀ {id : ModuleId} {loaded : LoadedModule},
        m.registry.modules[id]? = some loaded → m'.registry.modules[id]? = some loaded := by
  unfold Keeps at h ⊢
  rw [onLinkage_eq]
  cases haction : action m.linkage with
  | ok a l =>
    rw [haction] at h
    obtain ⟨hl, hev, hP⟩ := h
    exact ⟨hm.withLinkage hl hev, Machine.evolves_withLinkage hev, hP, hev.module_eq⟩
  | error e l =>
    rw [haction] at h
    obtain ⟨hl, hev⟩ := h
    exact ⟨hm.withLinkage hl hev, Machine.evolves_withLinkage hev⟩

/-- A sound change of the store is a sound change of the machine. -/
theorem sound_of_store (hm : m.Sound) {s : Store} (hs : s.Sound m.registry.Knows)
    (hev : m.store.Evolves s) :
    (m.withLinkage ⟨m.registry, s⟩).Sound ∧ m.Evolves (m.withLinkage ⟨m.registry, s⟩) := by
  have hlinkage := Machine.linkage_evolves_of_store hev
  exact ⟨hm.withLinkage (hm.linkage_of_store hs hev) hlinkage, Machine.evolves_withLinkage hlinkage⟩

/-- An action on the store, as an action of the machine. -/
theorem keeps_onStore {action : StoreM α} {P : α → Store → Prop} (hm : m.Sound)
    (h : (Store.discipline m.registry.Knows).Keeps action m.store P) :
    Machine.discipline.Keeps (onStore action) m fun a m' =>
      P a m'.store ∧ m'.registry = m.registry := by
  unfold Keeps at h ⊢
  rw [onStore_eq]
  cases haction : action m.store with
  | ok a s =>
    rw [haction] at h
    obtain ⟨hs, hev, hP⟩ := h
    obtain ⟨hm', hev'⟩ := sound_of_store hm hs hev
    exact ⟨hm', hev', hP, rfl⟩
  | error e s =>
    rw [haction] at h
    obtain ⟨hs, hev⟩ := h
    exact sound_of_store hm hs hev

/-- An action of a native function, as an action of the machine. -/
theorem keeps_onWorld {action : WorldM α} {P : α → World → Prop} (hm : m.Sound)
    (h : (World.discipline m.registry.Knows).Keeps action ⟨m.store, m.sink⟩ P) :
    Machine.discipline.Keeps (onWorld action) m fun _ _ => True := by
  have hsink : ∀ w : World, w.store.Sound m.registry.Knows → m.store.Evolves w.store →
      Machine.discipline.Sound { m.withLinkage ⟨m.registry, w.store⟩ with sink := w.sink } ∧
      Machine.discipline.Evolves m
        { m.withLinkage ⟨m.registry, w.store⟩ with sink := w.sink } := by
    intro w hs hev
    obtain ⟨hm', hev'⟩ := sound_of_store hm hs hev
    exact ⟨hm'.of_eq rfl rfl rfl rfl rfl hm'.frames, hev'.trans (Machine.evolves_of_eq rfl rfl rfl rfl)⟩
  unfold Keeps at h ⊢
  rw [onWorld_eq]
  cases haction : action ⟨m.store, m.sink⟩ with
  | ok a w =>
    rw [haction] at h
    obtain ⟨hs, hev, -⟩ := h
    exact ⟨(hsink w hs hev).1, (hsink w hs hev).2, trivial⟩
  | error e w =>
    rw [haction] at h
    exact hsink w h.1 h.2

end MachineM

namespace Activity

variable {m : Machine} {e : Fault}

/-- After a crash nothing happens. -/
theorem step_of_crash (h : e.isCrash = true) : step ⟨m, some e⟩ = ⟨m, some e⟩ :=
  if_pos h

/-- Any other fault leaves a frame. -/
theorem step_of_fault (h : e.isCrash = false) :
    step ⟨m, some e⟩ = ⟨{ m with frames := m.frames.tail }, some e⟩ :=
  if_neg (by simp [h])

/-- Whatever the fault on its way out, the machine loses at most frames. -/
theorem step_some (m : Machine) (e : Fault) :
    ∃ frames, frames <:+ m.frames ∧ step ⟨m, some e⟩ = ⟨{ m with frames := frames }, some e⟩ := by
  cases hcrash : e.isCrash with
  | true => exact ⟨m.frames, List.suffix_rfl, step_of_crash hcrash⟩
  | false => exact ⟨m.frames.tail, List.tail_suffix _, step_of_fault hcrash⟩

end Activity

end SlotMachine
