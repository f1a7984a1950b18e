import SlotMachine.Proofs.Machine.Progress
import SlotMachine.Proofs.Machine.Run
import Mathlib.Tactic.Common

/-!
# The instances of top-level classes

An instance that is noted for a module is an instance of the module's own top-level class: its
header carries the qualified name of that class. Instances keep their headers and notes are made in
one place, so whatever makes no note keeps this, and the place where notes are made is looked at
once.
-/

namespace SlotMachine

open Discipline

namespace Machine

/-- The instances that are noted for modules are instances of their top-level classes. -/
def TopNamed (m : Machine) : Prop :=
  ∀ (id : ModuleId) (loaded : LoadedModule) (object : HeapId),
    m.registry.modules[id]? = some loaded → loaded.topInstance = some object →
    m.store.HasInstance object (qualifiedName loaded.file Image.topClass)

/-- No instance has been noted: every module was there before as it is, or is new and has none. -/
def Unnoted (m m' : Machine) : Prop :=
  ∀ (id : ModuleId) (loaded : LoadedModule), m'.registry.modules[id]? = some loaded →
    m.registry.modules[id]? = some loaded ∨ loaded.topInstance = none

variable {m m' m'' : Machine}

theorem Unnoted.of_eq (h : m'.registry.modules = m.registry.modules) : m.Unnoted m' := by
  intro id loaded hloaded
  rw [h] at hloaded
  exact .inl hloaded

theorem Unnoted.trans (h₁ : m.Unnoted m') (h₂ : m'.Unnoted m'') : m.Unnoted m'' := by
  intro id loaded hloaded
  rcases h₂ id loaded hloaded with hbefore | hnone
  · exact h₁ id loaded hbefore
  · exact .inr hnone

/-- Entering a module notes no instance. -/
theorem unnoted_enter (m : Machine) (e : Entry) :
    m.Unnoted (m.withLinkage (m.linkage.enter e)) := by
  intro id loaded hloaded
  rcases Linkage.module_of_enter hloaded with hbefore | ⟨-, rfl⟩
  · exact .inl hbefore
  · exact .inr rfl

/-- Neither do moves. -/
theorem Move.unnoted (h : m.Move m') : m.Unnoted m' := by
  cases h with
  | acts hacts => exact .of_eq (congrArg Registry.modules hacts.registry)
  | links hconsults =>
    obtain ⟨hstep, -, -⟩ := hconsults
    cases hstep with
    | same => exact .of_eq rfl
    | supplied _ => exact .of_eq rfl
    | asked _ _ => exact .of_eq rfl
    | @loaded file image _ _ => exact unnoted_enter (m.withLinkage (m.linkage.asked file)) _
    | program image => exact unnoted_enter m _
  | enters _ => exact .of_eq rfl
  | goesOn _ => exact .of_eq rfl
  | leaves => exact .of_eq rfl

theorem unnoted_of_motion (h : motion.Evolves m m') : m.Unnoted m' := by
  induction h with
  | refl => exact .of_eq rfl
  | tail _ hlast ih => exact ih.trans hlast.unnoted

/-- Without a note the noted instances stay what they are. -/
theorem TopNamed.mono (h : m.TopNamed) (hgrows : m.store.Grows m'.store) (hunnoted : m.Unnoted m') :
    m'.TopNamed := by
  intro id loaded object hloaded hobject
  rcases hunnoted id loaded hloaded with hbefore | hnone
  · exact (h id loaded object hbefore hobject).mono hgrows
  · rw [hnone] at hobject
    cases hobject

/-- An instance of the top-level class of a module may be noted for it. -/
theorem TopNamed.withTop (h : m.TopNamed) {module : ModuleId} {loaded : LoadedModule} {slot : Slot}
    {object : HeapId} (hgrows : m.store.Grows (MachineM.withTop m module slot object).store)
    (hloaded : m.registry.modules[module]? = some loaded)
    (hobject : m.store.HasInstance object (qualifiedName loaded.file Image.topClass)) :
    (MachineM.withTop m module slot object).TopNamed := by
  intro id after object' hafter hobject'
  have hmodules := Registry.modules_setTopInstance m.registry module id object
  by_cases heq : id = module
  · subst heq
    rw [if_pos rfl, hloaded] at hmodules
    obtain rfl : _ = after := Option.some.inj (hmodules.symm.trans hafter)
    obtain rfl : object = object' := Option.some.inj hobject'
    exact hobject.mono hgrows
  · rw [if_neg heq] at hmodules
    exact (h id after object' (hmodules.symm.trans hafter) hobject').mono hgrows

/-- Machines are sound, and what is noted for their modules are instances of top-level classes. -/
def naming : Discipline Machine where
  Sound m := m.Sound ∧ m.TopNamed
  Evolves := Evolves
  refl := Evolves.refl
  trans := Evolves.trans

end Machine

/-- What is sound and made of moves without a note keeps the noted instances what they are. -/
theorem Discipline.Keeps.naming {α : Type} {x : MachineM α} {m : Machine}
    {P Q : α → Machine → Prop} (hsound : Machine.discipline.Keeps x m P)
    (hmoves : Machine.motion.Keeps x m Q) (hm : m.TopNamed) :
    Machine.naming.Keeps x m fun a m' => P a m' ∧ Q a m' := by
  cases hx : x m with
  | ok a m' =>
    obtain ⟨hm', hev, hP⟩ := hsound.promised hx
    obtain ⟨-, hmotion, hQ⟩ := hmoves.promised hx
    exact keeps_of_ok hx ⟨hm', hm.mono hev.grows (Machine.unnoted_of_motion hmotion)⟩ hev ⟨hP, hQ⟩
  | error e m' =>
    obtain ⟨hm', hev⟩ := hsound.last (.inr ⟨e, hx⟩)
    obtain ⟨-, hmotion⟩ := hmoves.last (.inr ⟨e, hx⟩)
    exact keeps_of_error hx ⟨hm', hm.mono hev.grows (Machine.unnoted_of_motion hmotion)⟩ hev

namespace MachineM

open Machine Instruction

variable {m : Machine} {f : Frame}

/-- The instance that is made for a module is one of its top-level class. -/
theorem names_topInstance (hm : naming.Sound m) (module : ModuleId) {resume : Resume}
    (hresume : resume.Sound m.store) :
    naming.Keeps (topInstance module resume) m fun _ _ => True := by
  unfold topInstance
  apply ask_bind hm
  intro loaded hloaded
  have hmodule := module_eq_ok_iff.mp hloaded
  split
  · apply ((keeps_perform hm.1 hresume).naming (moves_perform resume m) hm.2).bind
    intro _ m₁ hm₁ _ _
    exact keeps_pure hm₁ trivial
  · rename_i hnone
    have hfound := keeps_onLinkage hm.1 (LinkM.keeps_topClass hm.1.linkage module)
    apply (hfound.naming (moves_topClass module m) hm.2).bind
    rintro cls m₁ hm₁ hev₁ ⟨⟨husable, hkept⟩, -, name, hname, hcls⟩
    have hmodule₁ := hkept hmodule
    obtain ⟨m₂, hstart, hm₂, hev₂, hnamed, hregistry⟩ := exists_topObject hm₁.1 hmodule₁ husable
    have htops₂ : m₂.TopNamed :=
      hm₁.2.mono hev₂.grows (.of_eq (congrArg Registry.modules hregistry))
    rw [← hregistry] at hmodule₁
    -- The class was found under the qualified name of the module's top-level class, its own name.
    have htop : cls.name = qualifiedName loaded.file Image.topClass := by
      rw [Registry.qualifiedIn, hloaded] at hname
      exact (hm₁.1.linkage.class_name hcls).trans (Except.ok.inj hname).symm
    rw [htop] at hnamed
    apply Keeps.of_eq (hstart _) hev₂
    rcases placing_cases m₂ module ⟨loaded.heap, topSlot⟩ m₁.store.heaps.size _ with
      ⟨e, he⟩ | ⟨c, hc, heq⟩
    · exact keeps_of_error he ⟨hm₂, htops₂⟩ (Evolves.refl m₂)
    · let noted := withTop m₂ module ⟨loaded.heap, topSlot⟩ m₁.store.heaps.size
      have hgrows : m₂.store.Grows noted.store := grows_withTop hm₂ hmodule₁
      have hev : m₂.Evolves noted := evolves_withTop hm₂ hmodule₁ hnone hc
      have hsound : noted.Sound := sound_withTop hm₂ hmodule₁ hnamed.isObject
      have htops : noted.TopNamed := htops₂.withTop hgrows hmodule₁ hnamed
      have hlists : LinkM.Lists cls noted.linkage := by
        refine ⟨name, ?_⟩
        change m₂.registry.class? name = some cls
        rw [hregistry]
        exact hcls
      have hresume' : resume.Sound noted.store :=
        hresume.mono ((hev₁.trans hev₂).grows.trans hgrows)
      apply Keeps.of_eq heq hev
      apply ((keeps_construct hsound cls _ hresume').naming (moves_construct hlists _ resume)
        htops).bind
      intro flow m₃ hm₃ _ _
      exact keeps_pure hm₃ trivial

/-- Binding a slot to the instance of another module's top-level class. -/
theorem names_bindModule (hm : naming.Sound m) (target : Slot) (file : String) :
    naming.Keeps (bindModule target file) m fun _ _ => True := by
  unfold bindModule
  apply ((keeps_onLinkage hm.1 (LinkM.keeps_requireFile hm.1.linkage file)).naming
    (moves_requireFile file m) hm.2).bind
  intro module m₁ hm₁ _ _
  apply ask_bind hm₁
  intro loaded hloaded
  have hheap := hm₁.1.linkage.module_heap (module_eq_ok_iff.mp hloaded)
  have hresume : (Resume.bind target ⟨loaded.heap, topSlot⟩).Sound m₁.store :=
    hheap.exposed topSlot
  apply (names_topInstance hm₁ module hresume).bind
  intro _ m₂ hm₂ _ _
  exact keeps_pure hm₂ trivial

/-- The allocating instruction: what it does but for binding a module is made of moves. -/
theorem names_new (hm : naming.Sound m) (hf : f.Sound m.store) (i : Instruction) :
    naming.Keeps (new f i) m fun _ _ => True := by
  unfold new
  apply ask_bind hm
  intro operands _
  dsimp only
  have hread := StoreM.keeps_readUInt64 hm.1.linkage.store (f.slot (nth 1 operands))
  apply ((keeps_onStore hm.1 hread).naming (moves_onStore _ m) hm.2).bind
  intro size m₁ hm₁ hev _
  have htarget := Simple.exposed_slot (hf.heap.mono hev.grows) (nth 0 operands)
  have hlike : ∀ typeSlot len, naming.Keeps (newLike (f.slot (nth 0 operands)) typeSlot len) m₁
      fun _ _ => True := by
    intro typeSlot len
    apply ((keeps_newLike hm₁.1 htarget typeSlot len).naming (moves_newLike _ _ _ m₁) hm₁.2).mono
    exact fun _ _ _ _ _ => trivial
  split
  · have huntyped : ElementKind.untyped.Fits := trivial
    apply ((keeps_newArray hm₁.1 htarget huntyped _).naming (moves_newArray _ _ _ m₁) hm₁.2).mono
    exact fun _ _ _ _ _ => trivial
  · apply ask_bind hm₁
    intro v _
    split
    · apply ask_bind hm₁
      intro file _
      split
      · exact names_bindModule hm₁ _ _
      · split
        · exact hlike _ _
        · apply ((keeps_newNamed hm₁.1 f htarget _ _).naming (moves_newNamed f _ _ _ m₁) hm₁.2).mono
          exact fun _ _ _ _ _ => trivial
    · exact hlike _ _

/-- The other instructions are made of moves without a note. -/
theorem moves_execute {i : Instruction} (hi : i.opcode ≠ .new) (f : Frame) (m : Machine) :
    motion.Keeps (execute f i) m fun _ _ => True := by
  unfold execute
  split
  · rename_i hnew
    exact absurd hnew hi
  · exact moves_array f i m
  · exact moves_loadMember f i m
  · exact (moves_invoke f i m).mono fun _ _ _ _ _ => trivial
  · exact moves_invokeMethod f i m
  · apply keeps_get_bind
    exact (moves_onStore _ m).mono fun _ _ _ _ _ => trivial

/-- Executing an instruction of a sound frame. -/
theorem names_execute (hm : naming.Sound m) (hf : f.Sound m.store) (i : Instruction) :
    naming.Keeps (execute f i) m fun _ _ => True := by
  by_cases hi : i.opcode = .new
  · have hnew : execute f i = new f i := by
      unfold execute
      rw [hi]
    rw [hnew]
    exact names_new hm hf i
  · apply ((keeps_execute hm.1 hf i).naming (moves_execute hi f m) hm.2).mono
    exact fun _ _ _ _ _ => trivial

/-- Taking one step. -/
theorem names_step (hm : naming.Sound m) : naming.Keeps step m fun _ _ => True := by
  unfold step
  apply keeps_get_bind
  split
  · exact keeps_throw hm
  · rename_i f others hframes
    have hf : f.Sound m.store := hm.1.frames f (hframes ▸ List.mem_cons_self)
    split
    · exact ((keeps_leave hm.1 hf).naming (moves_leave f m) hm.2).mono fun _ _ _ _ _ => trivial
    · rename_i i _
      apply (names_execute hm hf i).bind
      intro flow m₁ hm₁ _ _
      apply ((keeps_follow hm₁.1 f flow).naming (moves_follow f flow m₁) hm₁.2).mono
      exact fun _ _ _ _ _ => trivial

end MachineM

/-- A step of an activity, also if it leaves a frame because of a fault. -/
theorem Activity.topNamed_step {a : Activity} (ha : Machine.naming.Sound a.machine) :
    a.step.machine.TopNamed := by
  obtain ⟨m, fault⟩ := a
  cases fault with
  | some e =>
    obtain ⟨frames, -, hstep⟩ := Activity.step_some m e
    rw [hstep]
    exact ha.2
  | none =>
    have hstep := MachineM.names_step ha
    unfold Activity.step
    dsimp only
    cases hresult : MachineM.step m with
    | ok _ m' => exact (hstep.last (.inl ⟨(), hresult⟩)).1.2
    | error e m' => exact (hstep.last (.inr ⟨e, hresult⟩)).1.2

/-- Loading a program notes no instance, whether it succeeds or fails. -/
theorem Machine.unnoted_load (bytes : List UInt8) (m : Machine) :
    Action.Ends (load bytes) m (fun _ m' => m.Unnoted m') fun _ m' => m.Unnoted m' := by
  unfold Action.Ends
  rw [load_eq]
  cases Image.decode bytes with
  | error e => exact .of_eq rfl
  | ok image => exact unnoted_enter m ⟨none, image⟩

/-- Beginning to make the instance of the program's top-level class. -/
theorem Machine.names_prepare {m : Machine} (hm : naming.Sound m) :
    naming.Keeps prepare m fun _ _ => True := by
  unfold prepare
  apply keeps_get_bind
  split
  · exact keeps_throw hm
  · rename_i module _
    apply (MachineM.names_topInstance hm module (Resume.sound_proceed m.store)).bind
    intro _ m₁ hm₁ _ _
    exact keeps_pure hm₁ trivial

end SlotMachine
