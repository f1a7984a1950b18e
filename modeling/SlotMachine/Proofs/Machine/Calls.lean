import SlotMachine.Proofs.Machine.Simple
import SlotMachine.Proofs.Machine.Sound
import Mathlib.Tactic.Common

/-!
# Calls of a sound machine

A call hands over exposed slots, so the frame it pushes is sound; leaving the frame writes to the
slot it remembers and does what its caller still has to do.
-/

namespace SlotMachine.MachineM

open Discipline

variable {m : Machine} {f : Frame}

/-- Doing what a caller does once its call has returned. -/
theorem keeps_perform (hm : m.Sound) {resume : Resume} (hresume : resume.Sound m.store) :
    Machine.discipline.Keeps (perform resume) m fun _ _ => True := by
  cases resume with
  | proceed => exact keeps_pure hm trivial
  | bind result target =>
    refine (keeps_onStore hm (StoreM.keeps_bind hm.linkage.store hresume result .mutable)).mono ?_
    exact fun _ _ _ _ _ => trivial

/-- Asking for a module that is there. -/
theorem module_eq_ok_iff {r : Registry} {id : ModuleId} {loaded : LoadedModule} :
    r.module id = .ok loaded ↔ r.modules[id]? = some loaded := by
  unfold Registry.module
  cases r.modules[id]? <;> simp

/-- Changing nothing but the frames. -/
theorem keeps_frames (hm : m.Sound) {change : Machine → Machine} (frames : List Frame)
    (hchange : change m = { m with frames := frames }) (hframes : ∀ f ∈ frames, f.Sound m.store) :
    Machine.discipline.Keeps (modify change : MachineM Unit) m fun _ m' => m'.store = m.store := by
  have hsound : Machine.Sound { m with frames := frames } :=
    hm.of_eq rfl rfl rfl rfl rfl hframes
  have hevolves : m.Evolves { m with frames := frames } := Machine.evolves_of_eq rfl rfl rfl rfl
  refine keeps_modify ?_ ?_ ?_
  · rw [hchange]
    exact hsound
  · rw [hchange]
    exact hevolves
  · rw [hchange]

/-- Beginning a call that hands over exposed slots. -/
theorem keeps_call (hm : m.Sound) (module : ModuleId) (function : Function)
    (receiver : Option HeapId) {args : List Slot} (hargs : ∀ slot ∈ args, m.store.Exposed slot)
    {resume : Resume} (hresume : resume.Sound m.store) :
    Machine.discipline.Keeps (call module function receiver args resume) m fun _ _ => True := by
  unfold call
  refine keeps_get_bind ?_
  refine keeps_get_bind ?_
  dsimp only
  split
  · exact keeps_of_error rfl hm (Machine.Evolves.refl m)
  · refine keeps_ask_bind hm fun loaded hloaded => ?_
    have hheap := hm.linkage.module_heap (module_eq_ok_iff.mp hloaded)
    have hpass := StoreM.keeps_pass hm.linkage.store hheap hargs function
    refine (keeps_onStore hm hpass).bind fun _ m' hm' hev _ => ?_
    refine (keeps_frames hm' _ rfl ?_).mono fun _ _ _ _ _ => trivial
    intro frame hframe
    rcases List.mem_cons.mp hframe with rfl | hold
    · refine ⟨hheap.mono hev.grows, fun slot hslot => ?_, hresume.mono hev.grows⟩
      exact (hargs slot (List.mem_of_mem_head? hslot)).mono hev.grows
    · exact hm'.frames frame hold

/-- The slot for unwanted return values is exposed. -/
theorem exposed_scratchSlot (hm : m.Sound) : m.store.Exposed Machine.scratchSlot :=
  ⟨.scratch, hm.scratch, fun _ => rfl⟩

/-- Beginning a call without arguments. -/
theorem keeps_callBare (hm : m.Sound) (module : ModuleId) (function : Function)
    (receiver : HeapId) {resume : Resume} (hresume : resume.Sound m.store) :
    Machine.discipline.Keeps (callBare module function receiver resume) m fun _ _ => True := by
  unfold callBare
  split
  · exact keeps_call hm module function _ (fun _ h => by cases h) hresume
  · have hclear : m.store.Accepts Machine.scratchSlot Cell.free := by
      refine ⟨Store.admits_free, fun hc hfixed _ => ?_, fun _ => rfl⟩
      rw [hm.linkage.store.fixed_of_scratch hm.scratch hc] at hfixed
      cases hfixed
    refine (keeps_onStore hm (StoreM.keeps_replace hm.linkage.store hclear)).bind
      fun _ m' hm' hev _ => ?_
    refine keeps_call hm' module function _ (fun slot hslot => ?_) (hresume.mono hev.grows)
    rw [List.mem_singleton.mp hslot]
    exact exposed_scratchSlot hm'

/-- Beginning the constructor of a class. -/
theorem keeps_construct (hm : m.Sound) (cls : Class) (object : HeapId) {resume : Resume}
    (hresume : resume.Sound m.store) :
    Machine.discipline.Keeps (construct cls object resume) m fun _ _ => True := by
  unfold construct
  split
  · rename_i constructor _
    refine (keeps_callBare hm cls.module constructor object hresume).bind fun _ m' hm' _ _ => ?_
    exact keeps_pure hm' trivial
  · refine (keeps_perform hm hresume).bind fun _ m' hm' _ _ => ?_
    exact keeps_pure hm' trivial

/-- Copying the return value. -/
theorem keeps_copyBack {s : Store} {known : String → Prop} (hs : s.Sound known) (hf : f.Sound s) :
    (Store.discipline known).Keeps (copyBack f) s fun _ _ => True := by
  unfold copyBack
  split
  · rename_i formal _ returnSlot _ hreturn
    refine StoreM.keeps_ask_bind hs fun here _ => ?_
    refine StoreM.keeps_ask_bind hs fun there _ => ?_
    split
    · exact keeps_pure hs trivial
    · exact StoreM.keeps_copy hs (hf.returnSlot returnSlot hreturn) _
  · exact keeps_pure hs trivial

/-- Going on with another instruction. -/
theorem keeps_setIp (hm : m.Sound) (next : Frame → Nat) :
    Machine.discipline.Keeps (setIp next) m fun _ _ => True := by
  unfold setIp
  cases hframes : m.frames with
  | nil =>
    refine (keeps_frames hm m.frames ?_ hm.frames).mono fun _ _ _ _ _ => trivial
    simp only [hframes]
    rw [← hframes]
  | cons f others =>
    refine (keeps_frames hm ({ f with ip := next f } :: others) (by simp [hframes]) ?_).mono
      fun _ _ _ _ _ => trivial
    intro frame hframe
    rcases List.mem_cons.mp hframe with rfl | hold
    · have hf := hm.frames f (by rw [hframes]; exact List.mem_cons_self)
      exact ⟨hf.heap, hf.returnSlot, hf.resume⟩
    · exact hm.frames frame (by rw [hframes]; exact List.mem_cons_of_mem f hold)

/-- Ending a call whose frame is sound. -/
theorem keeps_leave (hm : m.Sound) (hf : f.Sound m.store) :
    Machine.discipline.Keeps (leave f) m fun _ _ => True := by
  unfold leave
  have htail : ∀ frame ∈ m.frames.tail, frame.Sound m.store :=
    fun frame hframe => hm.frames frame (List.mem_of_mem_tail hframe)
  refine (keeps_frames hm _ rfl htail).bind fun _ m₁ hm₁ hev₁ _ => ?_
  have hf₁ := hf.mono hev₁.grows
  refine (keeps_onStore hm₁ (keeps_copyBack hm₁.linkage.store hf₁)).bind fun _ m₂ hm₂ hev₂ _ => ?_
  refine (keeps_perform hm₂ (hf₁.resume.mono hev₂.grows)).bind fun _ m₃ hm₃ _ _ => ?_
  exact keeps_setIp hm₃ _

/-- Finding the receiver changes nothing. -/
theorem keeps_receiver (hm : m.Sound) (f : Frame) (operand : UInt64) :
    Machine.discipline.Keeps (receiver f operand) m fun _ m' => m' = m := by
  unfold receiver
  split
  · split
    · exact keeps_pure hm rfl
    · exact keeps_throw hm
  · unfold ask Keeps
    dsimp only
    cases m.store.object (f.slot operand) with
    | ok object => exact ⟨hm, Machine.Evolves.refl m, rfl⟩
    | error e => exact ⟨hm, Machine.Evolves.refl m⟩

/-- Calling a standard native function with exposed slots. -/
theorem keeps_callNative (hm : m.Sound) {name : String} {native : Native}
    (hnative : m.natives.find? name = some native) {args : List Slot}
    (hargs : ∀ slot ∈ args, m.store.Exposed slot) :
    Machine.discipline.Keeps (callNative name native args) m fun _ _ => True := by
  unfold callNative
  rw [hm.natives] at hnative
  refine keeps_ask_bind hm fun _ _ => ?_
  refine keeps_get_bind ?_
  have hrun := Native.keeps_standard (w := ⟨m.store, m.sink⟩) hnative hm.linkage.store hargs m.depth
  refine (keeps_onWorld hm hrun).bind fun _ m' hm' _ _ => ?_
  exact keeps_pure hm' trivial

/-- The slots that a frame hands over are exposed. -/
theorem exposed_args {s : Store} (hf : s.IsModule f.heap) (slots : List UInt64) :
    ∀ slot ∈ slots.map f.slot, s.Exposed slot := by
  intro slot hslot
  obtain ⟨operand, -, rfl⟩ := List.mem_map.mp hslot
  exact Simple.exposed_slot hf operand

/-- Calling a free function. -/
theorem keeps_invoke (hm : m.Sound) (hf : f.Sound m.store) (i : Instruction) :
    Machine.discipline.Keeps (invoke f i) m fun _ _ => True := by
  unfold invoke
  refine keeps_ask_bind hm fun slots _ => ?_
  refine keeps_ask_bind hm fun name _ => ?_
  dsimp only
  refine keeps_get_bind ?_
  split
  · rename_i native hnative
    exact keeps_callNative hm hnative (exposed_args hf.heap slots)
  · have htop := keeps_onLinkage hm (LinkM.keeps_topClass hm.linkage f.module)
    refine (htop.adaptExcept _).bind fun cls m' hm' hev _ => ?_
    split
    · exact keeps_throw hm'
    · rename_i function _
      refine keeps_ask_bind hm' fun owner _ => ?_
      have hargs := exposed_args (hf.heap.mono hev.grows) slots
      have hresume := Resume.sound_proceed m'.store
      refine (keeps_call hm' cls.module function owner.topInstance hargs hresume).bind
        fun _ m'' hm'' _ _ => ?_
      exact keeps_pure hm'' trivial

/-- Calling a method. -/
theorem keeps_invokeMethod (hm : m.Sound) (hf : f.Sound m.store) (i : Instruction) :
    Machine.discipline.Keeps (invokeMethod f i) m fun _ _ => True := by
  unfold invokeMethod
  refine keeps_ask_bind hm fun slots _ => ?_
  refine keeps_ask_bind hm fun name _ => ?_
  dsimp only
  refine keeps_get_bind ?_
  split
  · rename_i native hnative
    exact keeps_callNative hm hnative (exposed_args hf.heap slots)
  · refine (keeps_receiver hm f _).bind fun object m₁ hm₁ hev₁ _ => ?_
    refine keeps_ask_bind hm₁ fun className _ => ?_
    refine (keeps_onLinkage hm₁ (LinkM.keeps_findClass hm₁.linkage className)).bind
      fun cls m₂ hm₂ hev₂ _ => ?_
    split
    · exact keeps_throw hm₂
    · rename_i method _
      have hargs := exposed_args (hf.heap.mono (hev₁.grows.trans hev₂.grows)) slots
      have hresume := Resume.sound_proceed m₂.store
      refine (keeps_call hm₂ cls.module method (some object) hargs hresume).bind
        fun _ m₃ hm₃ _ _ => ?_
      exact keeps_pure hm₃ trivial

end SlotMachine.MachineM
