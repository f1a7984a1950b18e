import SlotMachine.Machine.Run
import SlotMachine.Proofs.Machine.Objects
import Mathlib.Tactic.Common

/-!
# Steps of a sound machine

Every step of a sound machine, and everything a host does with it, leaves a sound machine that has
evolved from the one before.
-/

namespace SlotMachine

open Discipline

variable {m : Machine} {f : Frame}

/-- What may stand in a constant pool names no heap. -/
theorem Store.vouches_of_isPoolable {s : Store} {v : Value} (h : Image.isPoolable v = true) :
    s.Vouches v := by
  cases v <;> trivial

namespace MachineM

/-- A constant of a module may be stored. -/
theorem vouches_constant (hm : m.Sound) {id : ModuleId} {index : UInt64} {v : Value}
    (h : m.registry.constant id index = .ok v) : m.store.Vouches v := by
  unfold Registry.constant at h
  cases hmodule : m.registry.module id with
  | error e => simp [hmodule] at h
  | ok loaded =>
    simp only [hmodule] at h
    split at h
    · rename_i w hw
      cases h
      have hpoolable := hm.linkage.constants (module_eq_ok_iff.mp hmodule) v
        (Array.mem_of_getElem? hw)
      exact Store.vouches_of_isPoolable hpoolable
    · cases h

/-- Executing an instruction of a sound frame. -/
theorem keeps_execute (hm : m.Sound) (hf : f.Sound m.store) (i : Instruction) :
    Machine.discipline.Keeps (execute f i) m fun _ _ => True := by
  unfold execute
  split
  · exact keeps_new hm hf i
  · exact keeps_array hm i
  · exact keeps_loadMember hm i
  · exact keeps_invoke hm hf i
  · exact keeps_invokeMethod hm hf i
  · refine keeps_get_bind ?_
    have hsimple := Simple.keeps_execute hm.linkage.store hf.heap
      (fun index v hv => vouches_constant hm hv) i
    exact (keeps_onStore hm hsimple).mono fun _ _ _ _ _ => trivial

/-- Going where an instruction leads. -/
theorem keeps_follow (hm : m.Sound) (f : Frame) (flow : Flow) :
    Machine.discipline.Keeps (follow f flow) m fun _ _ => True := by
  cases flow with
  | next => exact keeps_setIp hm _
  | jump target =>
    rw [follow]
    split
    · exact keeps_setIp hm _
    · exact keeps_throw hm
  | enter => exact keeps_pure hm trivial

/-- Taking one step. -/
theorem keeps_step (hm : m.Sound) : Machine.discipline.Keeps step m fun _ _ => True := by
  unfold step
  refine keeps_get_bind ?_
  split
  · exact keeps_throw hm
  · rename_i f others hframes
    have hf := hm.frames f (by rw [hframes]; exact List.mem_cons_self)
    split
    · exact keeps_leave hm hf
    · rename_i i _
      refine (keeps_execute hm hf i).bind fun flow m' hm' _ _ => ?_
      exact keeps_follow hm' f flow

end MachineM

/-- A step of a sound machine, or of one that is leaving its frames, leads to a sound machine that
has evolved. -/
theorem Activity.sound_step {a : Activity} (ha : a.machine.Sound) :
    a.step.machine.Sound ∧ a.machine.Evolves a.step.machine := by
  obtain ⟨machine, fault⟩ := a
  cases fault with
  | some e =>
    obtain ⟨frames, hsuffix, hstep⟩ := Activity.step_some machine e
    rw [hstep]
    refine ⟨ha.of_eq rfl rfl rfl rfl rfl fun f hf => ?_, Machine.evolves_of_eq rfl rfl rfl rfl⟩
    exact ha.frames f (hsuffix.subset hf)
  | none =>
    have hstep := MachineM.keeps_step ha
    unfold Activity.step
    dsimp only
    cases hresult : MachineM.step machine with
    | ok _ machine' => exact hstep.last (.inl ⟨_, hresult⟩)
    | error e machine' => exact hstep.last (.inr ⟨_, hresult⟩)

namespace Machine

/-- Installing a decoded program. -/
theorem keeps_load (hm : m.Sound) (bytes : List UInt8) :
    discipline.Keeps (load bytes) m fun _ _ => True := by
  unfold load
  refine MachineM.keeps_ask_bind hm fun image himage => ?_
  unfold loadImage
  have hinstall := LinkM.keeps_install hm.linkage none (Image.legible_of_decode himage)
  refine (MachineM.keeps_onLinkage hm hinstall).bind fun id m' hm' _ _ => ?_
  have hsound : Sound { m' with program := some id } := hm'.of_eq rfl rfl rfl rfl rfl hm'.frames
  have hevolves : m'.Evolves { m' with program := some id } := evolves_of_eq rfl rfl rfl rfl
  refine (keeps_modify (P := fun _ _ => True) hsound hevolves trivial).bind
    fun _ m'' hm'' _ _ => ?_
  exact keeps_pure hm'' trivial

/-- Beginning to make the instance of the program's top-level class. -/
theorem keeps_prepare (hm : m.Sound) : discipline.Keeps prepare m fun _ _ => True := by
  unfold prepare
  refine keeps_get_bind ?_
  split
  · exact keeps_throw hm
  · rename_i module _
    refine (MachineM.keeps_topInstance hm module (Resume.sound_proceed m.store)).bind
      fun _ m' hm' _ _ => ?_
    exact keeps_pure hm' trivial

/-- Finding the method with which the program starts. -/
theorem keeps_entry (hm : m.Sound) (module : ModuleId) :
    discipline.Keeps (entry module) m fun _ _ => True := by
  unfold entry
  refine (MachineM.keeps_onLinkage hm (LinkM.keeps_topClass hm.linkage module)).bind
    fun cls m' hm' _ _ => ?_
  split
  · exact keeps_pure hm' trivial
  · exact keeps_throw hm'

/-- A machine on which nothing is loaded is sound. -/
theorem sound_create (settings : Settings) (source : Source) (sink : Sink) :
    (create settings source sink NativeTable.standard).Sound := by
  have hheap : ∀ {id : HeapId} {h : Heap},
      (create settings source sink NativeTable.standard).store.heaps[id]? = some h →
        h = ⟨.scratch, #[Cell.free]⟩ := by
    intro id h hh
    obtain ⟨-, rfl⟩ := Array.getElem?_eq_some_iff.mp hh
    simp [create, Store.alloc, Store.empty]
  constructor
  · constructor
    · constructor
      · intro id h hh
        rw [hheap hh]
        intro c hc
        rw [show c = Cell.free by simpa using hc]
        rfl
      · intro id h hh c hc
        rw [hheap hh] at hc
        rw [show c = Cell.free by simpa using hc]
        exact Store.admits_free
    · intro id loaded hloaded
      simp [linkage, create, Registry.empty] at hloaded
    · intro id loaded hloaded
      simp [linkage, create, Registry.empty] at hloaded
    · intro name c hc
      simp [linkage, create, Registry.empty, Registry.class?] at hc
    · intro name c hc
      simp [linkage, create, Registry.empty, Registry.class?] at hc
  · rfl
  · intro f hf
    simp [create] at hf
  · rfl
  · rfl

/-- An operation that ends with a fault returns it unless it is a crash. -/
theorem Outcome.of_error_eq_returned {f : Fault} {e : Ending}
    (h : ofEnding (.error f m) = .returned e) : f.isCrash = false ∧ .error f m = e := by
  cases f <;> cases h <;> exact ⟨rfl, rfl⟩

/-- Flushing does not make an operation return. -/
theorem Outcome.of_flushed_eq_returned {outcome : Outcome} {e : Ending}
    (h : outcome.flushed = .returned e) : ∃ e', outcome = .returned e' ∧ Machine.flushed e' = e := by
  cases outcome with
  | returned e' =>
    cases h
    exact ⟨e', rfl, rfl⟩
  | crashed cause m => cases h

end Machine

end SlotMachine
