import SlotMachine.Proofs.Machine.Frames
import Mathlib.Tactic.Common

/-!
# What a step does to the frames

A step lets the innermost call go on within its code, begins a call for which there is room, or ends
the innermost call and lets its caller go on. A fault is raised with the frames as they were, or
after the innermost one has been given back. What holds of every run is derived from this list.
-/

namespace SlotMachine

open SlotMachine.Action Fault

/-- The frames once the innermost call goes on with another instruction. -/
def Frame.redirect (next : Frame → Nat) : List Frame → List Frame
  | [] => []
  | f :: others => { f with ip := next f } :: others

/-- How one step changes the frames, with the fault that it raises. -/
inductive Turn (limit : Nat) (callable : Function → Prop) :
    List Frame → Option Fault → List Frame → Prop where
  /-- The innermost call goes on, at most to the end of its code. -/
  | goesOn {f : Frame} {others : List Frame} {ip : Nat} :
    f.ip < f.function.code.size → ip ≤ f.function.code.size →
    Turn limit callable (f :: others) none ({ f with ip := ip } :: others)
  /-- The innermost call begins another one. -/
  | enters {f callee : Frame} {others : List Frame} :
    f.ip < f.function.code.size → others.length + 1 < limit → callee.ip = 0 →
    callable callee.function → Turn limit callable (f :: others) none (callee :: f :: others)
  /-- The innermost call ends, and its caller goes on. -/
  | leaves {f : Frame} {others : List Frame} :
    f.function.code.size ≤ f.ip →
    Turn limit callable (f :: others) none (Frame.redirect (fun caller => caller.ip + 1) others)
  /-- An instruction fails. -/
  | stays {f : Frame} {others : List Frame} {e : Fault} :
    f.ip < f.function.code.size → Turn limit callable (f :: others) (some e) (f :: others)
  /-- The innermost call has ended, and what its caller expects of it fails. -/
  | drops {f : Frame} {others : List Frame} {e : Fault} :
    f.function.code.size ≤ f.ip → Turn limit callable (f :: others) (some e) others

/-- The instruction that comes next, unless the innermost call is at its end. -/
def Machine.present? (m : Machine) : Option Instruction :=
  m.frames.head?.bind fun f => f.function.code[f.ip]?

/-- What one step of a machine with frames does besides changing its store, registry and sink. -/
structure Machine.Turns (m : Machine) (fault : Option Fault) (m' : Machine) : Prop
    extends m.OnStage m' where
  /-- The frames change in one of the ways listed. -/
  turn : Turn m.settings.maxCallDepth m.registry.Provides m.frames fault m'.frames
  /-- A fault is one that may arise, or says that the present instruction lacks operands. -/
  raised : ∀ e, fault = some e → m.MayRaise e ∨ ∃ i, m.present? = some i ∧ i.Miscounts e

/-- A step that fails once the frames have become these ones. -/
theorem Machine.turns_of_fails {m m' : Machine} {e : Fault} {frames : List Frame}
    (h : Machine.Fails { m with frames := frames } e m')
    (hturn : Turn m.settings.maxCallDepth m.registry.Provides m.frames (some e) frames) :
    m.Turns (some e) m' := by
  refine ⟨⟨h.stays.natives, h.stays.settings, h.stays.fetch, h.stays.provides⟩, ?_, ?_⟩
  · rw [h.stays.frames]
    exact hturn
  · rintro e' ⟨⟩
    exact .inl h.raised

namespace MachineM

variable {m₀ m : Machine} {f : Frame} {others : List Frame}

/-- Going on with another instruction changes the innermost frame alone. -/
theorem setIp_eq (next : Frame → Nat) (m : Machine) :
    setIp next m = .ok () { m with frames := Frame.redirect next m.frames } := by
  obtain ⟨store, registry, sink, natives, settings, frames, program⟩ := m
  cases frames <;> rfl

theorem ends_setIp (hm : m₀.Stays m) (next : Frame → Nat) {E : Fault → Machine → Prop} :
    Ends (setIp next) m
      (fun _ m' => m₀.OnStage m' ∧ m'.frames = Frame.redirect next m₀.frames) E := by
  apply ends_of_ok (setIp_eq next m)
  rw [hm.frames]
  exact ⟨⟨hm.natives, hm.settings, hm.fetch, hm.provides⟩, rfl⟩

/-- End the innermost call and hand its value over. This is where the call returns; what its caller
does then is the caller's. -/
def giveBack (f : Frame) : MachineM Unit := do
  modify fun m => { m with frames := m.frames.tail }
  onStore (copyBack f)

/-- A call ends by returning, and then its caller goes on. -/
theorem leave_eq (f : Frame) :
    leave f = (do
      giveBack f
      perform f.resume
      setIp fun caller => caller.ip + 1) := by
  unfold leave giveBack
  rw [bind_assoc]

theorem raises_copyBack (f : Frame) : Raises Run (copyBack f) := by
  unfold copyBack
  split
  · apply (StoreM.raises_origin _).bind
    intro here
    apply (StoreM.raises_origin _).bind
    intro there
    split
    · exact raises_pure _
    · exact StoreM.raises_copy _ _
  · exact raises_pure _

/-- Whether or not its value can be handed over, the frame of the call is gone and the others are as
they were. -/
theorem ends_giveBack (hframes : m.frames = f :: others) :
    Ends (giveBack f) m (fun _ m' => Machine.Stays { m with frames := others } m')
      (Machine.Fails { m with frames := others }) := by
  have hpop : Ends (modify fun m => { m with frames := m.frames.tail } : MachineM Unit) m
      (fun _ m' => Machine.Stays { m with frames := others } m')
      (Machine.Fails { m with frames := others }) :=
    ends_modify ⟨⟨rfl, rfl, rfl, id⟩, congrArg List.tail hframes⟩
  apply hpop.bind
  intro _ m₁ hm₁
  exact quiet_onStore hm₁ (raises_copyBack f)

/-- A step at the end of the code of a call. -/
theorem turns_leave (hframes : m.frames = f :: others) (hover : f.function.code.size ≤ f.ip) :
    Ends (leave f) m (fun _ m' => m.Turns none m') fun e m' => m.Turns (some e) m' := by
  let left : Machine := { m with frames := others }
  have hfails : ∀ e m', left.Fails e m' → m.Turns (some e) m' := by
    intro e m' h
    apply Machine.turns_of_fails h
    rw [hframes]
    exact .drops hover
  have hleave : Ends (leave f) m (fun _ m' => left.OnStage m' ∧
      m'.frames = Frame.redirect (fun caller => caller.ip + 1) others) left.Fails := by
    rw [leave_eq]
    apply (ends_giveBack hframes).bind
    intro _ m₁ hm₁
    apply (quiet_perform hm₁ f.resume).bind
    intro _ m₂ hm₂
    exact ends_setIp hm₂ _
  apply hleave.mono _ hfails
  rintro _ m' ⟨hstage, hredirect⟩
  refine ⟨⟨hstage.natives, hstage.settings, hstage.fetch, hstage.provides⟩, ?_, nofun⟩
  rw [hframes, hredirect]
  exact .leaves hover

/-- The instruction at which the innermost call is comes next. -/
theorem present?_of_code (hframes : m.frames = f :: others) {i : Instruction}
    (hcode : f.function.code[f.ip]? = some i) : m.present? = some i := by
  rw [Machine.present?, hframes]
  exact hcode

/-- An instruction that fails. -/
theorem turns_of_failsAt (hframes : m.frames = f :: others) {i : Instruction}
    (hcode : f.function.code[f.ip]? = some i) (e : Fault) (m' : Machine) (h : m.FailsAt i e m') :
    m.Turns (some e) m' := by
  refine ⟨h.stays.toOnStage, ?_, ?_⟩
  · rw [h.stays.frames, hframes]
    exact .stays (Array.getElem?_eq_some_iff.mp hcode).1
  · rintro e' ⟨⟩
    apply h.raised.imp_right
    intro hmiscounts
    exact ⟨i, present?_of_code hframes hcode, hmiscounts⟩

/-- Going where an instruction leads. -/
theorem turns_follow {flow : Flow} {m' : Machine} (hframes : m.frames = f :: others)
    (hinside : f.ip < f.function.code.size) (hled : m.Led flow m') :
    Ends (follow f flow) m' (fun _ m'' => m.Turns none m'') fun e m'' => m.Turns (some e) m'' := by
  have hgoesOn : ∀ {m'' : Machine} {ip : Nat}, m.OnStage m'' → ip ≤ f.function.code.size →
      m''.frames = { f with ip := ip } :: others → m.Turns none m'' := by
    intro m'' ip hstage hip hframes''
    refine ⟨hstage, ?_, nofun⟩
    rw [hframes, hframes'']
    exact .goesOn hinside hip
  rcases hled with hstays | ⟨rfl, callee, hip, hcallee, henters⟩
  · have hset : ∀ next : Frame → Nat, next f ≤ f.function.code.size →
        Ends (setIp next) m' (fun _ m'' => m.Turns none m'') fun e m'' => m.Turns (some e) m'' := by
      intro next hnext
      apply (ends_setIp hstays next).mono _ fun _ _ h => h
      rintro _ m'' ⟨hstage, hredirect⟩
      rw [hframes] at hredirect
      exact hgoesOn hstage hnext hredirect
    cases flow with
    | next => exact hset _ hinside
    | jump target =>
      rw [follow]
      split
      · rename_i htarget
        exact hset _ htarget
      · apply ends_throw
        apply Machine.turns_of_fails (hstays.fails rfl)
        rw [hframes]
        exact .stays hinside
    | enter => exact ends_pure (hgoesOn hstays.toOnStage hinside.le (hstays.frames.trans hframes))
  · apply ends_pure
    refine ⟨henters.toOnStage, ?_, nofun⟩
    have hroom := henters.room
    rw [Machine.depth, hframes] at hroom
    rw [henters.frames, hframes]
    exact .enters hinside hroom hip hcallee

/-- All that a step of a machine with frames can do to them. -/
theorem turns_step (hframes : m.frames ≠ []) :
    Ends step m (fun _ m' => m.Turns none m') fun e m' => m.Turns (some e) m' := by
  unfold step
  apply ends_get_bind
  split
  · rename_i hnone
    exact absurd hnone hframes
  · rename_i f others hcons
    split
    · rename_i hcode
      exact turns_leave hcons (Array.getElem?_eq_none_iff.mp hcode)
    · rename_i i hcode
      have hinside : f.ip < f.function.code.size := (Array.getElem?_eq_some_iff.mp hcode).1
      have hexecute := led_execute (Machine.Stays.refl m) f i
      apply (hexecute.mono (fun _ _ h => h) (turns_of_failsAt hcons hcode)).bind
      intro flow m' hled
      exact turns_follow hcons hinside hled

end MachineM

/-- A step of an activity that is under no fault. -/
theorem Activity.turns_step {m : Machine} (hframes : m.frames ≠ []) :
    m.Turns (Activity.step ⟨m, none⟩).fault (Activity.step ⟨m, none⟩).machine := by
  have hstep := MachineM.turns_step hframes
  unfold Activity.step
  dsimp only
  cases hresult : MachineM.step m with
  | ok _ m' => exact hstep.of_ok hresult
  | error e m' => exact hstep.of_error hresult

/-- What holds of the frames of every run: there are not too many of them, no call has left its
code, and a call that waits for another one is at an instruction. -/
structure Orderly (limit : Nat) (frames : List Frame) : Prop where
  /-- There are at most as many calls as the limit says. -/
  depth : frames.length ≤ limit
  /-- Every call is at an instruction or at the end of its code. -/
  inside : ∀ f ∈ frames, f.ip ≤ f.function.code.size
  /-- The calls that wait are at an instruction. -/
  waiting : ∀ f ∈ frames.tail, f.ip < f.function.code.size

namespace Orderly

variable {limit : Nat} {callable : Function → Prop} {f : Frame} {frames frames' others : List Frame}
  {fault : Option Fault}

/-- No frames are in order. -/
theorem nil (limit : Nat) : Orderly limit [] :=
  ⟨Nat.zero_le limit, nofun, nofun⟩

/-- A call on top of calls that wait. -/
theorem cons (hdepth : others.length < limit) (hf : f.ip ≤ f.function.code.size)
    (hothers : ∀ g ∈ others, g.ip < g.function.code.size) : Orderly limit (f :: others) := by
  refine ⟨hdepth, ?_, hothers⟩
  intro g hg
  rcases List.mem_cons.mp hg with rfl | hold
  · exact hf
  · exact (hothers g hold).le

/-- Leaving a frame because of a fault. -/
theorem tail (h : Orderly limit frames) : Orderly limit frames.tail := by
  cases frames with
  | nil => exact h
  | cons f others =>
    refine ⟨(Nat.le_succ _).trans h.depth, fun g hg => (h.waiting g hg).le, ?_⟩
    exact fun g hg => h.waiting g (List.mem_of_mem_tail hg)

/-- A caller that waits is at an instruction, so that it can go on with the next one. -/
theorem proceed (h : Orderly limit (f :: others)) :
    Orderly limit (Frame.redirect (fun caller => caller.ip + 1) others) := by
  cases others with
  | nil => exact nil limit
  | cons caller outer =>
    have hdepth := h.depth
    have hcaller := h.waiting caller List.mem_cons_self
    apply cons
    · simp only [List.length_cons] at hdepth
      omega
    · exact hcaller
    · exact fun g hg => h.waiting g (List.mem_cons_of_mem caller hg)

/-- Every step leaves orderly frames. -/
theorem turn (h : Orderly limit frames) (hturn : Turn limit callable frames fault frames') :
    Orderly limit frames' := by
  cases hturn with
  | goesOn _ hip => exact cons h.depth hip h.waiting
  | @enters f callee others hinside hroom hip _ =>
    apply cons hroom
    · rw [hip]
      exact Nat.zero_le _
    · intro g hg
      rcases List.mem_cons.mp hg with rfl | hold
      · exact hinside
      · exact h.waiting g hold
  | leaves _ => exact h.proceed
  | stays _ => exact h
  | drops _ => exact h.tail

end Orderly

end SlotMachine
