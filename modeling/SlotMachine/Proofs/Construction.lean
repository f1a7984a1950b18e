import SlotMachine.Proofs.Starting
import Mathlib.Tactic.Common

/-!
# When a program's instance is constructed

The instance of the program's top-level class is noted before its constructor runs, so that the
constructor itself finds it. A start that ends while the constructor runs leaves the note, and the
next start finds the instance and goes on to the entry method at once. So what holds is this: before
the entry method begins, a constructor has returned well on the instance, or an earlier start was
given up while the instance was being made.
-/

namespace SlotMachine

open Discipline

deriving instance DecidableEq for Phase

/-- The instance of the program's top-level class, if there is a program and it has one. -/
def Machine.programInstance? (m : Machine) : Option HeapId :=
  m.program.bind m.registry.topInstance?

/-- The frame belongs to a constructor that was called on the instance. -/
structure Frame.Builds (f : Frame) (object : HeapId) : Prop where
  /-- The function is a constructor. -/
  name_eq : f.function.name = Image.constructor
  /-- The instance is its receiver. -/
  receiver_eq : f.receiver = some object

namespace Session

/-- The instance on which a constructor returns well in the next step. -/
def constructed? (s : Session) : HostEvent → Option HeapId
  | .tick =>
    match s.phase, s.machine.frames with
    | .idle, _ => none
    | _, [] => none
    | _, f :: others =>
      if f.function.name = Image.constructor then
        match Activity.returning others.length ⟨s.machine, s.fault⟩ with
        | some (.ok _ _) => f.receiver
        | _ => none
      else none
  | _ => none

/-- The instance that was being made when a start is given up: the call of its constructor cannot be
begun, or a fault has left all frames. -/
def abandoned? (s : Session) : HostEvent → Option HeapId
  | .start =>
    match s.phase, (s.act .start).phase with
    | .idle, .idle => (s.act .start).machine.programInstance?
    | _, _ => none
  | .tick =>
    match s.phase, s.fault, s.machine.frames with
    | .making _ object, some _, [] => some object
    | _, _, _ => none
  | _ => none

/-- What is noted in the course of events, in order. -/
def noted (note : Session → HostEvent → Option HeapId) (s : Session) :
    List HostEvent → List HeapId
  | [] => []
  | event :: others => (note s event).toList ++ (s.act event).noted note others

/-- The instances on which constructors have returned well. -/
def built (s : Session) (events : List HostEvent) : List HeapId :=
  s.noted constructed? events

/-- The instances that were being made when starts were given up. -/
def abandoned (s : Session) (events : List HostEvent) : List HeapId :=
  s.noted abandoned? events

/-- The instance is being made: its constructor is the outermost call, or a fault is on its way
out. -/
structure Pending (s : Session) (object : HeapId) : Prop where
  /-- The machine makes the instance. -/
  phase_eq : ∃ module, s.phase = .making module object
  /-- The constructor has not returned. -/
  running : s.fault ≠ none ∨ ∃ f, s.machine.frames.getLast? = some f ∧ f.Builds object

/-- What holds of every state of a session in which constructors have returned well on some
instances and starts were given up with others. -/
structure Settled (done left : List HeapId) (s : Session) : Prop where
  /-- Between operations there are no frames. -/
  idle : s.phase = .idle → s.machine.frames = []
  /-- It is the program's instance that is made. -/
  making : ∀ {module object}, s.phase = .making module object →
    s.machine.program = some module ∧ s.machine.programInstance? = some object
  /-- While its entry method runs, the program has its instance. -/
  running : s.phase = .running → ∃ object, s.machine.programInstance? = some object
  /-- The program's top-level class is known under its plain name. -/
  top_eq : ∀ {id}, s.machine.program = some id →
    s.machine.registry.qualifiedIn id Image.topClass = .ok Image.topClass
  /-- The program's instance is constructed, abandoned or pending if its class has a constructor. -/
  constructed : ∀ {object cls}, s.machine.programInstance? = some object →
    s.machine.registry.class? Image.topClass = some cls →
    (cls.method? Image.constructor).isSome → object ∈ done ∨ object ∈ left ∨ s.Pending object

end Session

/-- A step without a fault leaves the outermost call where it is and moves at most its instruction,
unless it is the only one and ends. -/
theorem Turn.outermost {limit : Nat} {callable : Function → Prop} {frames frames' : List Frame}
    (h : Turn limit callable frames none frames') {f : Frame} (hf : frames.getLast? = some f) :
    (∃ ip, frames'.getLast? = some { f with ip := ip }) ∨
      frames = [f] ∧ f.function.code.size ≤ f.ip ∧ frames' = [] := by
  cases h with
  | @goesOn g others ip _ _ =>
    left
    cases others with
    | nil =>
      obtain rfl : g = f := by simpa using hf
      exact ⟨ip, rfl⟩
    | cons g' rest => exact ⟨f.ip, by simpa using hf⟩
  | @enters g callee others _ _ _ _ => exact .inl ⟨f.ip, by simpa using hf⟩
  | @leaves g others hover =>
    cases others with
    | nil =>
      obtain rfl : g = f := by simpa using hf
      exact .inr ⟨rfl, hover, rfl⟩
    | cons caller outer =>
      left
      cases outer with
      | nil =>
        obtain rfl : caller = f := by simpa using hf
        exact ⟨_, rfl⟩
      | cons g' rest => exact ⟨f.ip, by simpa [Frame.redirect] using hf⟩

/-- A constructor that has begun has a frame of its own. -/
theorem Machine.Constructs.frame {m m' : Machine} {cls : Class} {object : HeapId}
    (h : m.Constructs cls object m') (hconstructor : (cls.method? Image.constructor).isSome) :
    ∃ f, m'.frames = f :: m.frames ∧ f.Builds object := by
  obtain ⟨constructor, hmethod⟩ := Option.isSome_iff_exists.mp hconstructor
  have hbegun := h.begun
  rw [hmethod] at hbegun
  obtain ⟨f, hframes, -, hfunction, hreceiver, -⟩ := hbegun.frames
  refine ⟨f, hframes, ?_, hreceiver⟩
  rw [hfunction]
  simpa using List.find?_some hmethod

namespace Machine.Retains

variable {m m' : Machine}

/-- The program keeps its instance. -/
theorem programInstance (h : m.Retains m') {object : HeapId}
    (hobject : m.programInstance? = some object) : m'.programInstance? = some object := by
  obtain ⟨id, hid, htop⟩ := Option.bind_eq_some_iff.mp hobject
  exact Option.bind_eq_some_iff.mpr ⟨id, h.program.trans hid, h.topInstance htop⟩

/-- A module keeps the names under which its classes are known. -/
theorem qualifiedIn (h : m.Retains m') {id : ModuleId} {name qualified : String}
    (hname : m.registry.qualifiedIn id name = .ok qualified) :
    m'.registry.qualifiedIn id name = .ok qualified := by
  unfold Registry.qualifiedIn at hname ⊢
  cases hmodule : m.registry.module id with
  | error e =>
    rw [hmodule] at hname
    cases hname
  | ok loaded =>
    obtain ⟨loaded', hloaded', hfile, -⟩ := h.module_kept (MachineM.module_eq_ok_iff.mp hmodule)
    have hmodule' : m'.registry.module id = .ok loaded' := MachineM.module_eq_ok_iff.mpr hloaded'
    rw [hmodule] at hname
    rw [hmodule', ← hname, Except.map, Except.map, hfile]

end Machine.Retains

namespace Session

variable {s s' : Session} {done left : List HeapId} {m : Machine} {event : HostEvent}
  {object : HeapId} {cls : Class}

namespace Settled

/-- Between operations nothing is being made. -/
theorem of_idle (hidle : s.phase = .idle) (hempty : s.machine.frames = [])
    (htop : ∀ {id}, s.machine.program = some id →
      s.machine.registry.qualifiedIn id Image.topClass = .ok Image.topClass)
    (hresolved : ∀ {object cls}, s.machine.programInstance? = some object →
      s.machine.registry.class? Image.topClass = some cls →
      (cls.method? Image.constructor).isSome → object ∈ done ∨ object ∈ left) :
    s.Settled done left where
  idle _ := hempty
  making hmaking := by cases hidle.symm.trans hmaking
  running hrunning := by cases hidle.symm.trans hrunning
  top_eq := htop
  constructed hobject hcls hconstructor :=
    (hresolved hobject hcls hconstructor).imp_right .inl

/-- More instances may have been constructed or abandoned. -/
theorem mono (h : s.Settled done left) (done' left' : List HeapId) :
    s.Settled (done ++ done') (left ++ left') where
  idle := h.idle
  making := h.making
  running := h.running
  top_eq := h.top_eq
  constructed hobject hcls hconstructor := by
    rcases h.constructed hobject hcls hconstructor with hdone | hleft | hpending
    · exact .inl (List.mem_append_left _ hdone)
    · exact .inr (.inl (List.mem_append_left _ hleft))
    · exact .inr (.inr hpending)

/-- While an operation goes on, the program has its instance. -/
theorem exists_instance (h : s.Settled done left) (hphase : s.phase ≠ .idle) :
    ∃ object, s.machine.programInstance? = some object := by
  cases hcase : s.phase with
  | idle => exact absurd hcase hphase
  | making module object => exact ⟨object, (h.making hcase).2⟩
  | running => exact h.running hcase

/-- Between operations nothing is pending. -/
theorem resolved (h : s.Settled done left) (hidle : s.phase = .idle)
    (hobject : s.machine.programInstance? = some object)
    (hcls : s.machine.registry.class? Image.topClass = some cls)
    (hconstructor : (cls.method? Image.constructor).isSome) : object ∈ done ∨ object ∈ left := by
  rcases h.constructed hobject hcls hconstructor with hdone | hleft | ⟨⟨_, hmaking⟩, -⟩
  · exact .inl hdone
  · exact .inr hleft
  · cases hidle.symm.trans hmaking

/-- What is known of the program's instance stays known while an operation goes on. -/
theorem of_retains (h : s.Settled done left) (hphase : s.phase ≠ .idle)
    (hretains : s.machine.Retains m) (hobject : m.programInstance? = some object)
    (hcls : m.registry.class? Image.topClass = some cls)
    (hconstructor : (cls.method? Image.constructor).isSome) :
    object ∈ done ∨ object ∈ left ∨ s.Pending object := by
  obtain ⟨before, hbefore⟩ := h.exists_instance hphase
  obtain rfl : before = object :=
    Option.some.inj ((hretains.programInstance hbefore).symm.trans hobject)
  rw [hretains.plain isQualifiedName_topClass] at hcls
  exact h.constructed hbefore hcls hconstructor

/-- The next state of a session whose operation goes on or has just ended. -/
theorem next (h : s.Settled done left) (hphase : s.phase ≠ .idle)
    (hretains : s.machine.Retains s'.machine) (hidle : s'.phase = .idle → s'.machine.frames = [])
    (hsame : s'.phase = .idle ∨ s'.phase = .running ∨ s'.phase = s.phase)
    (hpending : ∀ {object}, s.Pending object → object ∈ done ∨ object ∈ left ∨ s'.Pending object) :
    s'.Settled done left where
  idle := hidle
  making {module object} hmaking := by
    have hbefore : s.phase = .making module object := by
      rcases hsame with hother | hother | hother
      · cases hother.symm.trans hmaking
      · cases hother.symm.trans hmaking
      · exact hother.symm.trans hmaking
    obtain ⟨hprogram, hobject⟩ := h.making hbefore
    exact ⟨hretains.program.trans hprogram, hretains.programInstance hobject⟩
  running _ := by
    obtain ⟨object, hobject⟩ := h.exists_instance hphase
    exact ⟨object, hretains.programInstance hobject⟩
  top_eq hid := hretains.qualifiedIn (h.top_eq (hretains.program.symm.trans hid))
  constructed hobject hcls hconstructor := by
    rcases h.of_retains hphase hretains hobject hcls hconstructor with hdone | hleft | hbefore
    · exact .inl hdone
    · exact .inr (.inl hleft)
    · exact hpending hbefore

end Settled

/-- A constructor that returns well is noted. -/
theorem constructed?_of_returning (hphase : s.phase ≠ .idle) {f : Frame} {others : List Frame}
    (hframes : s.machine.frames = f :: others) (hbuilds : f.Builds object)
    (hreturns : Activity.returning others.length ⟨s.machine, s.fault⟩ = some (.ok () m)) :
    s.constructed? .tick = some object := by
  unfold constructed?
  rw [hframes]
  cases hcase : s.phase with
  | idle => exact absurd hcase hphase
  | making module object' =>
    dsimp only
    rw [if_pos hbuilds.name_eq, hreturns]
    exact hbuilds.receiver_eq
  | running =>
    dsimp only
    rw [if_pos hbuilds.name_eq, hreturns]
    exact hbuilds.receiver_eq

/-- The constructor of an instance that is being made goes on, or returns well, or a fault is
raised. -/
theorem pending_advance (hphase : s.phase ≠ .idle) (hframes : s.machine.frames ≠ [])
    (hpending : s.Pending object) :
    object ∈ (s.constructed? .tick).toList ∨ s.advance.Pending object := by
  obtain ⟨machine, fault, phase⟩ := s
  obtain ⟨⟨module, hmaking⟩, hrunning⟩ := hpending
  obtain rfl : phase = .making module object := hmaking
  cases fault with
  | some e =>
    obtain ⟨frames, -, hstep⟩ := Activity.step_some machine e
    have hfault : (Activity.step ⟨machine, some e⟩).fault ≠ none := by
      rw [hstep]
      exact Option.some_ne_none e
    exact .inr ⟨⟨module, rfl⟩, .inl hfault⟩
  | none =>
    have hturn := (Activity.turns_step hframes).turn
    obtain ⟨f, hlast, hbuilds⟩ := hrunning.resolve_left (· rfl)
    by_cases hfault : (Activity.step ⟨machine, none⟩).fault = none
    · rw [hfault] at hturn
      rcases hturn.outermost hlast with ⟨ip, hlast'⟩ | ⟨honly, hover, hempty⟩
      · exact .inr ⟨⟨module, rfl⟩, .inr ⟨_, hlast', hbuilds.name_eq, hbuilds.receiver_eq⟩⟩
      · -- The constructor was the only call, and its code is over.
        left
        have hreturns :
            Activity.returning 0 ⟨machine, none⟩ = some (MachineM.giveBack f machine) := by
          rw [Activity.returning_none honly]
          exact if_pos ⟨rfl, hover⟩
        rw [Activity.step_of_over honly hover] at hfault
        cases hgive : MachineM.giveBack f machine with
        | error e m' =>
          rw [hgive] at hfault
          cases hfault
        | ok _ m' =>
          rw [hgive] at hreturns
          rw [constructed?_of_returning hphase honly hbuilds hreturns]
          exact List.mem_singleton_self object
    · exact .inr ⟨⟨module, rfl⟩, .inl hfault⟩

/-- Beginning the entry method keeps what moves retain, and adds no frame unless it succeeds. -/
theorem retains_enter (s : Session) (module : ModuleId) (object : HeapId) :
    s.machine.Retains (s.enter module object).machine ∧
      ((s.enter module object).phase = .idle ∧
        (s.enter module object).machine.frames = s.machine.frames ∨
      (s.enter module object).phase = .running ∧ ∃ f,
        (s.enter module object).machine.frames = f :: s.machine.frames ∧ f.module = module ∧
        f.receiver = some object ∧ f.function.name = Image.entryMethod) := by
  have henters := enters_enter s module object
  generalize s.enter module object = next at henters ⊢
  cases henters with
  | fails hev hframes =>
    have hretains := Machine.retains_of_progress (Machine.progress_of_motion hev)
    exact ⟨hretains, .inl ⟨phase_ended _, hframes⟩⟩
  | begins hev hframes _ _ hmethod hbegun =>
    have hretains := Machine.retains_of_progress (Machine.progress_of_motion hev)
    obtain ⟨f, hframe, hmodule, hfunction, hreceiver, -⟩ := hbegun.frames
    rw [hframes] at hframe
    have hname : f.function.name = Image.entryMethod := by
      rw [hfunction]
      simpa using List.find?_some hmethod
    exact ⟨hretains.trans (.of_eq hbegun.registry hbegun.program),
      .inr ⟨rfl, f, hframe, hmodule, hreceiver, hname⟩⟩

/-- What comes next in starting a program once no frame is left. -/
theorem settled_conclude (h : s.Settled done left) (hphase : s.phase ≠ .idle)
    (hempty : s.machine.frames = []) :
    s.conclude.Settled done (left ++ (s.abandoned? .tick).toList) := by
  have hleft := h.mono [] (s.abandoned? .tick).toList
  rw [List.append_nil] at hleft
  have hended : ∀ {ending : Ending}, (ended ending).machine = s.machine →
      (∀ {object}, s.Pending object → object ∈ (s.abandoned? .tick).toList) →
      (ended ending).Settled done (left ++ (s.abandoned? .tick).toList) := by
    intro ending hmachine hpending
    apply hleft.next hphase
    · exact .of_eq (congrArg _ hmachine) (congrArg _ hmachine)
    · rw [hmachine]
      exact fun _ => hempty
    · exact .inl (phase_ended ending)
    · exact fun hbefore => .inr (.inl (List.mem_append_right _ (hpending hbefore)))
  have hnone : s.fault = none → ∀ {object}, ¬ s.Pending object := by
    rintro hfault object ⟨-, hfaulty | ⟨f, hlast, -⟩⟩
    · exact hfaulty hfault
    · rw [hempty] at hlast
      cases hlast
  unfold conclude
  split
  · rename_i module object hmaking hfault
    obtain ⟨hretains, hends⟩ := retains_enter s module object
    apply hleft.next hphase hretains
    · intro hidle
      rcases hends with ⟨-, hframes⟩ | ⟨hrunning, -⟩
      · exact hframes.trans hempty
      · cases hrunning.symm.trans hidle
    · rcases hends with ⟨hidle, -⟩ | ⟨hrunning, -⟩
      · exact .inl hidle
      · exact .inr (.inl hrunning)
    · exact fun hbefore => absurd hbefore (hnone hfault)
  · rename_i module object e hmaking hfault
    apply hended (machine_ended_ending s)
    rintro object' ⟨⟨module', hmaking'⟩, -⟩
    obtain ⟨rfl, rfl⟩ := Phase.making.inj (hmaking.symm.trans hmaking')
    simp [abandoned?, hmaking, hfault, hempty]
  · rename_i hrunning
    apply hended ((machine_ended_flushed _).trans (machine_ended_ending s))
    rintro object' ⟨⟨module', hmaking'⟩, -⟩
    cases hrunning.symm.trans hmaking'
  · rename_i hidle
    exact absurd hidle hphase

/-- A program that was started goes on. -/
theorem settled_tick (h : s.Settled done left) :
    s.tick.Settled (done ++ (s.constructed? .tick).toList)
      (left ++ (s.abandoned? .tick).toList) := by
  have hmono := h.mono (s.constructed? .tick).toList (s.abandoned? .tick).toList
  by_cases hphase : s.phase = .idle
  · simp only [tick, hphase]
    exact hmono
  · rw [tick_of_ne_idle hphase]
    split
    · rename_i hempty
      have hconclude := settled_conclude h hphase (List.isEmpty_iff.mp hempty)
      have hboth := hconclude.mono (s.constructed? .tick).toList []
      rw [List.append_nil] at hboth
      exact hboth
    · rename_i hframes
      have hne : s.machine.frames ≠ [] := fun hempty => hframes (List.isEmpty_iff.mpr hempty)
      apply hmono.next hphase
      · exact Machine.retains_of_progress (Activity.progress_step ⟨s.machine, s.fault⟩)
      · exact fun hidle => absurd hidle hphase
      · exact .inr (.inr rfl)
      · intro object hpending
        rcases pending_advance hphase hne hpending with hnew | hstill
        · exact .inl (List.mem_append_right _ hnew)
        · exact .inr (.inr hstill)

/-- The host starts the program. -/
theorem settled_start (h : s.Settled done left) :
    (s.act .start).Settled done (left ++ (s.abandoned? .start).toList) := by
  have hmono := h.mono [] (s.abandoned? .start).toList
  rw [List.append_nil] at hmono
  by_cases hphase : s.phase = .idle
  · have hempty := h.idle hphase
    have hprepares := prepares_start hphase
    generalize hact : s.act .start = next at hprepares ⊢
    cases hprepares with
    | @fails e m₁ hev hframes =>
      have habandoned : s.abandoned? .start = m₁.programInstance? := by
        simp only [abandoned?, hphase, hact]
        rfl
      have hretains := Machine.retains_of_progress hev
      rw [habandoned]
      apply Settled.of_idle rfl (hframes.trans hempty)
      · exact fun hid => hretains.qualifiedIn (h.top_eq (hretains.program.symm.trans hid))
      · intro object cls hobject _ _
        have hobject : m₁.programInstance? = some object := hobject
        rw [hobject]
        exact .inr (List.mem_append_right _ (List.mem_singleton_self object))
    | @makes m₁ module object hev hprogram hfurnishes =>
      have hretains := Machine.retains_of_progress hev
      have hprogram₁ : m₁.program = some module := hretains.program.trans hprogram
      have hobject₁ : m₁.programInstance? = some object := by
        rw [Machine.programInstance?, hprogram₁]
        exact hfurnishes.topInstance_eq
      refine ⟨?_, ?_, ?_, ?_, ?_⟩
      · intro hidle
        cases hidle
      · rintro _ _ ⟨⟩
        exact ⟨hprogram₁, hobject₁⟩
      · intro hrunning
        cases hrunning
      · exact fun hid => hretains.qualifiedIn (h.top_eq (hretains.program.symm.trans hid))
      · intro object' cls hobject' hcls hconstructor
        obtain rfl : object = object' := Option.some.inj (hobject₁.symm.trans hobject')
        cases hfurnishes with
        | had hhad hacts =>
          -- The instance was noted before, so it is not this start that constructs it.
          have hbefore : s.machine.programInstance? = some object := by
            rw [Machine.programInstance?, hprogram]
            exact hhad
          rw [hretains.plain isQualifiedName_topClass] at hcls
          exact (hmono.resolved hphase hbefore hcls hconstructor).imp_right .inl
        | made _ hname _ hfound hframes hconstructs =>
          rw [h.top_eq hprogram] at hname
          obtain rfl := Except.ok.inj hname
          rw [← hconstructs.registry] at hfound
          obtain rfl := Option.some.inj (hfound.symm.trans hcls)
          obtain ⟨f, hframe, hbuilds⟩ := hconstructs.frame hconstructor
          rw [hframes, hempty] at hframe
          have hlast : m₁.frames.getLast? = some f := by
            rw [hframe]
            rfl
          exact .inr (.inr ⟨⟨module, rfl⟩, .inr ⟨f, hlast, hbuilds⟩⟩)
  · rw [act_start_of_ne_idle hphase]
    exact hmono

/-- A program that has just been installed has no instance yet. -/
theorem settled_install (hempty : m.frames = []) (image : Image) :
    Settled done left (match Machine.loadImage image m with
      | .ok _ m => ended (.ok () m)
      | .error e m => ended (.error e m)) := by
  have hnew : (m.linkage.enter ⟨none, image⟩).registry.modules[m.registry.modules.size]? =
      some ⟨none, image.constants, m.store.heaps.size, none⟩ := by
    rw [Linkage.modules_enter]
    exact Array.getElem?_push_size
  rw [Machine.loadImage_eq]
  apply Settled.of_idle rfl hempty
  · rintro id ⟨⟩
    have hmodule := MachineM.module_eq_ok_iff.mpr hnew
    change (m.linkage.enter ⟨none, image⟩).registry.qualifiedIn _ Image.topClass = _
    rw [Registry.qualifiedIn, hmodule]
    rfl
  · intro object cls hobject
    have hnone : (m.linkage.enter ⟨none, image⟩).registry.topInstance? m.registry.modules.size =
        none := by
      rw [Registry.topInstance?, hnew]
      rfl
    cases hnone.symm.trans hobject

/-- What holds of every state holds after an event. -/
theorem settled_act (h : s.Settled done left) (event : HostEvent) :
    (s.act event).Settled (done ++ (s.constructed? event).toList)
      (left ++ (s.abandoned? event).toList) := by
  cases event with
  | load bytes =>
    have hmono := h.mono (s.constructed? (.load bytes)).toList (s.abandoned? (.load bytes)).toList
    simp only [act]
    split
    · rename_i hidle
      rw [Machine.load_eq]
      cases Image.decode bytes with
      | error e =>
        apply Settled.of_idle rfl
        · exact h.idle hidle
        · exact hmono.top_eq
        · exact hmono.resolved hidle
      | ok image => exact settled_install (h.idle hidle) image
    · exact hmono
  | start =>
    have hstart := settled_start h
    have hboth := hstart.mono (s.constructed? .start).toList []
    rw [List.append_nil] at hboth
    exact hboth
  | tick => exact settled_tick h
  | supply fetch =>
    have hmono := h.mono (s.constructed? (.supply fetch)).toList
      (s.abandoned? (.supply fetch)).toList
    refine ⟨hmono.idle, hmono.making, hmono.running, hmono.top_eq, ?_⟩
    intro object cls hobject hcls hconstructor
    rcases hmono.constructed hobject hcls hconstructor with hdone | hleft | ⟨hphase, hrunning⟩
    · exact .inl hdone
    · exact .inr (.inl hleft)
    · exact .inr (.inr ⟨hphase, hrunning⟩)

/-- What holds of every state holds after any events. -/
theorem settled_play (h : s.Settled done left) (events : List HostEvent) :
    (s.play events).Settled (done ++ s.built events) (left ++ s.abandoned events) := by
  induction events generalizing s done left with
  | nil =>
    have hsame := h.mono [] []
    exact hsame
  | cons event others ih =>
    have hothers := ih (settled_act h event)
    rw [List.append_assoc, List.append_assoc] at hothers
    exact hothers

/-- A session begins with a machine on which nothing is loaded. -/
theorem settled_create (settings : Settings) (source : Source) (sink : Sink)
    (natives : NativeTable) :
    (Machine.create settings source sink natives).atRest.Settled [] [] := by
  apply Settled.of_idle rfl rfl
  · intro id hid
    cases hid
  · intro object cls hobject
    cases hobject

/-- A start that finds the instance noted goes on to the entry method without a call. -/
theorem act_start_of_noted (hidle : s.phase = .idle)
    (hobject : s.machine.programInstance? = some object) :
    ∃ module, s.act .start = ⟨s.machine, none, .making module object⟩ := by
  obtain ⟨module, hprogram, htop⟩ := Option.bind_eq_some_iff.mp hobject
  obtain ⟨loaded, hloaded, hsome⟩ := Option.bind_eq_some_iff.mp htop
  have hask : MachineM.ask (fun m => m.registry.module module) s.machine =
      .ok loaded s.machine := by
    simp [MachineM.ask, MachineM.module_eq_ok_iff.mpr hloaded]
  have hprepare : Machine.prepare s.machine = .ok (module, object) s.machine := by
    unfold Machine.prepare
    rw [Action.get_bind, hprogram]
    dsimp only
    apply Action.bind_eq_ok_iff.mpr
    refine ⟨(object, .next), s.machine, ?_, rfl⟩
    unfold MachineM.topInstance
    rw [Action.bind_of_ok hask, hsome]
    rfl
  exact ⟨module, by simp only [act, hidle, hprepare]⟩

/-- Whatever programs a host loads and starts on one machine, and however the contents of its source
change: when the entry method of a program begins, it begins on the instance of the program's
top-level class; and if that class has a constructor, a constructor has returned well on the
instance, or an earlier start was given up while the instance was being made. After such a start
the instance is noted, and every later start goes on to the entry method with the machine as it
is. -/
theorem entered_after_construction_or_abandonment (settings : Settings) (source : Source)
    (sink : Sink) (natives : NativeTable) (events : List HostEvent) (object : HeapId) :
    let first := (Machine.create settings source sink natives).atRest
    let s := first.play events
    (∀ module, s.phase = .making module object → (s.act .tick).phase = .running →
      (∃ f, (s.act .tick).machine.frames = [f] ∧ f.module = module ∧ f.receiver = some object ∧
        f.function.name = Image.entryMethod) ∧
      s.machine.program = some module ∧ s.machine.programInstance? = some object ∧
      ∀ cls, s.machine.registry.class? Image.topClass = some cls →
        (cls.method? Image.constructor).isSome →
        object ∈ first.built events ∨ object ∈ first.abandoned events) ∧
    (s.phase = .idle → s.machine.programInstance? = some object →
      ∃ module, s.act .start = ⟨s.machine, none, .making module object⟩) := by
  intro first s
  have hsettled : s.Settled (first.built events) (first.abandoned events) :=
    settled_play (settled_create settings source sink natives) events
  refine ⟨?_, act_start_of_noted⟩
  intro module hmaking hrunning
  have hphase : s.phase ≠ .idle := by
    simp [hmaking]
  have htick : s.act .tick = if s.machine.frames.isEmpty then s.conclude else s.advance :=
    tick_of_ne_idle hphase
  rw [htick] at hrunning ⊢
  split at hrunning
  · rename_i hframes
    have hempty : s.machine.frames = [] := List.isEmpty_iff.mp hframes
    rw [if_pos hframes]
    obtain ⟨hprogram, hobject⟩ := hsettled.making hmaking
    cases hfault : s.fault with
    | some e =>
      have hended : s.conclude = ended s.ending := by simp only [conclude, hmaking, hfault]
      rw [hended, phase_ended] at hrunning
      cases hrunning
    | none =>
      have henters : s.conclude = s.enter module object := by
        simp only [conclude, hmaking, hfault]
      rw [henters] at hrunning ⊢
      obtain ⟨-, ⟨hidle, -⟩ | ⟨-, f, hframe, hmodule, hreceiver, hname⟩⟩ :=
        retains_enter s module object
      · cases hidle.symm.trans hrunning
      · rw [hempty] at hframe
        refine ⟨⟨f, hframe, hmodule, hreceiver, hname⟩, hprogram, hobject, ?_⟩
        intro cls hcls hconstructor
        rcases hsettled.constructed hobject hcls hconstructor with hdone | hleft | ⟨-, hpending⟩
        · exact .inl hdone
        · exact .inr hleft
        · rcases hpending with hfaulty | ⟨g, hlast, -⟩
          · exact absurd hfault hfaulty
          · rw [hempty] at hlast
            cases hlast
  · have hsame : s.advance.phase = s.phase := rfl
    rw [hsame, hmaking] at hrunning
    cases hrunning

/-- A program whose constructor stores a constant. -/
def careful : Image where
  constants := #[.long 1]
  heap := [[Tag.untyped], [Tag.untyped], [Tag.untyped], [Tag.untyped]]
  classes := [⟨Image.topClass, [], [⟨Image.constructor, false, [], #[⟨.loadConst, [3, 0]⟩]⟩,
    ⟨Image.entryMethod, false, [], #[]⟩]⟩]

/-- The program is started, up to where its constructor has returned. -/
def startedCarefully : List HostEvent :=
  [.load careful.encode, .start, .tick, .tick]

/-- The entry method comes next, and the constructor has returned on the instance. -/
theorem careful_constructed :
    (fresh.play startedCarefully).phase = .making 0 2 ∧
    ((fresh.play startedCarefully).act .tick).phase = .running ∧
    ((fresh.play startedCarefully).machine.registry.class? Image.topClass).any
      (fun cls => (cls.method? Image.constructor).isSome) = true ∧
    fresh.abandoned startedCarefully = [] ∧ 2 ∈ fresh.built startedCarefully ∧
    ∃ f, ((fresh.play startedCarefully).act .tick).machine.frames = [f] ∧ f.receiver = some 2 := by
  have hmaking : (fresh.play startedCarefully).phase = .making 0 2 := by decide +kernel
  have hrunning : ((fresh.play startedCarefully).act .tick).phase = .running := by decide +kernel
  have hclass : ((fresh.play startedCarefully).machine.registry.class? Image.topClass).any
      (fun cls => (cls.method? Image.constructor).isSome) = true := by decide +kernel
  have hnone : fresh.abandoned startedCarefully = [] := by decide +kernel
  obtain ⟨hentered, -⟩ := entered_after_construction_or_abandonment Settings.standard Source.empty
    Sink.empty NativeTable.standard startedCarefully 2
  obtain ⟨⟨f, hframes, -, hreceiver, -⟩, -, -, hconstructed⟩ := hentered 0 hmaking hrunning
  obtain ⟨cls, hcls, hconstructor⟩ := (Option.any_eq_true _ _).mp hclass
  refine ⟨hmaking, hrunning, hclass, hnone, ?_, f, hframes, hreceiver⟩
  rcases hconstructed cls hcls hconstructor with hbuilt | habandoned
  · exact hbuilt
  · have habandoned : 2 ∈ fresh.abandoned startedCarefully := habandoned
    rw [hnone] at habandoned
    cases habandoned

/-- A program whose constructor asks for a constant that there is not. -/
def careless : Image where
  constants := #[.long 1]
  heap := [[Tag.untyped], [Tag.untyped], [Tag.untyped], [Tag.untyped]]
  classes := [⟨Image.topClass, [], [⟨Image.constructor, false, [], #[⟨.loadConst, [3, 99]⟩]⟩,
    ⟨Image.entryMethod, false, [], #[⟨.loadConst, [3, 0]⟩]⟩]⟩]

/-- The program is started in vain, and then once more. -/
def startedTwice : List HostEvent :=
  [.load careless.encode, .start, .tick, .tick, .tick, .start]

/-- The constructor fails, and the second start comes to the entry method though no constructor has
ever returned. -/
theorem careless_entered_unconstructed :
    (fresh.play (startedTwice.take 5)).fault = some (.constantOutOfRange 99) ∧
    (fresh.play startedTwice).phase = .making 0 2 ∧
    ((fresh.play startedTwice).act .tick).phase = .running ∧
    ((fresh.play startedTwice).machine.registry.class? Image.topClass).any
      (fun cls => (cls.method? Image.constructor).isSome) = true ∧
    ((fresh.play startedTwice).act .tick).machine.frames.map
      (fun f => (f.function.name, f.receiver)) = [(Image.entryMethod, some 2)] ∧
    fresh.built startedTwice = [] := by
  refine ⟨?_, ?_, ?_, ?_, ?_, ?_⟩ <;> decide +kernel

end Session

end SlotMachine
