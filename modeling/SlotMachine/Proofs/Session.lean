import SlotMachine.Proofs.Machine.Run
import Mathlib.Tactic.Common

/-!
# Sessions with a machine

A host loads programs into a machine and starts them; in between it may change what the source of
modules holds. A session follows this one step of the machine at a time, so that its states are all
the states of the machine, not only those in which an operation leaves it. What `Machine.load`,
`Machine.start` and `Machine.run` return are states of sessions. A program that breaks down leaves
the session where it is for good.

All states of a session are sound, and each evolves from the ones before.
-/

namespace SlotMachine

/-- What a machine in a session is doing. -/
inductive Phase where
  /-- Nothing: the last operation has ended. -/
  | idle
  /-- It makes the instance of the program's top-level class, whose entry method comes next. -/
  | making (module : ModuleId) (object : HeapId)
  /-- It runs the entry method. -/
  | running

/-- What happens next in a session. -/
inductive HostEvent where
  /-- The host loads a program. -/
  | load (bytes : List UInt8)
  /-- The host starts the program loaded last. -/
  | start
  /-- A program that was started goes on by one step. -/
  | tick
  /-- The source of modules gets other contents. -/
  | supply (fetch : String → Except Fault (List UInt8))

/-- The contents that the source of modules gets. -/
def HostEvent.supplied? : HostEvent → Option (String → Except Fault (List UInt8))
  | .supply fetch => some fetch
  | _ => none

/-- A machine in the hands of a host. -/
structure Session where
  /-- The machine. -/
  machine : Machine
  /-- The fault on its way out, or with which the last operation ended. -/
  fault : Option Fault
  /-- What the machine is doing. -/
  phase : Phase

namespace Session

/-- A session begins with a machine on which nothing is loaded and that has the standard native
functions. -/
def create (settings : Settings) (source : Source) (sink : Sink) : Session :=
  ⟨Machine.create settings source sink NativeTable.standard, none, .idle⟩

/-- A session with standard settings and without files. -/
def fresh : Session :=
  create Settings.standard Source.empty Sink.empty

/-- An operation has ended. -/
def ended : Ending → Session
  | .ok () m => ⟨m, none, .idle⟩
  | .error e m => ⟨m, some e, .idle⟩

/-- The present state of the machine as the ending of an operation. -/
def ending (s : Session) : Ending :=
  match s.fault with
  | none => .ok () s.machine
  | some e => .error e s.machine

/-- The instance of the top-level class is made, and its entry method begins. -/
def enter (s : Session) (module : ModuleId) (object : HeapId) : Session :=
  match Machine.entry module s.machine with
  | .error e m => ended (.error e m)
  | .ok method m =>
    match MachineM.callBare module method object .proceed m with
    | .error e m => ended (Machine.flushed (.error e m))
    | .ok () m => ⟨m, none, .running⟩

/-- What comes next in starting a program once no frame is left. -/
def conclude (s : Session) : Session :=
  match s.phase, s.fault with
  | .making module object, none => s.enter module object
  | .making _ _, some _ => ended s.ending
  | .running, _ => ended (Machine.flushed s.ending)
  | .idle, _ => s

/-- One step of the machine. -/
def advance (s : Session) : Session :=
  let a := Activity.step ⟨s.machine, s.fault⟩
  { s with machine := a.machine, fault := a.fault }

/-- A program that was started goes on. -/
def tick (s : Session) : Session :=
  match s.phase with
  | .idle => s
  | _ => if s.machine.frames.isEmpty then s.conclude else s.advance

/-- The state after an event. Loading and starting wait until the machine is idle. -/
def act (s : Session) : HostEvent → Session
  | .load bytes =>
    match s.phase with
    | .idle =>
      match Machine.load bytes s.machine with
      | .ok _ m => ended (.ok () m)
      | .error e m => ended (.error e m)
    | _ => s
  | .start =>
    match s.phase with
    | .idle =>
      match Machine.prepare s.machine with
      | .error e m => ended (.error e m)
      | .ok (module, object) m => ⟨m, none, .making module object⟩
    | _ => s
  | .tick => s.tick
  | .supply fetch => { s with machine.registry.source.fetch := fetch }

/-- The state after events. -/
def play (s : Session) (events : List HostEvent) : Session :=
  events.foldl act s

variable {s : Session} {m : Machine}

/-- Flushing the sink leaves the machine alone. -/
theorem machine_ended_flushed (e : Ending) :
    (ended (Machine.flushed e)).machine = (ended e).machine := by
  unfold Machine.flushed
  cases e with
  | ok _ m => dsimp only; cases m.sink.flush <;> rfl
  | error e m => dsimp only; cases m.sink.flush <;> rfl

/-- The machine of an ending is the machine of the state it was taken from. -/
theorem machine_ended_ending (s : Session) : (ended s.ending).machine = s.machine := by
  obtain ⟨machine, fault, phase⟩ := s
  cases fault <;> rfl

/-- Beginning the entry method. -/
theorem sound_enter (hs : s.machine.Sound) (module : ModuleId) (object : HeapId) :
    (s.enter module object).machine.Sound ∧
      s.machine.Evolves (s.enter module object).machine := by
  have hentry := Machine.keeps_entry hs module
  unfold enter
  cases hresult : Machine.entry module s.machine with
  | error e m₁ => exact hentry.last (.inr ⟨e, hresult⟩)
  | ok method m₁ =>
    obtain ⟨hm₁, hev₁⟩ := hentry.last (.inl ⟨method, hresult⟩)
    have hcall := MachineM.keeps_callBare hm₁ module method object
      (Resume.sound_proceed m₁.store)
    dsimp only
    cases hcalled : MachineM.callBare module method object .proceed m₁ with
    | error e m₂ =>
      obtain ⟨hm₂, hev₂⟩ := hcall.last (.inr ⟨e, hcalled⟩)
      dsimp only
      rw [machine_ended_flushed]
      exact ⟨hm₂, hev₁.trans hev₂⟩
    | ok _ m₂ =>
      obtain ⟨hm₂, hev₂⟩ := hcall.last (.inl ⟨(), hcalled⟩)
      exact ⟨hm₂, hev₁.trans hev₂⟩

/-- What comes next in starting a program. -/
theorem sound_conclude (hs : s.machine.Sound) :
    s.conclude.machine.Sound ∧ s.machine.Evolves s.conclude.machine := by
  unfold conclude
  split
  · exact sound_enter hs _ _
  · rw [machine_ended_ending]
    exact ⟨hs, Machine.Evolves.refl _⟩
  · rw [machine_ended_flushed, machine_ended_ending]
    exact ⟨hs, Machine.Evolves.refl _⟩
  · exact ⟨hs, Machine.Evolves.refl _⟩

/-- A program that was started goes on. -/
theorem sound_tick (hs : s.machine.Sound) :
    s.tick.machine.Sound ∧ s.machine.Evolves s.tick.machine := by
  unfold tick
  split
  · exact ⟨hs, Machine.Evolves.refl _⟩
  · split
    · exact sound_conclude hs
    · exact Activity.sound_step (a := ⟨s.machine, s.fault⟩) hs

/-- After an event a sound machine is sound and has evolved. -/
theorem sound_act (hs : s.machine.Sound) (event : HostEvent) :
    (s.act event).machine.Sound ∧ s.machine.Evolves (s.act event).machine := by
  cases event with
  | load bytes =>
    have hload := Machine.keeps_load hs bytes
    simp only [act]
    split
    · cases hresult : Machine.load bytes s.machine with
      | ok id m => exact hload.last (.inl ⟨id, hresult⟩)
      | error e m => exact hload.last (.inr ⟨e, hresult⟩)
    · exact ⟨hs, Machine.Evolves.refl _⟩
  | start =>
    have hprepare := Machine.keeps_prepare hs
    simp only [act]
    split
    · cases hresult : Machine.prepare s.machine with
      | ok made m => exact hprepare.last (.inl ⟨made, hresult⟩)
      | error e m => exact hprepare.last (.inr ⟨e, hresult⟩)
    · exact ⟨hs, Machine.Evolves.refl _⟩
  | tick => exact sound_tick hs
  | supply fetch =>
    exact ⟨hs.of_eq rfl rfl rfl rfl rfl hs.frames, Machine.evolves_of_eq rfl rfl rfl rfl⟩

/-- After any events a sound machine is sound and has evolved. -/
theorem sound_play (hs : s.machine.Sound) (events : List HostEvent) :
    (s.play events).machine.Sound ∧ s.machine.Evolves (s.play events).machine := by
  induction events generalizing s with
  | nil => exact ⟨hs, Machine.Evolves.refl _⟩
  | cons event others ih =>
    obtain ⟨hact, hev⟩ := sound_act hs event
    obtain ⟨hplay, hev'⟩ := ih hact
    exact ⟨hplay, hev.trans hev'⟩

/-- Playing events in two parts. -/
theorem play_append (s : Session) (events later : List HostEvent) :
    s.play (events ++ later) = (s.play events).play later :=
  List.foldl_append

/-- Some events during which the source keeps its contents lead to an operation's ending. -/
def Meets (s : Session) (e : Ending) : Prop :=
  ∃ events : List HostEvent, events.filterMap HostEvent.supplied? = [] ∧ s.play events = ended e

/-- A session that is at the ending meets it. -/
theorem meets_ended (e : Ending) : (ended e).Meets e :=
  ⟨[], rfl, rfl⟩

/-- What is met after some events is met. -/
theorem meets_of_play {e : Ending} (events : List HostEvent)
    (hevents : events.filterMap HostEvent.supplied? = []) (h : (s.play events).Meets e) :
    s.Meets e := by
  obtain ⟨later, hkept, hlater⟩ := h
  refine ⟨events ++ later, ?_, ?_⟩
  · rw [List.filterMap_append, hevents, hkept]
    rfl
  · rw [play_append, hlater]

/-- A tick of a machine that is not idle is a step as long as there are frames. -/
theorem tick_of_ne_idle (hphase : s.phase ≠ .idle) :
    s.tick = if s.machine.frames.isEmpty then s.conclude else s.advance := by
  obtain ⟨machine, fault, phase⟩ := s
  cases phase with
  | idle => exact absurd rfl hphase
  | making module object => rfl
  | running => rfl

/-- Once the machine has broken down in the middle of a call, the host can do nothing but change the
contents of the source. -/
theorem act_of_crash {e : Fault} (hphase : s.phase ≠ .idle) (hframes : s.machine.frames ≠ [])
    (hfault : s.fault = some e) (hcrash : e.isCrash = true) {event : HostEvent}
    (hevent : event.supplied? = none) : s.act event = s := by
  obtain ⟨machine, fault, phase⟩ := s
  obtain rfl : fault = some e := hfault
  cases event with
  | load bytes => cases phase <;> first | exact absurd rfl hphase | rfl
  | start => cases phase <;> first | exact absurd rfl hphase | rfl
  | tick =>
    change tick _ = _
    rw [tick_of_ne_idle hphase, if_neg fun hempty => hframes (List.isEmpty_iff.mp hempty), advance,
      Activity.step_of_crash hcrash]
  | supply fetch => cases hevent

/-- The steps of a run are ticks. -/
theorem exists_play_of_run {fuel : Nat} {a b : Activity} {phase : Phase} (hphase : phase ≠ .idle)
    (h : Activity.run fuel a = some b) :
    b.isOver = true ∧
      ∃ events : List HostEvent, events.filterMap HostEvent.supplied? = [] ∧
        play ⟨a.machine, a.fault, phase⟩ events = ⟨b.machine, b.fault, phase⟩ := by
  induction fuel generalizing a with
  | zero =>
    unfold Activity.run at h
    split at h
    · rename_i hover
      cases h
      exact ⟨hover, [], rfl, rfl⟩
    · cases h
  | succ fuel ih =>
    unfold Activity.run at h
    split at h
    · rename_i hover
      cases h
      exact ⟨hover, [], rfl, rfl⟩
    · rename_i hover
      obtain ⟨hover', events, hkept, hplay⟩ := ih h
      refine ⟨hover', .tick :: events, hkept, ?_⟩
      have hframes : ¬ a.machine.frames.isEmpty = true := by
        intro hempty
        exact hover (by rw [Activity.isOver, hempty, Bool.true_or])
      have htick : tick ⟨a.machine, a.fault, phase⟩ = ⟨a.step.machine, a.step.fault, phase⟩ := by
        rw [tick_of_ne_idle hphase, if_neg hframes]
        rfl
      rw [← hplay, ← htick]
      rfl

/-- Running the active calls to their end leads to what comes next, if they return. -/
theorem exists_play_of_finish {fuel : Nat} {e : Ending} (phase : Phase) (hphase : phase ≠ .idle)
    (h : m.finish fuel = some (.returned e)) :
    ∃ events t, events.filterMap HostEvent.supplied? = [] ∧
      play ⟨m, none, phase⟩ events = conclude t ∧ t.phase = phase ∧ t.ending = e := by
  obtain ⟨b, hrun, hb⟩ := Option.map_eq_some_iff.mp h
  obtain ⟨hover, events, hkept, hplay⟩ := exists_play_of_run hphase hrun
  obtain ⟨hreturned, hending⟩ :
      b.isCrashed = false ∧ ending ⟨b.machine, b.fault, phase⟩ = e := by
    obtain ⟨machine, fault⟩ := b
    cases fault with
    | none =>
      cases hb
      exact ⟨rfl, rfl⟩
    | some f =>
      obtain ⟨hcrash, rfl⟩ := Machine.Outcome.of_error_eq_returned hb
      exact ⟨hcrash, rfl⟩
  have hframes : b.machine.frames.isEmpty = true := by
    rw [Activity.isOver, hreturned, Bool.or_false] at hover
    exact hover
  refine ⟨events ++ [.tick], ⟨b.machine, b.fault, phase⟩, ?_, ?_, rfl, hending⟩
  · rw [List.filterMap_append, hkept]
    rfl
  · rw [play_append, hplay]
    exact (tick_of_ne_idle hphase).trans (if_pos hframes)

/-- The entry method runs to its end. -/
theorem meets_of_running {fuel : Nat} {e : Ending} (h : m.finish fuel = some (.returned e)) :
    Meets ⟨m, none, .running⟩ (Machine.flushed e) := by
  obtain ⟨events, t, hkept, hplay, hphase, hending⟩ := exists_play_of_finish .running (by simp) h
  refine ⟨events, hkept, ?_⟩
  rw [hplay, conclude, hphase, ← hending]

/-- Once the instance of the top-level class is made, the entry method runs to its end. -/
theorem meets_of_enter {fuel : Nat} {e : Ending} (module : ModuleId) (object : HeapId)
    (h : (match Machine.entry module s.machine with
      | .error e m => some (.ofEnding (.error e m))
      | .ok method m => Machine.runEntry fuel module object method m) = some (.returned e)) :
    (s.enter module object).Meets e := by
  unfold enter
  cases hentry : Machine.entry module s.machine with
  | error f m₁ =>
    rw [hentry] at h
    obtain ⟨-, rfl⟩ := Machine.Outcome.of_error_eq_returned (Option.some.inj h)
    exact meets_ended _
  | ok method m₁ =>
    rw [hentry] at h
    dsimp only [Machine.runEntry] at h ⊢
    cases hcall : MachineM.callBare module method object .proceed m₁ with
    | error f m₂ =>
      rw [hcall] at h
      obtain ⟨e', he', rfl⟩ := Machine.Outcome.of_flushed_eq_returned (Option.some.inj h)
      obtain ⟨-, rfl⟩ := Machine.Outcome.of_error_eq_returned he'
      exact meets_ended _
    | ok _ m₂ =>
      rw [hcall] at h
      obtain ⟨outcome, hfinish, hflushed⟩ := Option.map_eq_some_iff.mp h
      obtain ⟨e', rfl, rfl⟩ := Machine.Outcome.of_flushed_eq_returned hflushed
      exact meets_of_running hfinish

/-- A session meets the ending of a program that was started and returns. -/
theorem meets_of_start {fuel : Nat} {e : Ending} (hphase : s.phase = .idle)
    (h : s.machine.start fuel = some (.returned e)) : s.Meets e := by
  apply meets_of_play [.start] rfl
  change (s.act .start).Meets e
  simp only [act, hphase]
  unfold Machine.start at h
  cases hprepare : Machine.prepare s.machine with
  | error f m₁ =>
    rw [hprepare] at h
    obtain ⟨-, rfl⟩ := Machine.Outcome.of_error_eq_returned (Option.some.inj h)
    exact meets_ended _
  | ok made m₁ =>
    obtain ⟨module, object⟩ := made
    rw [hprepare] at h
    obtain ⟨outcome, hfinish, hrest⟩ := Option.bind_eq_some_iff.mp h
    cases outcome with
    | crashed cause m₂ => cases hrest
    | returned e₁ =>
      obtain ⟨events, t, hkept, hplay, hmaking, hending⟩ :=
        exists_play_of_finish (.making module object) (by simp) hfinish
      apply meets_of_play events hkept
      dsimp only
      rw [hplay]
      -- A fault while the instance was made ends the operation; otherwise the entry method begins.
      obtain ⟨machine, fault, phase⟩ := t
      obtain rfl : phase = .making module object := hmaking
      cases fault with
      | some f =>
        obtain rfl : EStateM.Result.error f machine = e₁ := hending
        cases hrest
        exact meets_ended (.error f machine)
      | none =>
        obtain rfl : EStateM.Result.ok () machine = e₁ := hending
        exact meets_of_enter module object hrest

/-- A session meets the ending of a program that was loaded and started and returns. -/
theorem meets_of_run {fuel : Nat} {bytes : List UInt8} {e : Ending} (hphase : s.phase = .idle)
    (h : s.machine.run fuel bytes = some (.returned e)) : s.Meets e := by
  apply meets_of_play [.load bytes] rfl
  change (s.act (.load bytes)).Meets e
  simp only [act, hphase]
  unfold Machine.run at h
  cases hload : Machine.load bytes s.machine with
  | error f m₁ =>
    rw [hload] at h
    obtain ⟨-, rfl⟩ := Machine.Outcome.of_error_eq_returned (Option.some.inj h)
    exact meets_ended _
  | ok id m₁ =>
    rw [hload] at h
    exact meets_of_start rfl h

end Session

end SlotMachine
