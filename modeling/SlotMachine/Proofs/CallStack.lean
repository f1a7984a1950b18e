import SlotMachine.CommandLine
import SlotMachine.Proofs.Machine.Returns
import SlotMachine.Proofs.Session
import Mathlib.Tactic.Common

/-!
# The stack of calls

A call that returns leaves the frames as it found them. In every session that begins without frames
there are at most as many calls as the settings allow, all of functions that the registry provides,
no call leaves its code, and between the operations of the host there are none. Since the machine
steps only while there are frames, it never faults for want of one.
-/

namespace SlotMachine

open SlotMachine.Action Fault

namespace Machine

variable {m₀ m : Machine}

/-- Loading a program touches no frame. -/
theorem quiet_load (hm : m₀.Stays m) (bytes : List UInt8) :
    MachineM.Quiet m₀ (load bytes) m := by
  have hdecode : Ends (MachineM.ask fun _ => Image.decode bytes) m
      (fun image m' => m₀.Stays m' ∧ image.Legible) m₀.Fails := by
    unfold Ends MachineM.ask
    cases hresult : Image.decode bytes with
    | ok image => exact ⟨hm, Image.legible_of_decode hresult⟩
    | error e => exact ⟨hm, .inl (.inr (.inl (Image.raises_decode bytes e hresult)))⟩
  apply hdecode.bind
  rintro image m₁ ⟨hm₁, himage⟩
  apply (MachineM.ends_onLinkage hm₁ (LinkM.heeds_install none himage)).bind
  rintro id m₂ ⟨hm₂, -⟩
  have hnote : MachineM.Quiet m₀ (modify fun m => { m with program := some id }) m₂ :=
    ends_modify ⟨⟨hm₂.natives, hm₂.settings, hm₂.fetch, hm₂.provides⟩, hm₂.frames⟩
  apply hnote.bind
  intro _ m₃ hm₃
  exact MachineM.quiet_pure hm₃ id

/-- To make the instance of the program's top-level class, at most one call is begun. -/
theorem ends_prepare (hm : m₀.Stays m) :
    Ends prepare m (fun _ m' => m₀.Stays m' ∨ m₀.EntersSome m') m₀.Fails := by
  unfold prepare
  apply ends_get_bind
  split
  · exact MachineM.ends_fault hm rfl
  · rename_i module _
    apply (MachineM.led_topInstance hm module .proceed).bind
    rintro ⟨object, flow⟩ m₁ hm₁
    apply ends_pure
    exact hm₁.imp_right And.right

/-- Finding the method with which the program starts, which is provided. -/
theorem ends_entry (hm : m₀.Stays m) (module : ModuleId) :
    Ends (entry module) m (fun method m' => m₀.Stays m' ∧ m₀.registry.Provides method)
      m₀.Fails := by
  unfold entry
  apply (MachineM.ends_classLookup hm (LinkM.heeds_topClass module)).bind
  rintro cls m₁ ⟨hm₁, hcls⟩
  split
  · rename_i method hfound
    exact ends_pure ⟨hm₁, hcls.method hfound⟩
  · exact MachineM.ends_fault hm₁ rfl

end Machine

namespace Session

/-- The next step finds that the present instruction lacks operands, and raises the fault that says
so. -/
structure Miscounts (s : Session) (e : Fault) : Prop where
  /-- So far there is no fault. -/
  none_before : s.fault = none
  /-- It is about the instruction that comes next. -/
  about : ∃ i, s.machine.present? = some i ∧ i.Miscounts e
  /-- The next step raises it. -/
  raised : s.tick.fault = some e

/-- What holds of every state of a session that begins with a machine without frames, if all faults
that may arise with its native functions and sources of modules are of one kind. -/
structure Disciplined (m₀ : Machine) (kind : Fault → Prop) (s : Session) : Prop where
  /-- The native functions stay. -/
  natives : s.machine.natives = m₀.natives
  /-- The settings stay. -/
  settings : s.machine.settings = m₀.settings
  /-- Functions come from where they came from. -/
  provides : ∀ {f : Function}, s.machine.registry.Provides f → m₀.registry.Provides f
  /-- The frames are in order. -/
  frames : Orderly m₀.settings.maxCallDepth s.machine.frames
  /-- The calls are of functions that were provided. -/
  callable : ∀ f ∈ s.machine.frames, m₀.registry.Provides f.function
  /-- Between operations there are none. -/
  idle : s.phase = .idle → s.machine.frames = []
  /-- Faults of native functions are of the kind. -/
  kind_of_native : ∀ {e : Fault}, m₀.natives.Raises e → kind e
  /-- So are the other faults that may arise. -/
  kind_of_arises : ∀ {e : Fault}, e.Arises s.machine.registry.source.fetch → kind e
  /-- So is the fault with which an operation ends. -/
  kind_of_fault : ∀ {e : Fault}, s.fault = some e → kind e

variable {m₀ m' : Machine} {kind : Fault → Prop} {s : Session}

/-- Flushing leaves an ending as it is, unless the sink refuses. -/
theorem flushed_cases (ending : Ending) : Machine.flushed ending = ending ∨
    ∃ reason, Machine.flushed ending = .error (Sink.refused reason) (ended ending).machine := by
  have hflush : ∀ sink : Sink, sink.flush = .ok () ∨
      ∃ reason, sink.flush = .error (Sink.refused reason) := by
    intro sink
    unfold Sink.flush
    cases sink.flushRefusal with
    | none => exact .inl rfl
    | some reason => exact .inr ⟨reason, rfl⟩
  unfold Machine.flushed
  cases ending with
  | ok _ m =>
    rcases hflush m.sink with hsink | ⟨reason, hsink⟩
    · exact .inl (by simp only [hsink])
    · exact .inr ⟨reason, by simp only [hsink]; rfl⟩
  | error e m =>
    rcases hflush m.sink with hsink | ⟨reason, hsink⟩
    · exact .inl (by simp only [hsink])
    · exact .inr ⟨reason, by simp only [hsink]; rfl⟩

namespace Disciplined

/-- A fault that may arise is of the kind. -/
theorem kind_of_mayRaise (hs : s.Disciplined m₀ kind) {e : Fault} (h : s.machine.MayRaise e) :
    kind e := by
  rcases h with harises | hnative
  · exact hs.kind_of_arises harises
  · rw [hs.natives] at hnative
    exact hs.kind_of_native hnative

/-- An operation that has ended without touching the frames, of which there were none. -/
theorem ended (hs : s.Disciplined m₀ kind) (hempty : s.machine.frames = []) {ending : Ending}
    (hstays : s.machine.Stays (Session.ended ending).machine)
    (hfault : ∀ {e : Fault}, (Session.ended ending).fault = some e → kind e) :
    (Session.ended ending).Disciplined m₀ kind where
  natives := hstays.natives.trans hs.natives
  settings := hstays.settings.trans hs.settings
  provides hf := hs.provides (hstays.provides hf)
  frames := by
    rw [hstays.frames, hempty]
    exact .nil _
  callable := by
    rw [hstays.frames]
    exact hs.callable
  idle _ := hstays.frames.trans hempty
  kind_of_native := hs.kind_of_native
  kind_of_arises := by
    rw [hstays.fetch]
    exact hs.kind_of_arises
  kind_of_fault := hfault

/-- An operation that ends with a fault of the machine. -/
theorem ended_error (hs : s.Disciplined m₀ kind) (hempty : s.machine.frames = []) {e : Fault}
    (h : s.machine.Fails e m') : (Session.ended (.error e m')).Disciplined m₀ kind := by
  have hstays : s.machine.Stays (Session.ended (.error e m')).machine := h.stays
  apply hs.ended hempty hstays
  rintro e' ⟨⟩
  exact hs.kind_of_mayRaise h.raised

/-- Flushing the sink at the end of an operation. -/
theorem flushed {ending : Ending} (h : (Session.ended ending).Disciplined m₀ kind) :
    (Session.ended (Machine.flushed ending)).Disciplined m₀ kind := by
  rcases flushed_cases ending with hsame | ⟨reason, hrefused⟩
  · rw [hsame]
    exact h
  · rw [hrefused]
    have hidle : (Session.ended ending).phase = .idle := by cases ending <;> rfl
    refine ⟨h.natives, h.settings, h.provides, h.frames, h.callable, fun _ => h.idle hidle,
      h.kind_of_native, h.kind_of_arises, ?_⟩
    rintro e ⟨⟩
    exact h.kind_of_arises (.inr (.inl rfl))

/-- A call is begun where there were no frames, or nothing was to be called. -/
theorem begun (hs : s.Disciplined m₀ kind) (hempty : s.machine.frames = []) {phase : Phase}
    (hphase : phase ≠ .idle) (h : s.machine.Stays m' ∨ s.machine.EntersSome m') :
    Disciplined m₀ kind ⟨m', none, phase⟩ := by
  have hstage : s.machine.OnStage m' := by
    rcases h with hstays | ⟨callee, -, -, henters⟩
    · exact hstays.toOnStage
    · exact henters.toOnStage
  have hframes : Orderly m₀.settings.maxCallDepth m'.frames := by
    rcases h with hstays | ⟨callee, hip, -, henters⟩
    · rw [hstays.frames, hempty]
      exact .nil _
    · have hroom := henters.room
      rw [Machine.depth, hempty, hs.settings] at hroom
      rw [henters.frames, hempty]
      exact .cons hroom (hip ▸ Nat.zero_le _) (List.forall_mem_nil _)
  have hcallable : ∀ f ∈ m'.frames, m₀.registry.Provides f.function := by
    rcases h with hstays | ⟨callee, -, hcallee, henters⟩
    · rw [hstays.frames]
      exact hs.callable
    · rw [henters.frames, hempty]
      intro f hf
      obtain rfl := List.mem_singleton.mp hf
      exact hs.provides hcallee
  refine ⟨hstage.natives.trans hs.natives, hstage.settings.trans hs.settings,
    fun hf => hs.provides (hstage.provides hf), hframes, hcallable,
    fun hidle => absurd hidle hphase, hs.kind_of_native, ?_, ?_⟩
  · dsimp only
    rw [hstage.fetch]
    exact hs.kind_of_arises
  · intro e he
    cases he

/-- Beginning the entry method. -/
theorem enter (hs : s.Disciplined m₀ kind) (hempty : s.machine.frames = []) (module : ModuleId)
    (object : HeapId) : (s.enter module object).Disciplined m₀ kind := by
  have hentry := Machine.ends_entry (Machine.Stays.refl s.machine) module
  unfold Session.enter
  cases hresult : Machine.entry module s.machine with
  | error e m₁ => exact hs.ended_error hempty (hentry.of_error hresult)
  | ok method m₁ =>
    obtain ⟨hstays, hmethod⟩ := hentry.of_ok hresult
    have hcall := MachineM.enters_callBare hstays hmethod module object .proceed
    dsimp only
    cases hcalled : MachineM.callBare module method object .proceed m₁ with
    | error e m₂ => exact (hs.ended_error hempty (hcall.of_error hcalled)).flushed
    | ok _ m₂ => exact hs.begun hempty (by simp) (.inr (hcall.of_ok hcalled))

/-- What comes next in starting a program once no frame is left. -/
theorem conclude (hs : s.Disciplined m₀ kind) (hempty : s.machine.frames = []) :
    s.conclude.Disciplined m₀ kind := by
  have hended : (Session.ended s.ending).Disciplined m₀ kind := by
    apply hs.ended hempty
    · rw [machine_ended_ending]
      exact Machine.Stays.refl s.machine
    · intro e he
      apply hs.kind_of_fault
      obtain ⟨machine, fault, phase⟩ := s
      cases fault <;> exact he
  unfold Session.conclude
  split
  · exact hs.enter hempty _ _
  · exact hended
  · exact hended.flushed
  · exact hs

/-- The functions of the frames after a step are those of the frames before, or are provided. -/
theorem callable_turn (hs : s.Disciplined m₀ kind) {limit : Nat} {fault : Option Fault}
    {frames' : List Frame}
    (hturn : Turn limit s.machine.registry.Provides s.machine.frames fault frames') :
    ∀ f ∈ frames', m₀.registry.Provides f.function := by
  have hcallable := hs.callable
  generalize s.machine.frames = frames at hturn hcallable
  cases hturn with
  | @goesOn f others ip _ _ =>
    have hhead := hcallable f List.mem_cons_self
    exact List.forall_mem_cons.mpr ⟨hhead, (List.forall_mem_cons.mp hcallable).2⟩
  | enters _ _ _ hcallee => exact List.forall_mem_cons.mpr ⟨hs.provides hcallee, hcallable⟩
  | @leaves f others _ =>
    have hothers := (List.forall_mem_cons.mp hcallable).2
    cases others with
    | nil => exact hothers
    | cons caller outer =>
      obtain ⟨hcaller, houter⟩ := List.forall_mem_cons.mp hothers
      exact List.forall_mem_cons.mpr ⟨hcaller, houter⟩
  | stays _ => exact hcallable
  | drops _ => exact (List.forall_mem_cons.mp hcallable).2

/-- One step of the machine, if the fault that the present instruction lacks operands is of the
kind. -/
theorem advance (hs : s.Disciplined m₀ kind) (hframes : s.machine.frames ≠ [])
    (hphase : s.phase ≠ .idle) (hmiscounts : ∀ {e : Fault}, s.Miscounts e → kind e) :
    s.advance.Disciplined m₀ kind := by
  have htick : s.tick = s.advance := by
    rw [tick_of_ne_idle hphase, if_neg fun hempty => hframes (List.isEmpty_iff.mp hempty)]
  obtain ⟨m, fault, phase⟩ := s
  cases fault with
  | some e =>
    cases hcrash : e.isCrash with
    | true =>
      rw [Session.advance, Activity.step_of_crash hcrash]
      exact hs
    | false =>
      rw [Session.advance, Activity.step_of_fault hcrash]
      exact ⟨hs.natives, hs.settings, hs.provides, hs.frames.tail,
        fun f hf => hs.callable f (List.mem_of_mem_tail hf), fun hidle => absurd hidle hphase,
        hs.kind_of_native, hs.kind_of_arises, hs.kind_of_fault⟩
  | none =>
    have hturns := Activity.turns_step hframes
    have hturn := hturns.turn
    have hcallable := hs.callable_turn hturn
    rw [hs.settings] at hturn
    refine ⟨hturns.natives.trans hs.natives, hturns.settings.trans hs.settings,
      fun hf => hs.provides (hturns.provides hf), hs.frames.turn hturn, hcallable,
      fun hidle => absurd hidle hphase, hs.kind_of_native, ?_, ?_⟩
    · intro e he
      apply hs.kind_of_arises
      rw [← hturns.fetch]
      exact he
    · intro e he
      rcases hturns.raised e he with hmay | habout
      · exact hs.kind_of_mayRaise hmay
      · exact hmiscounts ⟨rfl, habout, htick ▸ he⟩

/-- A program that was started goes on. -/
theorem tick (hs : s.Disciplined m₀ kind) (hmiscounts : ∀ {e : Fault}, s.Miscounts e → kind e) :
    s.tick.Disciplined m₀ kind := by
  by_cases hphase : s.phase = .idle
  · simp only [Session.tick, hphase]
    exact hs
  · rw [tick_of_ne_idle hphase]
    split
    · rename_i hempty
      exact hs.conclude (List.isEmpty_iff.mp hempty)
    · rename_i hframes
      exact hs.advance (fun hempty => hframes (List.isEmpty_iff.mpr hempty)) hphase hmiscounts

/-- After an event the frames are in order, and the fault is of the kind if the faults that may arise
with a new source are, and if the one is that says that the present instruction lacks operands. -/
theorem act (hs : s.Disciplined m₀ kind) (event : HostEvent)
    (hevent : ∀ fetch, event.supplied? = some fetch → ∀ {e : Fault}, e.Arises fetch → kind e)
    (hmiscounts : event = .tick → ∀ {e : Fault}, s.Miscounts e → kind e) :
    (s.act event).Disciplined m₀ kind := by
  cases event with
  | load bytes =>
    simp only [Session.act]
    split
    · rename_i hidle
      have hempty := hs.idle hidle
      have hload := Machine.quiet_load (Machine.Stays.refl s.machine) bytes
      cases hresult : Machine.load bytes s.machine with
      | ok id m₁ =>
        apply hs.ended hempty (hload.of_ok hresult)
        intro e he
        cases he
      | error e m₁ => exact hs.ended_error hempty (hload.of_error hresult)
    · exact hs
  | start =>
    simp only [Session.act]
    split
    · rename_i hidle
      have hempty := hs.idle hidle
      have hprepare := Machine.ends_prepare (Machine.Stays.refl s.machine)
      cases hresult : Machine.prepare s.machine with
      | ok made m₁ => exact hs.begun hempty (by simp) (hprepare.of_ok hresult)
      | error e m₁ => exact hs.ended_error hempty (hprepare.of_error hresult)
    · exact hs
  | tick => exact hs.tick (hmiscounts rfl)
  | supply fetch =>
    exact ⟨hs.natives, hs.settings, hs.provides, hs.frames, hs.callable, hs.idle,
      hs.kind_of_native, hevent fetch rfl, hs.kind_of_fault⟩

/-- After any events the frames are in order and the fault is of the kind. -/
theorem play (hs : s.Disciplined m₀ kind) (events : List HostEvent)
    (hevents : ∀ fetch ∈ events.filterMap HostEvent.supplied?, ∀ {e : Fault}, e.Arises fetch →
      kind e)
    (hmiscounts : ∀ earlier later, events = earlier ++ .tick :: later →
      ∀ {e : Fault}, (s.play earlier).Miscounts e → kind e) :
    (s.play events).Disciplined m₀ kind := by
  induction events generalizing s with
  | nil => exact hs
  | cons event others ih =>
    have hact : (s.act event).Disciplined m₀ kind := by
      apply hs.act event
      · intro fetch hfetch
        exact hevents fetch (List.mem_filterMap.mpr ⟨event, List.mem_cons_self, hfetch⟩)
      · rintro rfl
        exact hmiscounts [] others rfl
    apply ih hact
    · intro fetch hfetch
      obtain ⟨later, hlater, hsupplied⟩ := List.mem_filterMap.mp hfetch
      exact hevents fetch
        (List.mem_filterMap.mpr ⟨later, List.mem_cons_of_mem event hlater, hsupplied⟩)
    · intro earlier later hothers
      exact hmiscounts (event :: earlier) later (congrArg (List.cons event) hothers)

end Disciplined

/-- The frames are as they should be in every state of a session. -/
structure InBounds (limit : Nat) (s : Session) : Prop where
  /-- There are at most as many calls as the limit says. -/
  depth : s.machine.depth ≤ limit
  /-- Every call is at an instruction or at the end of its code. -/
  inside : ∀ f ∈ s.machine.frames, f.ip ≤ f.function.code.size
  /-- Between operations there are none. -/
  idle : s.phase = .idle → s.machine.frames = []

/-- Disciplined sessions are in bounds. -/
theorem Disciplined.inBounds (hs : s.Disciplined m₀ kind) :
    s.InBounds m₀.settings.maxCallDepth :=
  ⟨hs.frames.depth, hs.frames.inside, hs.idle⟩

end Session

/-- A call that was begun with these frames comes back to them. -/
structure Activity.ReturnsTo (below : List Frame) (resume : Resume) (begun : Activity) : Prop where
  /-- If it returns, well or with a fault, the frames are the same again. -/
  frames_eq : ∀ {fuel : Nat} {ending : Ending},
    begun.untilReturn below.length fuel = some ending → (ofEnding ending).machine.frames = below
  /-- The machine's own steps lead to what the caller makes of it. -/
  resumes : ∀ {fuel : Nat} {ending : Ending},
    begun.untilReturn below.length fuel = some ending →
      ∃ n, Activity.step^[n] begun = resumed resume ending
  /-- It does return if the machine's steps ever bring it back to that many frames. -/
  returns : ∀ {n : Nat}, (Activity.step^[n] begun).machine.depth ≤ below.length →
    ∃ fuel ending, begun.untilReturn below.length fuel = some ending

/-- The source itself never answers that a frame is missing. -/
def Source.NeverUnderflows (fetch : String → Except Fault (List UInt8)) : Prop :=
  ∀ file, fetch file ≠ .error .stackUnderflow

/-- With such a source no fault that may arise is that one. -/
theorem Source.NeverUnderflows.ne {fetch : String → Except Fault (List UInt8)}
    (h : NeverUnderflows fetch) {e : Fault} (he : e.Arises fetch) : e ≠ .stackUnderflow := by
  rintro rfl
  rcases he with (hrun | hcrash) | hload | ⟨file, hfile⟩
  · cases hrun
  · cases hcrash
  · cases hload
  · exact h file hfile

/-- The source fails only for a reason outside the machine. -/
def Source.FailsOutside (fetch : String → Except Fault (List UInt8)) : Prop :=
  ∀ file e, fetch file = .error e → ∃ path reason, e = .io path reason

/-- Files held in memory are such a source. -/
theorem Source.failsOutside_ofFiles (files : List (String × List UInt8)) :
    FailsOutside (ofFiles files).fetch := by
  have hfold : ∀ s : Source, FailsOutside s.fetch →
      FailsOutside (files.foldl (fun s entry => s.insert entry.1 entry.2) s).fetch := by
    induction files with
    | nil => exact fun _ hs => hs
    | cons entry others ih =>
      intro s hs
      apply ih
      intro file e h
      unfold insert at h
      dsimp only at h
      split at h
      · cases h
      · exact hs file e h
  apply hfold empty
  intro file e h
  exact ⟨file, _, (Except.error.inj h).symm⟩

/-- So are the files of a directory. -/
theorem Source.failsOutside_directory (read : CommandLine.Reader) (dir : String) :
    FailsOutside (CommandLine.directorySource read dir).fetch := by
  intro file e h
  unfold CommandLine.directorySource at h
  dsimp only at h
  split at h
  · cases h
  · exact ⟨_, _, (Except.error.inj h).symm⟩

/-- Such a source never answers that a frame is missing. -/
theorem Source.FailsOutside.neverUnderflows {fetch : String → Except Fault (List UInt8)}
    (h : FailsOutside fetch) : NeverUnderflows fetch := by
  intro file hfile
  obtain ⟨path, reason, hio⟩ := h file _ hfile
  cases hio

theorem Source.neverUnderflows_ofFiles (files : List (String × List UInt8)) :
    NeverUnderflows (ofFiles files).fetch :=
  (failsOutside_ofFiles files).neverUnderflows

theorem Source.neverUnderflows_directory (read : CommandLine.Reader) (dir : String) :
    NeverUnderflows (CommandLine.directorySource read dir).fetch :=
  (failsOutside_directory read dir).neverUnderflows

namespace Machine

variable {m : Machine}

/-- A machine that the host has not used yet, or has finished using. -/
def atRest (m : Machine) : Session := ⟨m, none, .idle⟩

/-- What the sources of modules hold in the course of a session. -/
def sources (m : Machine) (events : List HostEvent) : List (String → Except Fault (List UInt8)) :=
  m.registry.source.fetch :: events.filterMap HostEvent.supplied?

/-- A session that begins without frames. -/
theorem disciplined_play (hframes : m.frames = []) {kind : Fault → Prop} {events : List HostEvent}
    (hnatives : ∀ {e : Fault}, m.natives.Raises e → kind e)
    (hsources : ∀ fetch ∈ m.sources events, ∀ {e : Fault}, e.Arises fetch → kind e)
    (hmiscounts : ∀ earlier later, events = earlier ++ .tick :: later →
      ∀ {e : Fault}, (m.atRest.play earlier).Miscounts e → kind e) :
    (m.atRest.play events).Disciplined m kind := by
  have hempty : m.atRest.machine.frames = [] := hframes
  have hfirst : m.atRest.Disciplined m kind := by
    refine ⟨rfl, rfl, id, ?_, ?_, fun _ => hframes, hnatives, hsources _ List.mem_cons_self, nofun⟩
    · rw [hempty]
      exact .nil _
    · rw [hempty]
      exact nofun
  apply hfirst.play _ _ hmiscounts
  exact fun fetch hfetch => hsources fetch (List.mem_cons_of_mem _ hfetch)

/-- A session that begins without frames keeps within its bounds. -/
theorem inBounds_play (hframes : m.frames = []) (events : List HostEvent) :
    (m.atRest.play events).InBounds m.settings.maxCallDepth := by
  have hs : (m.atRest.play events).Disciplined m fun _ => True :=
    disciplined_play hframes (fun _ => trivial) (fun _ _ _ _ => trivial) fun _ _ _ _ _ => trivial
  exact hs.inBounds

/-- A session that begins without frames does not fault for want of one. -/
theorem fault_play_ne (hframes : m.frames = []) (hstandard : m.natives = NativeTable.standard)
    {events : List HostEvent} (hsources : ∀ fetch ∈ m.sources events, Source.NeverUnderflows fetch) :
    (m.atRest.play events).fault ≠ some .stackUnderflow := by
  intro hfault
  have hs : (m.atRest.play events).Disciplined m (· ≠ .stackUnderflow) := by
    apply disciplined_play hframes
    · rintro e he rfl
      rw [hstandard] at he
      rcases NativeTable.runOrRefused_of_standard he with (hrun | hcrash) | ⟨reason, hrefused⟩
      · cases hrun
      · cases hcrash
      · cases hrefused
    · exact fun fetch hfetch _ he => (hsources fetch hfetch).ne he
    · rintro earlier later - e ⟨-, ⟨i, -, hi⟩, -⟩ rfl
      rcases hi.eq_wrongCount with ⟨expected, hexpected⟩ | hcrash
      · cases hexpected
      · cases hcrash
  exact hs.kind_of_fault hfault rfl

/-- What programs return are states of sessions. -/
theorem meets_of_started {fuel : Nat} {bytes : List UInt8} {ending : Ending}
    (h : m.start fuel = some (.returned ending) ∨ m.run fuel bytes = some (.returned ending)) :
    m.atRest.Meets ending := by
  have hidle : m.atRest.phase = .idle := rfl
  rcases h with hstart | hrun
  · exact Session.meets_of_start hidle hstart
  · exact Session.meets_of_run hidle hrun

/-- The stack of calls is kept in order. Every call that returns leaves the frames exactly as they
were. In every state of a session that begins without frames there are at most as many calls as the
settings allow and no call has left its code; and nothing ends with the fault that a frame is
missing, unless the host's own source of modules gives that answer. -/
theorem calls_return_and_sessions_stay_inBounds (m : Machine) :
    (∀ (module : ModuleId) (function : Function) (receiver : Option HeapId) (args : List Slot)
        (resume : Resume),
      (Activity.ofEnding (MachineM.call module function receiver args resume m)).ReturnsTo
        m.frames resume) ∧
    (m.frames = [] → ∀ events : List HostEvent,
      (m.atRest.play events).InBounds m.settings.maxCallDepth ∧
      (m.natives = NativeTable.standard →
        (∀ fetch ∈ m.sources events, Source.NeverUnderflows fetch) →
          (m.atRest.play events).fault ≠ some .stackUnderflow)) ∧
    (m.frames = [] → ∀ (fuel : Nat) (bytes : List UInt8) (ending : Ending),
      m.start fuel = some (.returned ending) ∨ m.run fuel bytes = some (.returned ending) →
        (Session.ended ending).machine.frames = [] ∧
        (m.natives = NativeTable.standard →
          Source.NeverUnderflows m.registry.source.fetch →
            (Session.ended ending).fault ≠ some .stackUnderflow)) := by
  refine ⟨?_, ?_, ?_⟩
  · intro module function receiver args resume
    have hwithin := Activity.within_call m module function receiver args resume
    constructor
    · exact fun hreturn => (hwithin.of_untilReturn hreturn).1
    · exact fun hreturn => (hwithin.of_untilReturn hreturn).2
    · exact hwithin.exists_untilReturn
  · intro hframes events
    refine ⟨inBounds_play hframes events, ?_⟩
    exact fun hstandard hsources => fault_play_ne hframes hstandard hsources
  · intro hframes fuel bytes ending hstarted
    obtain ⟨events, hkept, hplay⟩ := meets_of_started hstarted
    have hidle : (Session.ended ending).phase = .idle := by cases ending <;> rfl
    rw [← hplay] at hidle ⊢
    refine ⟨(inBounds_play hframes events).idle hidle, ?_⟩
    intro hstandard hsource
    apply fault_play_ne hframes hstandard
    intro fetch hfetch
    rw [sources, hkept] at hfetch
    obtain rfl := List.mem_singleton.mp hfetch
    exact hsource

/-- A function that calls itself without end. -/
def dive : Function := ⟨"dive", false, [4], #[⟨.loadConst, [3, 0]⟩, .invoke 3 [4]]⟩

/-- A program that calls it. -/
def diving : Image where
  constants := #[.text "dive"]
  heap := [[Tag.untyped], [Tag.untyped], [Tag.untyped], [Tag.untyped], [Tag.untyped]]
  classes := [⟨Image.topClass, [], [⟨Image.entryMethod, false, [], dive.code⟩, dive]⟩]

/-- A machine that allows two calls at once. -/
def shallow : Machine :=
  create ⟨".", 2, 100⟩ (Source.ofFiles [("deep.aqbyte", diving.encode)]) Sink.empty
    NativeTable.standard

/-- Loading and starting the program, up to the state in which a third call would begin. -/
def upToTheLimit : List HostEvent :=
  [.load diving.encode, .start, .tick, .tick, .tick, .tick]

/-- The program reaches the limit, and no further. The call that its entry method is about to begin
midway ends with the fault that the limit is exceeded, and when the fault has left the call, the entry
method's frame is as it was. -/
theorem inBounds_diving :
    let midway := (shallow.atRest.play (upToTheLimit.take 4)).machine
    shallow.frames = [] ∧ shallow.natives = NativeTable.standard ∧
      (∀ fetch ∈ shallow.sources upToTheLimit, Source.NeverUnderflows fetch) ∧
      (shallow.atRest.play upToTheLimit).machine.depth = 2 ∧
      (shallow.atRest.play upToTheLimit).InBounds 2 ∧
      (shallow.atRest.play upToTheLimit).fault ≠ some .stackUnderflow ∧
      ∃ ending, (Activity.ofEnding (MachineM.call 0 dive none [⟨1, 4⟩] .proceed midway)).untilReturn
          midway.frames.length 3 = some ending ∧
        (Activity.ofEnding ending).fault = some (.callDepthExceeded 2) ∧
        (Activity.ofEnding ending).machine.frames = midway.frames := by
  intro midway
  have hsources : ∀ fetch ∈ shallow.sources upToTheLimit, Source.NeverUnderflows fetch := by
    intro fetch hfetch
    obtain rfl := List.mem_singleton.mp hfetch
    exact Source.neverUnderflows_ofFiles _
  have hdepth : (shallow.atRest.play upToTheLimit).machine.depth = 2 := by decide +kernel
  have hreturn : ((Activity.ofEnding (MachineM.call 0 dive none [⟨1, 4⟩] .proceed
      midway)).untilReturn midway.frames.length 3).map (fun ending =>
        (Activity.ofEnding ending).fault) = some (some (.callDepthExceeded 2)) := by
    decide +kernel
  obtain ⟨ending, hending, hfault⟩ := Option.map_eq_some_iff.mp hreturn
  obtain ⟨-, hsession, -⟩ := calls_return_and_sessions_stay_inBounds shallow
  obtain ⟨hbounds, hne⟩ := hsession rfl upToTheLimit
  obtain ⟨hcalls, -, -⟩ := calls_return_and_sessions_stay_inBounds midway
  exact ⟨rfl, rfl, hsources, hdepth, hbounds, hne rfl hsources, ending, hending, hfault,
    (hcalls 0 dive none [⟨1, 4⟩] .proceed).frames_eq hending⟩

end Machine

end SlotMachine
