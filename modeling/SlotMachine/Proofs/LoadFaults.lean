import SlotMachine.Proofs.Machine.Causes
import SlotMachine.Proofs.Session
import Mathlib.Tactic.Common

/-!
# Load faults of a program at work

Decoding a module fails with load faults only. When a program that was started ends with a load
fault, a file was asked for meanwhile that could not be read or decoded, or the sink refused: its
refusals are counted among the load faults, although no module is concerned. This is so however the
sink changes its mind while the program runs.
-/

namespace SlotMachine

open SlotMachine.Action

variable {c : Surroundings}

/-- The machine has been at work in these surroundings, and the fault on its way out can be
explained if it is one of loading. -/
structure Activity.Explained (c : Surroundings) (a : Activity) : Prop where
  /-- The machine stands in the surroundings. -/
  amid : a.machine.Amid c
  /-- They explain the fault. -/
  explains : ∀ e, a.fault = some e → c.Explains e a.machine

namespace Activity

variable {m : Machine}

theorem explained_none (hm : m.Amid c) : Explained c ⟨m, none⟩ :=
  ⟨hm, nofun⟩

theorem explained_some {e : Fault} (hm : m.Amid c) (he : c.Explains e m) :
    Explained c ⟨m, some e⟩ := by
  refine ⟨hm, ?_⟩
  rintro _ ⟨⟩
  exact he

/-- A step in these surroundings. -/
theorem explained_step {a : Activity} (ha : a.Explained c) : a.step.Explained c := by
  obtain ⟨machine, fault⟩ := a
  cases fault with
  | some e =>
    obtain ⟨frames, -, hstep⟩ := step_some machine e
    rw [hstep]
    exact explained_some (ha.amid.of_eq rfl rfl rfl) (ha.explains e rfl)
  | none =>
    have hstep := MachineM.explained_step machine ha.amid
    unfold step
    dsimp only
    cases hresult : MachineM.step machine with
    | ok _ m' => exact explained_none (hstep.of_ok hresult)
    | error e m' =>
      obtain ⟨hm', he⟩ := hstep.of_error hresult
      exact explained_some hm' he

/-- A run in these surroundings. -/
theorem explained_run {fuel : Nat} {a b : Activity} (ha : a.Explained c)
    (h : run fuel a = some b) : b.Explained c := by
  induction fuel generalizing a with
  | zero =>
    unfold run at h
    split at h <;> cases h
    exact ha
  | succ fuel ih =>
    unfold run at h
    split at h
    · cases h
      exact ha
    · exact ih (explained_step ha) h

end Activity

/-- In these surroundings an operation may end like this. -/
def Surroundings.Allows (c : Surroundings) : Ending → Prop
  | .ok () m => m.Amid c
  | .error e m => m.Amid c ∧ c.Explains e m

/-- In these surroundings this may come of an operation. -/
def Surroundings.Permits (c : Surroundings) : Machine.Outcome → Prop
  | .returned ending => c.Allows ending
  | .crashed _ m => m.Amid c

namespace Machine

variable {m : Machine} {fuel : Nat} {ending : Ending} {outcome : Outcome}

theorem permits_ofEnding (h : c.Allows ending) : c.Permits (.ofEnding ending) := by
  unfold Outcome.ofEnding
  split
  · exact h.1
  · exact h

theorem permits_finish (hm : m.Amid c) (h : m.finish fuel = some outcome) : c.Permits outcome := by
  obtain ⟨⟨m', fault⟩, hrun, rfl⟩ := Option.map_eq_some_iff.mp h
  have hb := Activity.explained_run (Activity.explained_none hm) hrun
  cases fault with
  | none => exact hb.amid
  | some e =>
    have hended : c.Allows (.error e m') := ⟨hb.amid, hb.explains e rfl⟩
    exact permits_ofEnding hended

/-- If flushing fails, it is because the sink refuses. -/
theorem allows_flushed (h : c.Allows ending) : c.Allows (flushed ending) := by
  have hrefused : ∀ {m : Machine} {e : Fault}, m.Amid c → m.sink.flush = .error e →
      c.Allows (.error e m) := by
    intro m e hm hflush
    exact ⟨hm, fun _ => .inr (hm.sink e (Sink.refuses_of_flush hflush))⟩
  unfold flushed
  cases ending with
  | ok _ m =>
    dsimp only
    cases hflush : m.sink.flush with
    | ok _ => exact h
    | error e => exact hrefused h hflush
  | error fault m =>
    dsimp only
    cases hflush : m.sink.flush with
    | ok _ => exact h
    | error e => exact hrefused h.1 hflush

theorem permits_flushed (h : c.Permits outcome) : c.Permits outcome.flushed := by
  cases outcome with
  | returned ending => exact allows_flushed h
  | crashed cause m => exact h

theorem permits_runEntry {module : ModuleId} {object : HeapId} {method : Function} (hm : m.Amid c)
    (h : runEntry fuel module object method m = some outcome) : c.Permits outcome := by
  have hcall := MachineM.explained_callBare module method object .proceed m hm
  unfold runEntry at h
  cases hresult : MachineM.callBare module method object .proceed m with
  | error e m' =>
    rw [hresult] at h
    cases h
    have hfailed : c.Allows (.error e m') := hcall.of_error hresult
    exact permits_flushed (permits_ofEnding hfailed)
  | ok _ m' =>
    rw [hresult] at h
    obtain ⟨finished, hfinish, rfl⟩ := Option.map_eq_some_iff.mp h
    exact permits_flushed (permits_finish (hcall.of_ok hresult) hfinish)

/-- Starting a program in these surroundings. -/
theorem permits_start (hm : m.Amid c) (h : m.start fuel = some outcome) : c.Permits outcome := by
  have hprepare := explained_prepare m hm
  unfold start at h
  cases hmade : prepare m with
  | error e m₁ =>
    rw [hmade] at h
    cases h
    have hfailed : c.Allows (.error e m₁) := hprepare.of_error hmade
    exact permits_ofEnding hfailed
  | ok made m₁ =>
    rw [hmade] at h
    obtain ⟨finished, hfinish, hrest⟩ := Option.bind_eq_some_iff.mp h
    have hfinished := permits_finish (hprepare.of_ok hmade) hfinish
    rcases finished with ⟨_ | ⟨e, m₂⟩⟩ | ⟨cause, m₂⟩
    · rename_i m₂
      have hentry := explained_entry made.1 m₂ hfinished
      dsimp only at hrest
      cases hmethod : entry made.1 m₂ with
      | error e m₃ =>
        rw [hmethod] at hrest
        cases hrest
        have hfailed : c.Allows (.error e m₃) := hentry.of_error hmethod
        exact permits_ofEnding hfailed
      | ok method m₃ =>
        rw [hmethod] at hrest
        exact permits_runEntry (hentry.of_ok hmethod) hrest
    · cases hrest
      exact hfinished
    · cases hrest
      exact hfinished

end Machine

namespace Session

variable {s : Session}

/-- The fault of the session can be explained. -/
def Explained (c : Surroundings) (s : Session) : Prop :=
  Activity.Explained c ⟨s.machine, s.fault⟩

/-- A session whose operation has ended as it may. -/
theorem explained_ended {ending : Ending} (h : c.Allows ending) : (ended ending).Explained c := by
  cases ending with
  | ok _ m => exact Activity.explained_none h
  | error e m => exact Activity.explained_some h.1 h.2

theorem allows_ending (hs : s.Explained c) : c.Allows s.ending := by
  obtain ⟨machine, fault, phase⟩ := s
  cases fault with
  | none => exact hs.amid
  | some e => exact ⟨hs.amid, hs.explains e rfl⟩

/-- Starting a program forgets the fault of the operation before. -/
theorem explained_start (hphase : s.phase = .idle) (hs : s.machine.Amid c) :
    (s.act .start).Explained c := by
  have hprepare := Machine.explained_prepare s.machine hs
  simp only [act, hphase]
  cases hmade : Machine.prepare s.machine with
  | error e m =>
    have hfailed : c.Allows (.error e m) := hprepare.of_error hmade
    exact explained_ended hfailed
  | ok made m => exact Activity.explained_none (hprepare.of_ok hmade)

theorem explained_enter (hs : s.machine.Amid c) (module : ModuleId) (object : HeapId) :
    (s.enter module object).Explained c := by
  have hentry := Machine.explained_entry module s.machine hs
  unfold enter
  cases hmethod : Machine.entry module s.machine with
  | error e m₁ =>
    have hfailed : c.Allows (.error e m₁) := hentry.of_error hmethod
    exact explained_ended hfailed
  | ok method m₁ =>
    have hcall := MachineM.explained_callBare module method object .proceed m₁
      (hentry.of_ok hmethod)
    dsimp only
    cases hresult : MachineM.callBare module method object .proceed m₁ with
    | error e m₂ =>
      have hfailed : c.Allows (.error e m₂) := hcall.of_error hresult
      exact explained_ended (Machine.allows_flushed hfailed)
    | ok _ m₂ => exact Activity.explained_none (hcall.of_ok hresult)

/-- A program that was started goes on. -/
theorem explained_tick (hs : s.Explained c) : s.tick.Explained c := by
  have hconclude : s.conclude.Explained c := by
    unfold conclude
    split
    · exact explained_enter hs.amid _ _
    · exact explained_ended (allows_ending hs)
    · exact explained_ended (Machine.allows_flushed (allows_ending hs))
    · exact hs
  have hadvance : s.advance.Explained c := Activity.explained_step hs
  unfold tick
  split
  · exact hs
  · split
    · exact hconclude
    · exact hadvance

/-- A program that was started goes on, and finds the sink like this: sinks may begin and cease to
refuse at any time. -/
def tickInto (s : Session) (sink : Sink) : Session :=
  { s with machine.sink := sink }.tick

theorem explained_tickInto (hs : s.Explained c) {sink : Sink}
    (hsink : sink.RefusesOnly c.refusals) : (s.tickInto sink).Explained c := by
  have hamid : Machine.Amid { s.machine with sink := sink } c :=
    ⟨hs.amid.source, hsink, hs.amid.natives⟩
  exact explained_tick ⟨hamid, hs.explains⟩

/-- Any number of ticks with sinks that refuse as is said of them. -/
theorem explained_ticksInto (hs : s.Explained c) {sinks : List Sink}
    (hsinks : ∀ sink ∈ sinks, sink.RefusesOnly c.refusals) :
    (sinks.foldl tickInto s).Explained c := by
  induction sinks generalizing s with
  | nil => exact hs
  | cons sink others ih =>
    obtain ⟨hsink, hothers⟩ := List.forall_mem_cons.mp hsinks
    exact ih (explained_tickInto hs hsink) hothers

/-- Bytes that do not decode give a load fault. If the native functions are fair and a program that
was started ends with a fault, but no file was asked for meanwhile that could not be read or decoded
because of it, then it is a load fault exactly if the sink refuses with it. The same is true at
every step after the start, also if the sink is another one each time. -/
theorem load_faults_come_from_source_or_sink (s : Session) (hidle : s.phase = .idle)
    (hfair : s.machine.natives.Fair) (sinks : List Sink) :
    let source := s.machine.registry.source
    let later := sinks.foldl tickInto (s.act .start)
    (∀ bytes e, Image.decode bytes = .error e → e.isLoadFault = true) ∧
    (∀ fuel e m, s.machine.start fuel = some (.returned (.error e m)) →
      ¬ source.FailedSince m.registry.source e →
      (e.isLoadFault = true ↔ s.machine.sink.Refuses e)) ∧
    ∀ e, later.fault = some e → ¬ source.FailedSince later.machine.registry.source e →
      (e.isLoadFault = true ↔ ∃ sink ∈ s.machine.sink :: sinks, sink.Refuses e) := by
  intro source later
  refine ⟨fun bytes e => Image.raises_decode bytes e, ?_, ?_⟩
  · intro fuel e m hstart hread
    have hs : s.machine.Amid ⟨source, s.machine.sink.Refuses⟩ :=
      ⟨.refl _, fun _ h => h, hfair⟩
    obtain ⟨-, hexplains⟩ := Machine.permits_start hs hstart
    exact ⟨fun hload => (hexplains hload).resolve_left hread, Sink.Refuses.load⟩
  · intro e hfault hread
    -- Over the whole run, any of the sinks may have refused.
    let c : Surroundings := ⟨source, fun e => ∃ sink ∈ s.machine.sink :: sinks, sink.Refuses e⟩
    have hs : s.machine.Amid c :=
      ⟨.refl _, fun e h => ⟨s.machine.sink, List.mem_cons_self, h⟩, hfair⟩
    have hsinks : ∀ sink ∈ sinks, sink.RefusesOnly c.refusals :=
      fun sink hsink e h => ⟨sink, List.mem_cons_of_mem _ hsink, h⟩
    have hexplains := (explained_ticksInto (explained_start hidle hs) hsinks).explains e hfault
    refine ⟨fun hload => (hexplains hload).resolve_left hread, ?_⟩
    rintro ⟨sink, -, hrefuses⟩
    exact hrefuses.load

/-- Loading a program leaves nothing to go on with. -/
theorem phase_load (hphase : s.phase = .idle) (bytes : List UInt8) :
    (s.act (.load bytes)).phase = .idle := by
  simp only [act, hphase]
  cases Machine.load bytes s.machine <;> rfl

/-- A program whose entry method runs this code, with a class name and a size at hand. -/
def needing (className : String) (code : Array Instruction) : Image where
  constants := #[.text className, .uint64 0]
  heap := List.replicate 6 [Tag.untyped]
  classes := [⟨Image.topClass, [], [⟨Image.entryMethod, false, [], code⟩]⟩]

/-- A program that needs a class of a file that is not there, while the sink refuses nothing: it
ends with a load fault, so a file was asked for that could not be had. -/
theorem start_needing_lost_file :
    let s := fresh.act (.load (needing "~lost~Thing"
      #[⟨.loadConst, [3, 0]⟩, ⟨.loadConst, [4, 1]⟩, ⟨.new, [5, 4, 3]⟩]).encode)
    let later := (List.replicate 6 Sink.empty).foldl tickInto (s.act .start)
    later.fault = some (.io "lost" "no such module") ∧
      s.machine.registry.source.FailedSince later.machine.registry.source
        (.io "lost" "no such module") := by
  intro s later
  have hidle : s.phase = .idle := phase_load rfl _
  have hfault : later.fault = some (.io "lost" "no such module") := by decide +kernel
  have hsink : s.machine.sink = Sink.empty := by decide +kernel
  have hnatives : s.machine.natives = NativeTable.standard :=
    (sound_act (Machine.sound_create _ _ _) _).1.natives
  obtain ⟨-, -, hticks⟩ := load_faults_come_from_source_or_sink s hidle
    (hnatives ▸ NativeTable.fair_standard) (List.replicate 6 Sink.empty)
  refine ⟨hfault, ?_⟩
  by_contra hread
  obtain ⟨sink, hmem, reason, -, hrefuses⟩ := (hticks _ hfault hread).mp rfl
  obtain rfl : sink = Sink.empty := by
    rcases List.mem_cons.mp hmem with h | h
    · exact h.trans hsink
    · exact List.eq_of_mem_replicate h
  rcases hrefuses with h | h <;> cases h

/-- A program that does nothing but load a constant ends with a load fault if the sink refuses to be
flushed, although no file was asked for. -/
theorem refused_flush_is_load_fault :
    let sink : Sink := ⟨"", none, some "flush refused"⟩
    let s := (create Settings.standard Source.empty sink).act
      (.load (needing "" #[⟨.loadConst, [3, 0]⟩]).encode)
    ∃ e m', s.machine.start 2 = some (.returned (.error e m')) ∧ e.isLoadFault = true ∧
      m'.registry.source.requests = [] := by
  intro sink s
  have hstart : (s.machine.start 2).map (fun
      | .returned ending => ((ended ending).fault, (ended ending).machine.registry.source.requests)
      | .crashed _ m => (none, m.registry.source.requests)) =
      some (some (Sink.refused "flush refused"), []) := by decide +kernel
  obtain ⟨outcome, houtcome, hshown⟩ := Option.map_eq_some_iff.mp hstart
  rcases outcome with ⟨_ | ⟨e, m'⟩⟩ | _
  · cases hshown
  · obtain ⟨rfl, hrequests⟩ : e = Sink.refused "flush refused" ∧
        m'.registry.source.requests = [] := by
      simpa [ended] using hshown
    exact ⟨_, m', houtcome, rfl, hrequests⟩
  · cases hshown

end Session

end SlotMachine
