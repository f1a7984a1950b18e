import SlotMachine.Proofs.CallStack
import SlotMachine.Proofs.Machine.Progress
import Mathlib.Tactic.Common

/-!
# How sessions start programs

A program is started in two parts: first the instance of its top-level class is made, and when the
call of its constructor has returned, the entry method begins. Each part is given up if it fails.
What the parts do to a machine is said here once, in terms of moves.
-/

namespace SlotMachine.Session

variable {s : Session} {f : Frame} {others : List Frame}

/-- The first part of starting a program. -/
inductive Prepares (s : Session) : Session → Prop where
  /-- It fails. -/
  | fails {e : Fault} {m : Machine} : Machine.progress.Evolves s.machine m →
      m.frames = s.machine.frames → Prepares s (ended (.error e m))
  /-- The program has its instance, whose constructor may have begun. -/
  | makes {m : Machine} {module : ModuleId} {object : HeapId} :
      Machine.progress.Evolves s.machine m → s.machine.program = some module →
      s.machine.Furnishes module object m → Prepares s ⟨m, none, .making module object⟩

/-- The second part of starting a program. -/
inductive Enters (s : Session) (module : ModuleId) (object : HeapId) : Session → Prop where
  /-- It fails. -/
  | fails {ending : Ending} : Machine.motion.Evolves s.machine (ended ending).machine →
      (ended ending).machine.frames = s.machine.frames → Enters s module object (ended ending)
  /-- The class known as the program's top-level class is found, and its entry method begins in the
  program and on its instance. -/
  | begins {found m : Machine} {name : String} {cls : Class} {method : Function} :
      Machine.motion.Evolves s.machine found → found.frames = s.machine.frames →
      s.machine.registry.qualifiedIn module Image.topClass = .ok name →
      found.registry.class? name = some cls → cls.method? Image.entryMethod = some method →
      found.Begins module method (some object) m → Enters s module object ⟨m, none, .running⟩

/-- Nothing goes on when an operation has ended. -/
theorem phase_ended (ending : Ending) : (ended ending).phase = .idle := by
  cases ending <;> rfl

/-- Starting a program when the last operation has ended. -/
theorem prepares_start (hidle : s.phase = .idle) : s.Prepares (s.act .start) := by
  have hprogress := Machine.progresses_prepare s.machine
  cases hresult : Machine.prepare s.machine with
  | error e m =>
    have hact : s.act .start = ended (.error e m) := by simp only [act, hidle, hresult]
    have hframes : m.frames = s.machine.frames :=
      ((Machine.ends_prepare (.refl s.machine)).of_error hresult).stays.frames
    rw [hact]
    exact .fails (hprogress.last (.inr ⟨e, hresult⟩)).2 hframes
  | ok made m =>
    obtain ⟨module, object⟩ := made
    have hact : s.act .start = ⟨m, none, .making module object⟩ := by
      simp only [act, hidle, hresult]
    obtain ⟨-, hev, hprogram, hfurnishes⟩ := hprogress.promised hresult
    rw [hact]
    exact .makes hev hprogram hfurnishes

/-- Otherwise the host has to wait. -/
theorem act_start_of_ne_idle (hphase : s.phase ≠ .idle) : s.act .start = s := by
  obtain ⟨machine, fault, phase⟩ := s
  cases phase with
  | idle => exact absurd rfl hphase
  | making module object => rfl
  | running => rfl

/-- Beginning the entry method. -/
theorem enters_enter (s : Session) (module : ModuleId) (object : HeapId) :
    s.Enters module object (s.enter module object) := by
  have hmoves := Machine.moves_entry module s.machine
  unfold enter
  cases hresult : Machine.entry module s.machine with
  | error e m₁ =>
    have hframes : m₁.frames = s.machine.frames :=
      ((Machine.ends_entry (.refl s.machine) module).of_error hresult).stays.frames
    have hfails : s.Enters module object (ended (.error e m₁)) :=
      .fails (hmoves.last (.inr ⟨e, hresult⟩)).2 hframes
    exact hfails
  | ok method m₁ =>
    obtain ⟨-, hev, hframes, name, cls, hname, hcls, hmethod⟩ := hmoves.promised hresult
    have hbegins := MachineM.begins_callBare module method object .proceed m₁
    dsimp only
    cases hcalled : MachineM.callBare module method object .proceed m₁ with
    | error e m₂ =>
      have hacts : m₁.Acts m₂ := hbegins.of_error hcalled
      have hmachine : (ended (Machine.flushed (.error e m₂))).machine = m₂ :=
        machine_ended_flushed _
      apply Enters.fails
      · rw [hmachine]
        exact hev.tail (.acts hacts)
      · rw [hmachine]
        exact hacts.frames.trans hframes
    | ok _ m₂ => exact .begins hev hframes hname hcls hmethod (hbegins.of_ok hcalled)

/-- As long as there are frames, a tick is a step of the machine. -/
theorem machine_tick (hphase : s.phase ≠ .idle) (hframes : s.machine.frames = f :: others) :
    (s.act .tick).machine = (Activity.step ⟨s.machine, s.fault⟩).machine := by
  have htick : s.tick = _ := tick_of_ne_idle hphase
  rw [hframes, List.isEmpty_cons, if_neg Bool.false_ne_true] at htick
  exact congrArg machine htick

/-- Such a tick keeps what moves retain. -/
theorem retains_tick (hphase : s.phase ≠ .idle) (hframes : s.machine.frames = f :: others) :
    s.machine.Retains (s.act .tick).machine := by
  rw [machine_tick hphase hframes]
  exact Machine.retains_of_progress (Activity.progress_step ⟨s.machine, s.fault⟩)

end SlotMachine.Session
