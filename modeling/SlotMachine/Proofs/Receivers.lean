import SlotMachine.Proofs.Construction
import SlotMachine.Proofs.Machine.Instances
import Mathlib.Tactic.Common

/-!
# On what free functions run

The free functions of a module are the methods of its top-level class, and they run on the instance
that is noted for the module. One is noted when the program is started and when the top-level class
of a module is asked for by its name, and it stays noted. A module that was loaded for the sake of
another class has none, and when a method of that class calls a free function of its module, the
function runs without a receiver.
-/

namespace SlotMachine

open Discipline

/-- A free function has been called for a frame, and this is the frame of the call. -/
structure Machine.CallsFree (m : Machine) (caller callee : Frame) (cls : Class)
    (owner : LoadedModule) : Prop where
  /-- The class is known as the top-level class of the caller's module. -/
  known : ∃ top, m.registry.qualifiedIn caller.module Image.topClass = .ok top ∧
    m.registry.class? top = some cls
  /-- The function is a method of the class. -/
  method : ∃ name, cls.method? name = some callee.function
  /-- The call works in the module of the class. -/
  module_eq : callee.module = cls.module
  /-- This is that module. -/
  owner_eq : m.registry.modules[cls.module]? = some owner
  /-- The receiver is the instance that is noted for the module, if there is one. -/
  receiver_eq : callee.receiver = owner.topInstance

/-- A step that fails begins no call. -/
theorem Turn.length_le {limit : Nat} {callable : Function → Prop} {frames frames' : List Frame}
    {e : Fault} (h : Turn limit callable frames (some e) frames') :
    frames'.length ≤ frames.length := by
  cases h with
  | stays _ => exact le_rfl
  | drops _ => exact Nat.le_succ _

namespace MachineM

variable {m m' : Machine} {f callee : Frame} {others : List Frame} {i : Instruction}

/-- Going where an instruction leads neither begins nor ends a call. -/
theorem length_follow {flow : Flow} (h : follow f flow m = .ok () m') :
    m'.frames.length = m.frames.length := by
  have hset : ∀ next : Frame → Nat, setIp next m = .ok () m' →
      m'.frames.length = m.frames.length := by
    intro next hnext
    rw [setIp_eq] at hnext
    cases hnext
    cases m.frames <;> rfl
  cases flow with
  | next => exact hset _ h
  | jump target =>
    rw [follow] at h
    split at h
    · exact hset _ h
    · cases h
  | enter =>
    cases h
    rfl

/-- A step in which a free function is called begins its call and does nothing more. -/
theorem invokes_of_step (hframes : m.frames = f :: others)
    (hcode : f.function.code[f.ip]? = some i) (hinvoke : i.opcode = .invoke)
    (hstep : step m = .ok () m') (hpushed : m'.frames = callee :: f :: others) :
    m.Invokes f m' := by
  have hexecute : execute f i = invoke f i := by
    unfold execute
    rw [hinvoke]
  unfold step at hstep
  rw [Action.get_bind, hframes] at hstep
  dsimp only at hstep
  rw [hcode] at hstep
  obtain ⟨flow, m₁, hflow, hfollow⟩ := Action.bind_eq_ok_iff.mp hstep
  have hled := (led_execute (Machine.Stays.refl m) f i).of_ok hflow
  rw [hexecute] at hflow
  obtain ⟨-, -, hinvokes⟩ := (moves_invoke f i m).promised hflow
  rcases hled with hstays | ⟨rfl, g, -, -, henters⟩
  · -- Without a call there would be no more frames than before.
    have hlength := length_follow hfollow
    rw [hstays.frames, hframes, hpushed] at hlength
    simp at hlength
  · cases hfollow
    rcases hinvokes with hsame | hinvokes
    · have hlength := congrArg List.length (henters.frames.symm.trans hsame)
      simp at hlength
    · exact hinvokes

end MachineM

/-- The call of a free function that has begun. -/
theorem Machine.Invokes.callsFree {m m' : Machine} {f callee : Frame} {others : List Frame}
    (h : m.Invokes f m') (hretains : m.Retains m')
    (hpushed : m'.frames = callee :: others) :
    ∃ cls owner, m'.CallsFree f callee cls owner := by
  obtain ⟨htop, hcls, hmethod, howner, -, hbegins⟩ := h
  obtain ⟨g, hframes, hmodule, hfunction, hreceiver, -⟩ := hbegins.frames
  obtain ⟨rfl, -⟩ := List.cons.inj (hframes.symm.trans hpushed)
  rw [← hbegins.registry] at hcls howner
  rw [← hfunction] at hmethod
  exact ⟨_, _, ⟨_, hretains.qualifiedIn htop, hcls⟩, ⟨_, hmethod⟩, hmodule, howner, hreceiver⟩

/-- Operand 0 leads to the receiver of a call, if it has one. -/
theorem MachineM.receiver_zero (f : Frame) (m : Machine) :
    receiver f 0 m =
      match f.receiver with
      | some object => .ok object m
      | none => .error .noReceiver m := by
  unfold receiver
  rw [if_pos rfl]
  cases f.receiver with
  | some object => rfl
  | none => rfl

/-- A module keeps the instance that is noted for it. -/
theorem Machine.Evolves.topInstance {m m' : Machine} (h : m.Evolves m') {id : ModuleId}
    {object : HeapId} (hobject : m.registry.topInstance? id = some object) :
    m'.registry.topInstance? id = some object := by
  obtain ⟨loaded, hloaded, hsome⟩ := Option.bind_eq_some_iff.mp hobject
  obtain ⟨loaded', hloaded', -, htop⟩ := h.module_kept hloaded
  exact Option.bind_eq_some_iff.mpr ⟨loaded', hloaded', htop object hsome⟩

namespace Machine.CallsFree

variable {m : Machine} {caller callee : Frame} {cls : Class} {owner : LoadedModule}

/-- A class that belongs to the caller's module has the name of the module's top-level class. -/
theorem name_eq (h : m.CallsFree caller callee cls owner) (hm : m.Sound)
    (hmodule : cls.module = caller.module) :
    cls.name = qualifiedName owner.file Image.topClass := by
  obtain ⟨top, htop, hcls⟩ := h.known
  have howner := h.owner_eq
  rw [hmodule] at howner
  rw [Registry.qualifiedIn, MachineM.module_eq_ok_iff.mpr howner] at htop
  exact (hm.linkage.class_name hcls).trans (Except.ok.inj htop).symm

/-- A class of the program calls on the program's instance. -/
theorem topInstance_eq (h : m.CallsFree caller callee cls owner)
    (hprogram : m.program = some cls.module) : owner.topInstance = m.programInstance? := by
  rw [programInstance?, hprogram, Option.bind_some, Registry.topInstance?, h.owner_eq]
  rfl

end Machine.CallsFree

namespace Session

variable {s : Session} {f callee : Frame} {others : List Frame} {i : Instruction}

/-- Beginning the entry method notes no instance. -/
theorem unnoted_enter (s : Session) (module : ModuleId) (object : HeapId) :
    s.machine.Unnoted (s.enter module object).machine := by
  have henters := enters_enter s module object
  generalize s.enter module object = next at henters ⊢
  cases henters with
  | fails hev _ => exact Machine.unnoted_of_motion hev
  | begins hev _ _ _ _ hbegun =>
    have hsame := Machine.Unnoted.of_eq (congrArg Registry.modules hbegun.registry)
    exact (Machine.unnoted_of_motion hev).trans hsame

/-- What comes next in starting a program. -/
theorem topNamed_conclude (hs : Machine.naming.Sound s.machine) : s.conclude.machine.TopNamed := by
  unfold conclude
  split
  · exact hs.2.mono (sound_enter hs.1 _ _).2.grows (unnoted_enter s _ _)
  · rw [machine_ended_ending]
    exact hs.2
  · rw [machine_ended_flushed, machine_ended_ending]
    exact hs.2
  · exact hs.2

/-- After an event the instances that are noted are what they are to be. -/
theorem topNamed_act (hs : Machine.naming.Sound s.machine) (event : HostEvent) :
    (s.act event).machine.TopNamed := by
  cases event with
  | load bytes =>
    have hload := Machine.keeps_load hs.1 bytes
    have hunnoted := Machine.unnoted_load bytes s.machine
    simp only [act]
    split
    · cases hresult : Machine.load bytes s.machine with
      | ok id m =>
        exact hs.2.mono (hload.last (.inl ⟨id, hresult⟩)).2.grows (hunnoted.of_ok hresult)
      | error e m =>
        exact hs.2.mono (hload.last (.inr ⟨e, hresult⟩)).2.grows (hunnoted.of_error hresult)
    · exact hs.2
  | start =>
    have hprepare := Machine.names_prepare hs
    simp only [act]
    split
    · cases hresult : Machine.prepare s.machine with
      | ok made m => exact (hprepare.last (.inl ⟨made, hresult⟩)).1.2
      | error e m => exact (hprepare.last (.inr ⟨e, hresult⟩)).1.2
    · exact hs.2
  | tick =>
    simp only [act]
    unfold tick
    split
    · exact hs.2
    · split
      · exact topNamed_conclude hs
      · exact Activity.topNamed_step (a := ⟨s.machine, s.fault⟩) hs
  | supply fetch => exact hs.2

/-- After any events the machine is sound, and the noted instances are what they are to be. -/
theorem naming_play (hs : Machine.naming.Sound s.machine) (events : List HostEvent) :
    Machine.naming.Sound (s.play events).machine := by
  induction events generalizing s with
  | nil => exact hs
  | cons event others ih => exact ih ⟨(sound_act hs.1 event).1, topNamed_act hs event⟩

/-- A machine on which nothing is loaded has noted nothing. -/
theorem naming_create (settings : Settings) (source : Source) (sink : Sink) :
    Machine.naming.Sound (create settings source sink).machine := by
  refine ⟨Machine.sound_create settings source sink, ?_⟩
  intro id loaded object hloaded
  simp [create, Machine.create, Registry.empty] at hloaded

/-- A tick in which a free function is called. -/
theorem callsFree_of_tick (hphase : s.phase ≠ .idle) (hfault : s.fault = none)
    (hframes : s.machine.frames = f :: others) (hcode : f.function.code[f.ip]? = some i)
    (hinvoke : i.opcode = .invoke)
    (hpushed : (s.act .tick).machine.frames = callee :: f :: others) :
    ∃ cls owner, (s.act .tick).machine.CallsFree f callee cls owner := by
  have hretains := retains_tick hphase hframes
  rw [machine_tick hphase hframes, hfault, Activity.step_none] at hpushed hretains ⊢
  cases hresult : MachineM.step s.machine with
  | error e m' =>
    have hne : s.machine.frames ≠ [] := by
      rw [hframes]
      exact List.cons_ne_nil f others
    have hturn := ((MachineM.turns_step hne).of_error hresult).turn
    rw [hresult] at hpushed
    have hlength := hturn.length_le
    rw [hframes, show m'.frames = callee :: f :: others from hpushed] at hlength
    exact absurd hlength (Nat.not_succ_le_self _)
  | ok _ m' =>
    rw [hresult] at hpushed hretains
    have hinvokes := MachineM.invokes_of_step hframes hcode hinvoke hresult hpushed
    exact hinvokes.callsFree hretains hpushed

/-- In every state of a session, whatever programs a host loads and starts:

* what is noted for a module is an instance of the module's top-level class;
* while a program is started or runs, it has its instance;
* a module that is bound by the name of its top-level class has its instance from then on;
* an instance that is noted stays noted;
* a free function that is called runs in the module of its class, on the instance that is noted for
  this module. Then operand 0 leads to the instance. If none is noted, operand 0 raises a fault.

So a free function has its receiver whenever the module of its class was started or bound by the
name of its top-level class. -/
theorem free_functions_run_on_noted_instances (settings : Settings) (source : Source) (sink : Sink)
    (events : List HostEvent) :
    let s := (create settings source sink).play events
    let next := (s.act .tick).machine
    s.machine.TopNamed ∧
    (s.phase ≠ .idle → ∃ object, s.machine.programInstance? = some object) ∧
    (∀ target file flow m', MachineM.bindModule target file s.machine = .ok flow m' →
      ∃ id object, m'.registry.file? file = some id ∧ m'.registry.topInstance? id = some object) ∧
    (∀ later id object, s.machine.registry.topInstance? id = some object →
      (s.play later).machine.registry.topInstance? id = some object) ∧
    ∀ f others i callee, s.fault = none → s.machine.frames = f :: others →
      f.function.code[f.ip]? = some i → i.opcode = .invoke →
      next.frames = callee :: f :: others →
      ∃ cls owner, next.CallsFree f callee cls owner ∧
        (cls.module = f.module → cls.name = qualifiedName owner.file Image.topClass) ∧
        (next.program = some cls.module → owner.topInstance ≠ none) ∧
        (∀ object, owner.topInstance = some object →
          next.store.HasInstance object (qualifiedName owner.file Image.topClass) ∧
          ∀ m, MachineM.receiver callee 0 m = .ok object m) ∧
        (owner.topInstance = none → ∀ m, MachineM.receiver callee 0 m = .error .noReceiver m) := by
  intro s next
  have hnaming : Machine.naming.Sound s.machine :=
    naming_play (naming_create settings source sink) events
  have hsettled : s.Settled _ _ := settled_play (settled_create settings source sink _) events
  refine ⟨hnaming.2, hsettled.exists_instance, ?_, ?_, ?_⟩
  · intro target file flow m' hbound
    exact ((MachineM.progresses_bindModule target file s.machine).promised hbound).2.2
  · intro later id object hobject
    exact (sound_play hnaming.1 later).2.topInstance hobject
  · intro f others i callee hfault hframes hcode hinvoke hpushed
    have hphase : s.phase ≠ .idle := by
      intro hidle
      rw [hsettled.idle hidle] at hframes
      cases hframes
    have hnext : Machine.naming.Sound next :=
      ⟨(sound_act hnaming.1 .tick).1, topNamed_act hnaming .tick⟩
    obtain ⟨cls, owner, hcalls⟩ := callsFree_of_tick hphase hfault hframes hcode hinvoke hpushed
    refine ⟨cls, owner, hcalls, hcalls.name_eq hnext.1, ?_, ?_, ?_⟩
    · intro hprogram
      obtain ⟨object, hobject⟩ := hsettled.exists_instance hphase
      rw [hcalls.topInstance_eq hprogram,
        (retains_tick hphase hframes).programInstance hobject]
      exact Option.some_ne_none object
    · intro object hobject
      refine ⟨hnext.2 _ _ _ hcalls.owner_eq hobject, ?_⟩
      intro m
      rw [MachineM.receiver_zero, hcalls.receiver_eq, hobject]
    · intro hnone m
      rw [MachineM.receiver_zero, hcalls.receiver_eq, hnone]

/-- A program whose entry method calls a free function. -/
def asking : Image where
  constants := #[.text "helper"]
  heap := List.replicate 6 [Tag.untyped]
  classes := [⟨Image.topClass, [], [
    ⟨Image.entryMethod, false, [], #[⟨.loadConst, [3, 0]⟩, ⟨.invoke, [3, 1, 4]⟩]⟩,
    ⟨"helper", false, [5], #[]⟩]⟩]

/-- The program is started, up to where the function is called. -/
def startedAsking : List HostEvent :=
  [.load asking.encode, .start, .tick, .tick]

/-- The function runs on an instance of the program's top-level class. -/
theorem helper_on_instance :
    let next := ((fresh.play startedAsking).act .tick).machine
    ∃ callee f object, next.frames = [callee, f] ∧ callee.function.name = "helper" ∧
      callee.receiver = some object ∧ next.store.HasInstance object Image.topClass ∧
      ∀ m, MachineM.receiver callee 0 m = .ok object m := by
  intro next
  have hlength : next.frames.length = 2 := by decide +kernel
  have htail : next.frames.tail = (fresh.play startedAsking).machine.frames := by decide +kernel
  have hnames : next.frames.map (·.function.name) = ["helper", Image.entryMethod] := by
    decide +kernel
  have hmodules : next.frames.map Frame.module = [0, 0] := by decide +kernel
  have hpresent : (fresh.play startedAsking).machine.present?.map Instruction.opcode =
      some .invoke := by decide +kernel
  have hfault : (fresh.play startedAsking).fault = none := by decide +kernel
  have hprogram : next.program = some 0 := by decide +kernel
  have hfile : next.registry.modules[0]?.map LoadedModule.file = some none := by decide +kernel
  obtain ⟨callee, f, hpushed⟩ := List.length_eq_two.mp hlength
  rw [hpushed] at htail hnames hmodules
  obtain ⟨i, hi, hinvoke⟩ := Option.map_eq_some_iff.mp hpresent
  have hcode : f.function.code[f.ip]? = some i := by
    rw [Machine.present?, ← htail] at hi
    exact hi
  obtain ⟨-, -, -, -, hcall⟩ := free_functions_run_on_noted_instances Settings.standard Source.empty
    Sink.empty startedAsking
  obtain ⟨cls, owner, hcalls, -, hnoted, hreceiver, -⟩ :=
    hcall f [] i callee hfault htail.symm hcode hinvoke hpushed
  have hmodule : cls.module = 0 := hcalls.module_eq.symm.trans (List.cons.inj hmodules).1
  obtain ⟨object, hobject⟩ := Option.ne_none_iff_exists'.mp (hnoted (hmodule ▸ hprogram))
  obtain ⟨hinstance, hoperand⟩ := hreceiver object hobject
  have howner : owner.file = none := by
    have hloaded := hcalls.owner_eq
    rw [hmodule] at hloaded
    rw [show next.registry.modules[0]? = some owner from hloaded] at hfile
    exact Option.some.inj hfile
  rw [howner] at hinstance
  exact ⟨callee, f, object, hpushed, (List.cons.inj hnames).1, hcalls.receiver_eq.trans hobject,
    hinstance, hoperand⟩

/-- A library with a class whose constructor calls a free function, which looks for a member of its
receiver. -/
def helpful : Image where
  constants := #[.text "helper", .text "x"]
  heap := List.replicate 8 [Tag.untyped]
  classes := [
    ⟨"Foo", [], [⟨Image.constructor, false, [], #[⟨.loadConst, [3, 0]⟩, ⟨.invoke, [3, 1, 4]⟩]⟩]⟩,
    ⟨Image.topClass, [⟨"x", [Tag.long]⟩],
      [⟨"helper", false, [5], #[⟨.loadConst, [6, 1]⟩, ⟨.loadMember, [7, 0, 6]⟩]⟩]⟩]

/-- A program that makes an instance of the class. -/
def depending : Image where
  constants := #[.uint64 0, .text "~lib~Foo"]
  heap := List.replicate 6 [Tag.untyped]
  classes := [⟨Image.topClass, [], [⟨Image.entryMethod, false, [],
    #[⟨.loadConst, [4, 0]⟩, ⟨.loadConst, [5, 1]⟩, ⟨.new, [3, 4, 5]⟩]⟩]⟩]

/-- The program is started, up to where the constructor calls the function. -/
def startedDepending : List HostEvent :=
  [.load depending.encode, .start, .tick, .tick, .tick, .tick, .tick]

/-- The function is called in the library, for which no instance is noted, and it cannot look for
the member. -/
theorem helper_without_receiver :
    let source := Source.ofFiles [("lib", helpful.encode)]
    let s := (create Settings.standard source Sink.empty).play startedDepending
    s.machine.present?.map Instruction.opcode = some .invoke ∧
    (s.act .tick).machine.frames.tail = s.machine.frames ∧
    (s.act .tick).machine.frames.map (fun f => (f.module, f.function.name, f.receiver)) =
      [(1, "helper", none), (1, Image.constructor, some 4), (0, Image.entryMethod, some 2)] ∧
    (s.play [.tick, .tick, .tick]).fault = some .noReceiver := by
  refine ⟨?_, ?_, ?_, ?_⟩ <;> decide +kernel

end Session

end SlotMachine
