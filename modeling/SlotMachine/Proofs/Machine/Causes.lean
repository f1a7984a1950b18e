import SlotMachine.Machine.Run
import SlotMachine.Proofs.Linkage.Requests
import SlotMachine.Proofs.Machine.Frames
import SlotMachine.Proofs.Machine.Turns
import Mathlib.Tactic.Common

/-!
# Where load faults come from

A machine at work meets load faults in two places only: at its source, which is asked for a file
that it does not have or whose bytes do not decode, and at its sink, which refuses a text or a
flush. So whoever knows which files have been asked for and how the sink may refuse can account for
every load fault that an instruction raises. Native functions of the host may pass on refusals of
the sink, but must not raise load faults of their own.
-/

namespace SlotMachine

/-- A fault that is none of loading. -/
abbrev Fault.Own (e : Fault) : Prop := ¬ e.Load

/-- Faults of running a program are none of loading. -/
theorem Fault.Run.own {e : Fault} (h : e.Run) : e.Own := by
  cases e <;> first | exact Bool.false_ne_true | cases h

/-- Nor is a crash. -/
theorem Fault.AtWork.own {e : Fault} (h : e.AtWork) : e.Own := by
  rcases h with hrun | hcrash
  · exact hrun.own
  · cases e <;> first | exact Bool.false_ne_true | cases hcrash

/-- Nor is the fault that an instruction lacks operands. -/
theorem Instruction.Miscounts.own {i : Instruction} {e : Fault} (h : i.Miscounts e) : e.Own := by
  rcases h.eq_wrongCount with ⟨expected, rfl⟩ | rfl
  · exact Bool.false_ne_true
  · exact Bool.false_ne_true

/-- Faults of simple instructions are none of loading. -/
theorem Simple.Fails.own {i : Instruction} {e : Fault} (h : Simple.Fails i e) : e.Own :=
  h.elim Fault.Run.own Instruction.Miscounts.own

/-- Refusals are counted among the load faults. -/
theorem Sink.Refuses.load {k : Sink} {e : Fault} (h : k.Refuses e) : e.Load := by
  obtain ⟨reason, rfl, -⟩ := h
  rfl

/-- The native function raises load faults only because the sink refuses, and does not make it
refuse with others. -/
def Native.Fair (f : Native) : Prop :=
  ∀ refusals depth slots, Action.Accounts (fun w => w.sink.RefusesOnly refusals)
    (fun e _ => e.Load → refusals e) (f.run depth slots)

/-- All native functions of the table raise load faults only because the sink refuses. -/
def NativeTable.Fair (t : NativeTable) : Prop :=
  ∀ name native, t.find? name = some native → native.Fair

/-- The standard native functions are fair. -/
theorem NativeTable.fair_standard : standard.Fair := by
  intro name native hnative refusals depth slots
  apply (Native.passesOn_standard hnative refusals depth slots).mono
  intro e w hraised hload
  exact hraised.resolve_left fun hatWork => Fault.AtWork.own hatWork hload

namespace Source

/-- The source has the same contents, and there may have been further requests. -/
structure Precedes (s s' : Source) : Prop where
  /-- The contents stay. -/
  fetch : s'.fetch = s.fetch
  /-- No request is forgotten. -/
  requests : s.requests <:+ s'.requests

/-- Between the two states a file was asked for that cannot be had because of this fault: it could
not be read, or its bytes did not decode. -/
def FailedSince (s s' : Source) (e : Fault) : Prop :=
  ∃ later file, later ++ s.requests = s'.requests ∧ file ∈ later ∧ s.image file = .error e

theorem Precedes.refl (s : Source) : s.Precedes s :=
  ⟨rfl, List.suffix_refl _⟩

/-- The module under a file name depends on the contents alone. -/
theorem Precedes.image {s s' : Source} (h : s.Precedes s') (file : String) :
    s'.image file = s.image file := by
  rw [Source.image, h.fetch, Source.image]

end Source

namespace LinkM

open SlotMachine.Action Fault

variable {α : Type} {source : Source}

/-- In the course of what was begun with this source, load faults of the action come from files that
it asks for. -/
def Traces (source : Source) (x : LinkM α) : Prop :=
  Accounts (fun l => source.Precedes l.registry.source)
    (fun e l => e.Load → source.FailedSince l.registry.source e) x

theorem traces_throw {e : Fault} (he : e.Own) : Traces source (throw e : LinkM α) :=
  accounts_throw fun _ hload => absurd hload he

/-- One more file has been asked for. -/
theorem precedes_asked {l : Linkage} (hl : source.Precedes l.registry.source) (file : String) :
    source.Precedes (l.asked file).registry.source :=
  ⟨hl.fetch, hl.requests.trans (List.suffix_cons file _)⟩

theorem traces_requireFile (file : String) : Traces source (requireFile file) := by
  intro l hl
  rcases requireFile_cases file l with ⟨_, -, hok⟩ | ⟨image, -, -, hok⟩ | ⟨e, -, himage, herror⟩
  · exact ends_of_ok hok hl
  · refine ends_of_ok hok ?_
    dsimp only [Linkage.enter]
    rw [Registry.source_enter]
    exact precedes_asked hl file
  · obtain ⟨later, hlater⟩ := hl.requests
    refine ends_of_error herror ⟨precedes_asked hl file, fun _ => ?_⟩
    refine ⟨file :: later, file, ?_, List.mem_cons_self, ?_⟩
    · rw [List.cons_append, hlater]
      rfl
    · rw [← hl.image]
      exact himage

theorem traces_knownClass (name : String) : Traces source (knownClass name) := by
  refine accounts_get_bind fun l _ => ?_
  split
  · exact accounts_pure _
  · exact traces_throw Bool.false_ne_true

/-- Looking for a class that may have to be loaded. -/
theorem traces_findClass (name : String) : Traces source (findClass name) := by
  refine accounts_get_bind fun l _ => ?_
  split
  · exact accounts_pure _
  · split
    · split
      · exact (traces_requireFile _).bind fun _ => traces_knownClass name
      · rename_i e hsplit
        have hthrow : Traces source (throw e : LinkM PUnit) :=
          traces_throw (raises_splitClassName name e hsplit).own
        exact hthrow.bind fun _ => traces_knownClass name
    · exact traces_knownClass name

theorem traces_topClass (id : ModuleId) : Traces source (topClass id) := by
  refine accounts_get_bind fun l _ => ?_
  split
  · exact traces_findClass _
  · rename_i e hname
    exact traces_throw ((Simple.raises_module _ _).map _ e hname).own

end LinkM

/-- What surrounds a machine at work: the source as it was when the work began, and the faults with
which the sink may refuse meanwhile. -/
structure Surroundings where
  /-- The source. -/
  source : Source
  /-- The refusals. -/
  refusals : Fault → Prop

/-- The machine has been at work in these surroundings. -/
structure Machine.Amid (m : Machine) (c : Surroundings) : Prop where
  /-- It has the source, which may have been asked since. -/
  source : c.source.Precedes m.registry.source
  /-- Its sink refuses with no other faults. -/
  sink : m.sink.RefusesOnly c.refusals
  /-- Its native functions are fair. -/
  natives : m.natives.Fair

/-- A load fault is due to a file that the machine has asked for in vain, or to the sink. -/
def Surroundings.Explains (c : Surroundings) (e : Fault) (m : Machine) : Prop :=
  e.Load → c.source.FailedSince m.registry.source e ∨ c.refusals e

/-- Surroundings matter to source, sink and native functions only. -/
theorem Machine.Amid.of_eq {m m' : Machine} {c : Surroundings} (hm : m.Amid c)
    (hsource : m'.registry.source = m.registry.source) (hsink : m'.sink = m.sink)
    (hnatives : m'.natives = m.natives) : m'.Amid c where
  source := hsource ▸ hm.source
  sink := hsink ▸ hm.sink
  natives := hnatives ▸ hm.natives

theorem Surroundings.explains_of_own {c : Surroundings} {e : Fault} (he : e.Own) (m : Machine) :
    c.Explains e m :=
  fun hload => absurd hload he

namespace MachineM

open SlotMachine.Action Fault

variable {α : Type} {c : Surroundings}

/-- In these surroundings, the load faults of the action can be explained. -/
def Explained (c : Surroundings) (x : MachineM α) : Prop :=
  Accounts (fun m => m.Amid c) c.Explains x

theorem explained_throw {e : Fault} (he : e.Own) : Explained c (throw e : MachineM α) :=
  accounts_throw (Surroundings.explains_of_own he)

theorem explained_ask_of_own {question : Machine → Except Fault α}
    (h : ∀ m, Answer.Raises Own (question m)) : Explained c (ask question) := by
  intro m hm
  unfold Ends ask
  cases hquestion : question m with
  | ok a => exact hm
  | error e => exact ⟨hm, Surroundings.explains_of_own (h m e hquestion) m⟩

/-- Asking a question about the machine. -/
theorem explained_ask {question : Machine → Except Fault α}
    (h : ∀ m, Answer.Raises Run (question m)) : Explained c (ask question) :=
  explained_ask_of_own fun m e he => (h m e he).own

/-- Checking the operands of an instruction. -/
theorem explained_check {i : Instruction} {check : Except Fault α}
    (h : Answer.Raises i.Miscounts check) : Explained c (ask fun _ => check) :=
  explained_ask_of_own fun _ e he => (h e he).own

theorem explained_onStore_of_own {action : StoreM α} (h : Raises Own action) :
    Explained c (onStore action) := by
  intro m hm
  unfold Ends
  rw [onStore_eq]
  cases haction : action m.store with
  | ok a s => exact hm.of_eq rfl rfl rfl
  | error e s =>
    exact ⟨hm.of_eq rfl rfl rfl, Surroundings.explains_of_own (h _ _ _ haction) _⟩

/-- An action on the store that fails as programs do at work. -/
theorem explained_atWork {action : StoreM α} (h : Raises AtWork action) :
    Explained c (onStore action) :=
  explained_onStore_of_own (h.mono fun _ => AtWork.own)

/-- An action on the store that fails with run faults. -/
theorem explained_onStore {action : StoreM α} (h : Raises Run action) :
    Explained c (onStore action) :=
  explained_atWork h.atWork

/-- Linking, whose load faults come from files that it asks for. -/
theorem explained_onLinkage {action : LinkM α} (h : LinkM.Traces c.source action) :
    Explained c (onLinkage action) := by
  intro m hm
  have hlinked := h m.linkage hm.source
  unfold Ends
  rw [onLinkage_eq]
  cases haction : action m.linkage with
  | ok a l => exact ⟨hlinked.of_ok haction, hm.sink, hm.natives⟩
  | error e l =>
    obtain ⟨hsource, hfailed⟩ := hlinked.of_error haction
    exact ⟨⟨hsource, hm.sink, hm.natives⟩, fun hload => .inl (hfailed hload)⟩

/-- A fair native function, whose load faults come from the sink. -/
theorem explained_onWorld {native : Native} (h : native.Fair) (depth : Nat) (args : List Slot) :
    Explained c (onWorld (native.run depth args)) := by
  intro m hm
  have hworld := h c.refusals depth args ⟨m.store, m.sink⟩ hm.sink
  unfold Ends
  rw [onWorld_eq]
  cases hrun : native.run depth args ⟨m.store, m.sink⟩ with
  | ok _ w => exact ⟨hm.source, hworld.of_ok hrun, hm.natives⟩
  | error e w =>
    obtain ⟨hsink, hrefused⟩ := hworld.of_error hrun
    exact ⟨⟨hm.source, hsink, hm.natives⟩, fun hload => .inr (hrefused hload)⟩

/-- Changing what surroundings have nothing to do with. -/
theorem explained_modify {change : Machine → Machine}
    (h : ∀ m, (change m).registry.source = m.registry.source ∧ (change m).sink = m.sink ∧
      (change m).natives = m.natives) : Explained c (modify change) := by
  refine accounts_modify fun m hm => ?_
  obtain ⟨hsource, hsink, hnatives⟩ := h m
  exact hm.of_eq hsource hsink hnatives

theorem explained_module (id : ModuleId) : Explained c (ask fun m => m.registry.module id) :=
  explained_ask fun m => Simple.raises_module m.registry id

theorem explained_perform (resume : Resume) : Explained c (perform resume) := by
  cases resume with
  | proceed => exact accounts_pure _
  | bind result target => exact explained_onStore (StoreM.raises_bind result target .mutable)

theorem explained_call (module : ModuleId) (function : Function) (receiver : Option HeapId)
    (args : List Slot) (resume : Resume) :
    Explained c (call module function receiver args resume) := by
  unfold call
  refine accounts_get_bind fun m _ => accounts_get_bind fun m' _ => ?_
  dsimp only
  -- What follows the check of the depth stands in both branches.
  have hbegin : Explained c (do
      let loaded ← ask fun m => m.registry.module module
      onStore (StoreM.pass loaded.heap function args)
      modify fun m : Machine => { m with
        frames := ⟨module, loaded.heap, receiver, function, 0, args.head?, resume⟩ :: m.frames }) :=
    (explained_module module).bind fun loaded =>
      (explained_atWork (StoreM.raises_pass loaded.heap function args)).bind fun _ =>
        explained_modify fun _ => ⟨rfl, rfl, rfl⟩
  split
  · have hthrow : Explained c (throw (callDepthExceeded m.depth) : MachineM PUnit) :=
      explained_throw Bool.false_ne_true
    exact hthrow.bind fun _ => hbegin
  · exact hbegin

theorem explained_callBare (module : ModuleId) (function : Function) (receiver : HeapId)
    (resume : Resume) : Explained c (callBare module function receiver resume) := by
  unfold callBare
  split
  · exact explained_call _ _ _ _ _
  · exact (explained_onStore (StoreM.raises_replace _ _)).bind fun _ => explained_call _ _ _ _ _

theorem explained_construct (cls : Class) (object : HeapId) (resume : Resume) :
    Explained c (construct cls object resume) := by
  unfold construct
  split
  · exact (explained_callBare _ _ _ _).bind fun _ => accounts_pure _
  · exact (explained_perform resume).bind fun _ => accounts_pure _

/-- Beginning to make the instance of a module's top-level class. -/
theorem explained_topInstance (module : ModuleId) (resume : Resume) :
    Explained c (topInstance module resume) := by
  unfold topInstance
  refine (explained_module module).bind fun loaded => ?_
  split
  · exact (explained_perform resume).bind fun _ => accounts_pure _
  · refine (explained_onLinkage (LinkM.traces_topClass module)).bind fun cls => ?_
    refine (explained_onStore (StoreM.raises_extend _ _)).bind fun _ => ?_
    refine (explained_onStore (StoreM.raises_alloc _ _)).bind fun object => ?_
    refine (explained_onStore (StoreM.raises_replace _ _)).bind fun _ => ?_
    refine Accounts.bind (explained_modify fun _ => ⟨rfl, rfl, rfl⟩) fun _ => ?_
    exact (explained_construct cls object resume).bind fun _ => accounts_pure _

theorem explained_newArray (target : Slot) (element : ElementKind) (len : Nat) :
    Explained c (newArray target element len) :=
  (explained_onStore (StoreM.raises_allocArray element len)).bind fun _ =>
    (explained_onStore (StoreM.raises_write _ _)).bind fun _ => accounts_pure _

theorem explained_newInstance (target : Slot) (cls : Class) (resume : Resume) :
    Explained c (newInstance target cls resume) :=
  (explained_onStore (StoreM.raises_alloc _ _)).bind fun object =>
    (explained_onStore (StoreM.raises_write _ _)).bind fun _ =>
      explained_construct cls object resume

theorem explained_bindModule (target : Slot) (file : String) :
    Explained c (bindModule target file) :=
  (explained_onLinkage (LinkM.traces_requireFile file)).bind fun module =>
    (explained_module module).bind fun _ =>
      (explained_topInstance module _).bind fun _ => accounts_pure _

theorem explained_newNamed (f : Frame) (target : Slot) (size : Nat) (name : String) :
    Explained c (newNamed f target size name) := by
  unfold newNamed
  refine (explained_ask fun m => (Simple.raises_module m.registry f.module).map _).bind
    fun qualified => ?_
  refine (explained_onLinkage (LinkM.traces_findClass qualified)).bind fun cls => ?_
  split
  · exact explained_newInstance target cls .proceed
  · exact explained_newArray target _ size

theorem explained_newLike (target typeSlot : Slot) (size : Nat) :
    Explained c (newLike target typeSlot size) :=
  (explained_ask fun _ => Store.raises_originCell typeSlot).bind fun _ =>
    explained_newArray target _ size

/-- The allocating instruction, which may load a file for a class or for a module. -/
theorem explained_new (f : Frame) {i : Instruction} (hi : i.opcode.arity = .fixed 3) :
    Explained c (new f i) := by
  unfold new
  refine (explained_check (Instruction.raises_exactly hi)).bind fun operands => ?_
  dsimp only
  refine (explained_onStore (StoreM.raises_readUInt64 _)).bind fun size => ?_
  split
  · exact explained_newArray _ _ _
  · refine (explained_ask fun _ => Store.raises_value _).bind fun v => ?_
    split
    · refine (explained_ask fun _ => raises_topLevelFile? _).bind fun file => ?_
      split
      · exact explained_bindModule _ _
      · split
        · exact explained_newLike _ _ _
        · exact explained_newNamed f _ _ _
    · exact explained_newLike _ _ _

theorem explained_array (f : Frame) {i : Instruction} (hi : i.opcode.arity = .fixed 3) :
    Explained c (array f i) := by
  unfold array
  refine (explained_check (Instruction.raises_exactly hi)).bind fun operands => ?_
  dsimp only
  refine (explained_ask fun _ => Store.raises_array _).bind fun a => ?_
  refine (explained_onStore (StoreM.raises_readLong _)).bind fun index => ?_
  refine (explained_atWork (StoreM.raises_reachElement a index)).bind fun element => ?_
  split
  · exact (explained_perform _).bind fun _ => accounts_pure _
  · exact (explained_onLinkage (LinkM.traces_findClass _)).bind fun cls =>
      explained_newInstance _ cls _

theorem explained_receiver (f : Frame) (operand : UInt64) :
    Explained c (receiver f operand) := by
  unfold receiver
  split
  · split
    · exact accounts_pure _
    · exact explained_throw Bool.false_ne_true
  · exact explained_ask fun _ => Store.raises_object _

theorem explained_loadMember (f : Frame) {i : Instruction} (hi : i.opcode.arity = .fixed 3) :
    Explained c (loadMember f i) := by
  unfold loadMember
  refine (explained_check (Instruction.raises_exactly hi)).bind fun operands => ?_
  refine (explained_receiver f _).bind fun object => ?_
  refine (explained_ask fun _ => Store.raises_text _).bind fun member => ?_
  refine (explained_ask fun _ => Store.raises_text _).bind fun className => ?_
  refine (explained_onLinkage (LinkM.traces_findClass className)).bind fun cls => ?_
  split
  · exact explained_throw Bool.false_ne_true
  · exact (explained_perform _).bind fun _ => accounts_pure _

theorem explained_callNative {native : Native} (h : native.Fair) (name : String)
    (args : List Slot) : Explained c (callNative name native args) := by
  unfold callNative
  refine (explained_ask fun _ => raises_checkArity native name args.length).bind fun _ => ?_
  refine accounts_get_bind fun m _ => ?_
  exact (explained_onWorld h m.depth args).bind fun _ => accounts_pure _

/-- Calling a free function. If a file is asked for in vain, the fault is that there is no function,
so that it is none of loading. -/
theorem explained_invoke (f : Frame) {i : Instruction} (hi : i.opcode.arity = .counted 2) :
    Explained c (invoke f i) := by
  unfold invoke
  refine (explained_check (raises_callSlots hi)).bind fun slots => ?_
  refine (explained_ask fun _ => Store.raises_text _).bind fun name => ?_
  dsimp only
  refine accounts_get_bind fun m hm => ?_
  split
  · rename_i native hnative
    exact explained_callNative (hm.natives name native hnative) name _
  · have hmissing : (functionNotFound name).Own := Bool.false_ne_true
    have htop : Explained c ((onLinkage (LinkM.topClass f.module)).adaptExcept
        fun _ => functionNotFound name) := by
      intro m₁ hm₁
      apply (explained_onLinkage (LinkM.traces_topClass f.module) m₁ hm₁).adaptExcept
      rintro e m₂ ⟨hm₂, -⟩
      exact ⟨hm₂, Surroundings.explains_of_own hmissing m₂⟩
    refine htop.bind fun cls => ?_
    split
    · exact explained_throw Bool.false_ne_true
    · refine (explained_module cls.module).bind fun owner => ?_
      exact (explained_call _ _ _ _ _).bind fun _ => accounts_pure _

theorem explained_invokeMethod (f : Frame) {i : Instruction} (hi : i.opcode.arity = .counted 3) :
    Explained c (invokeMethod f i) := by
  unfold invokeMethod
  refine (explained_check (raises_callSlots hi)).bind fun slots => ?_
  refine (explained_ask fun _ => Store.raises_text _).bind fun name => ?_
  dsimp only
  refine accounts_get_bind fun m hm => ?_
  split
  · rename_i native hnative
    exact explained_callNative (hm.natives name native hnative) name _
  · refine (explained_receiver f _).bind fun object => ?_
    refine (explained_ask fun _ => Store.raises_text _).bind fun className => ?_
    refine (explained_onLinkage (LinkM.traces_findClass className)).bind fun cls => ?_
    split
    · exact explained_throw Bool.false_ne_true
    · exact (explained_call _ _ _ _ _).bind fun _ => accounts_pure _

/-- The load faults of an instruction can be explained. -/
theorem explained_execute (f : Frame) (i : Instruction) : Explained c (execute f i) := by
  have harity : ∀ {opcode : Opcode} {a : Arity}, i.opcode = opcode → opcode.arity = a →
      i.opcode.arity = a := fun hopcode h => hopcode ▸ h
  unfold execute
  split
  · rename_i h
    exact explained_new f (harity h rfl)
  · rename_i h
    exact explained_array f (harity h rfl)
  · rename_i h
    exact explained_loadMember f (harity h rfl)
  · rename_i h
    exact explained_invoke f (harity h rfl)
  · rename_i h
    exact explained_invokeMethod f (harity h rfl)
  · refine accounts_get_bind fun m _ => explained_onStore_of_own ?_
    exact (Simple.raises_execute m.registry f i).mono fun _ => Simple.Fails.own

theorem explained_setIp (next : Frame → Nat) : Explained c (setIp next) := by
  unfold setIp
  apply explained_modify
  intro m
  split <;> exact ⟨rfl, rfl, rfl⟩

theorem explained_follow (f : Frame) (flow : Flow) : Explained c (follow f flow) := by
  cases flow with
  | next => exact explained_setIp _
  | jump target =>
    rw [follow]
    split
    · exact explained_setIp _
    · exact explained_throw Bool.false_ne_true
  | enter => exact accounts_pure _

theorem explained_leave (f : Frame) : Explained c (leave f) :=
  Accounts.bind (explained_modify fun _ => ⟨rfl, rfl, rfl⟩) fun _ =>
    (explained_onStore (raises_copyBack f)).bind fun _ =>
      (explained_perform f.resume).bind fun _ => explained_setIp _

/-- The load faults of a step can be explained. -/
theorem explained_step : Explained c step := by
  unfold step
  refine accounts_get_bind fun m _ => ?_
  split
  · exact explained_throw Bool.false_ne_true
  · rename_i f others hframes
    split
    · exact explained_leave f
    · rename_i i hcode
      exact (explained_execute f i).bind fun flow => explained_follow f flow

end MachineM

namespace Machine

open SlotMachine.Action MachineM

variable {c : Surroundings}

theorem explained_prepare : Explained c prepare := by
  unfold prepare
  refine accounts_get_bind fun m _ => ?_
  split
  · exact explained_throw Bool.false_ne_true
  · exact (explained_topInstance _ .proceed).bind fun _ => accounts_pure _

theorem explained_entry (module : ModuleId) : Explained c (entry module) := by
  unfold entry
  refine (explained_onLinkage (LinkM.traces_topClass module)).bind fun cls => ?_
  split
  · exact accounts_pure _
  · exact explained_throw Bool.false_ne_true

end Machine

end SlotMachine
