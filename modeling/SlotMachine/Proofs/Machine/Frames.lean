import SlotMachine.Machine.Run
import SlotMachine.Proofs.Machine.Faults
import SlotMachine.Proofs.Machine.Sound
import Mathlib.Tactic.Common

/-!
# What an instruction does to the frames

Whatever else an instruction does, it either leaves the frames as they are or begins one call of a
function that the registry provides, and then there was room for it. An instruction that fails
leaves the frames as they are, and its fault is one that may arise in a machine with that source of
modules and those native functions, or says that the instruction lacks operands.
-/

namespace SlotMachine

open SlotMachine.Action Fault

namespace Machine

/-- Two states of one machine: what no program changes is the same. -/
structure OnStage (m m' : Machine) : Prop where
  /-- The native functions stay. -/
  natives : m'.natives = m.natives
  /-- The settings stay. -/
  settings : m'.settings = m.settings
  /-- The source of modules stays. -/
  fetch : m'.registry.source.fetch = m.registry.source.fetch
  /-- Functions come from where they came from. -/
  provides : ∀ {f : Function}, m'.registry.Provides f → m.registry.Provides f

/-- The frames are the same besides. -/
structure Stays (m m' : Machine) : Prop extends m.OnStage m' where
  /-- The frames stay. -/
  frames : m'.frames = m.frames

/-- One call has been begun, for which there was room. -/
structure Enters (m : Machine) (callee : Frame) (m' : Machine) : Prop extends m.OnStage m' where
  /-- There is one more frame. -/
  frames : m'.frames = callee :: m.frames
  /-- The limit was not reached. -/
  room : m.depth < m.settings.maxCallDepth

/-- A call of a function that is provided has been begun and is at its first instruction. -/
def EntersSome (m m' : Machine) : Prop :=
  ∃ callee, callee.ip = 0 ∧ m.registry.Provides callee.function ∧ m.Enters callee m'

/-- What holds where an instruction leads. -/
def Led (m : Machine) (flow : Flow) (m' : Machine) : Prop :=
  m.Stays m' ∨ flow = .enter ∧ m.EntersSome m'

/-- A fault that may arise whatever instructions are executed: while a program is at work, from
loading, or because the source of modules or a native function answers with it. -/
def MayRaise (m : Machine) (e : Fault) : Prop :=
  e.Arises m.registry.source.fetch ∨ m.natives.Raises e

/-- What holds where an action fails. -/
structure Fails (m : Machine) (e : Fault) (m' : Machine) : Prop where
  /-- The frames stay. -/
  stays : m.Stays m'
  /-- The fault is one that may arise. -/
  raised : m.MayRaise e

/-- What holds where an instruction fails. -/
structure FailsAt (m : Machine) (i : Instruction) (e : Fault) (m' : Machine) : Prop where
  /-- The frames stay. -/
  stays : m.Stays m'
  /-- The fault is one that may arise, or says that the instruction lacks operands. -/
  raised : m.MayRaise e ∨ i.Miscounts e

variable {m m' : Machine}

/-- A machine stands on its own stage. -/
theorem OnStage.refl (m : Machine) : m.OnStage m :=
  ⟨rfl, rfl, rfl, id⟩

theorem Stays.refl (m : Machine) : m.Stays m :=
  ⟨OnStage.refl m, rfl⟩

/-- A fault of running a program, raised where the frames are as they were. -/
theorem Stays.fails (h : m.Stays m') {e : Fault} (he : e.Run) : m.Fails e m' :=
  ⟨h, .inl (.inl (.inl he))⟩

/-- What is wrong whatever the instruction is wrong with the instruction at hand. -/
theorem Fails.at {e : Fault} (h : m.Fails e m') (i : Instruction) : m.FailsAt i e m' :=
  ⟨h.stays, .inl h.raised⟩

/-- All methods of the class are provided. -/
def Backs (m : Machine) (cls : Class) : Prop :=
  ∀ f ∈ cls.methods, m.registry.Provides f

/-- A method that is found in such a class is provided. -/
theorem Backs.method {cls : Class} (h : m.Backs cls) {name : String} {f : Function}
    (hf : cls.method? name = some f) : m.registry.Provides f :=
  h f (List.mem_reverse.mp (List.mem_of_find?_eq_some hf))

end Machine

namespace MachineM

variable {α : Type} {m₀ m : Machine} {f : Frame}

/-- In the course of what was begun by one machine, the action leaves the frames as they are, also
if it fails. -/
def Quiet (m₀ : Machine) (x : MachineM α) (m : Machine) : Prop :=
  Ends x m (fun _ m' => m₀.Stays m') m₀.Fails

theorem quiet_pure (hm : m₀.Stays m) (a : α) : Quiet m₀ (pure a) m :=
  ends_pure hm

theorem ends_fault (hm : m₀.Stays m) {e : Fault} (he : e.Run) {P : α → Machine → Prop} :
    Ends (throw e : MachineM α) m P m₀.Fails :=
  ends_throw (hm.fails he)

/-- Asking a question about the machine. -/
theorem quiet_ask (hm : m₀.Stays m) {question : Machine → Except Fault α}
    (h : Answer.Raises Run (question m)) : Quiet m₀ (ask question) m := by
  unfold Quiet Ends ask
  cases hq : question m with
  | ok a => exact hm
  | error e => exact hm.fails (h e hq)

/-- An action on the store leaves the frames as they are and fails as it does. -/
theorem ends_onStore (hm : m₀.Stays m) {kind : Fault → Prop} {action : StoreM α}
    (h : Raises kind action) :
    Ends (onStore action) m (fun _ m' => m₀.Stays m') fun e m' => m₀.Stays m' ∧ kind e := by
  have hstays : ∀ s : Store, m₀.Stays (m.withLinkage ⟨m.registry, s⟩) :=
    fun _ => ⟨⟨hm.natives, hm.settings, hm.fetch, hm.provides⟩, hm.frames⟩
  unfold Ends
  rw [onStore_eq]
  cases haction : action m.store with
  | ok a s => exact hstays s
  | error e s => exact ⟨hstays s, h _ _ _ haction⟩

/-- An action on the store that fails as programs do at work. -/
theorem quiet_atWork (hm : m₀.Stays m) {action : StoreM α} (h : Raises AtWork action) :
    Quiet m₀ (onStore action) m := by
  apply (ends_onStore hm h).mono fun _ _ hstays => hstays
  rintro e m' ⟨hstays, he⟩
  exact ⟨hstays, .inl (.inl he)⟩

/-- An action on the store that fails with run faults. -/
theorem quiet_onStore (hm : m₀.Stays m) {action : StoreM α} (h : Raises Run action) :
    Quiet m₀ (onStore action) m :=
  quiet_atWork hm h.atWork

/-- Linking, which may besides fail as its source does. -/
theorem ends_onLinkage (hm : m₀.Stays m) {action : LinkM α} {P : α → Linkage → Prop}
    (h : LinkM.Heeds action P) :
    Ends (onLinkage action) m (fun a m' => m₀.Stays m' ∧ P a m'.linkage) m₀.Fails := by
  have hstays : ∀ l : Linkage, m.linkage.Leads l → m₀.Stays (m.withLinkage l) := by
    intro l hleads
    exact ⟨⟨hm.natives, hm.settings, hleads.fetch.trans hm.fetch,
      fun hf => hm.provides (hleads.provides hf)⟩, hm.frames⟩
  have hl := h m.linkage
  unfold Ends
  rw [onLinkage_eq]
  cases haction : action m.linkage with
  | ok a l =>
    obtain ⟨hleads, ha⟩ := hl.of_ok haction
    exact ⟨hstays l hleads, ha⟩
  | error e l =>
    obtain ⟨hleads, he⟩ := hl.of_error haction
    refine ⟨hstays l hleads, .inl ?_⟩
    rw [← hm.fetch]
    exact he

theorem quiet_requireFile (hm : m₀.Stays m) (file : String) :
    Quiet m₀ (onLinkage (LinkM.requireFile file)) m :=
  (ends_onLinkage hm (LinkM.heeds_requireFile file)).mono (fun _ _ h => h.1) fun _ _ h => h

/-- Looking for a class gives one whose methods are provided. -/
theorem ends_classLookup (hm : m₀.Stays m) {action : LinkM Class}
    (h : LinkM.Heeds action LinkM.Lists) :
    Ends (onLinkage action) m (fun cls m' => m₀.Stays m' ∧ m₀.Backs cls) m₀.Fails := by
  apply (ends_onLinkage hm h).mono _ fun _ _ h => h
  rintro cls m' ⟨hstays, name, hcls⟩
  exact ⟨hstays, fun f hf => hstays.provides (.inl ⟨name, cls, hcls, hf⟩)⟩

/-- Doing what a caller does once its call has returned. -/
theorem quiet_perform (hm : m₀.Stays m) (resume : Resume) : Quiet m₀ (perform resume) m := by
  cases resume with
  | proceed => exact quiet_pure hm ()
  | bind result target => exact quiet_onStore hm (StoreM.raises_bind result target .mutable)

theorem quiet_module (hm : m₀.Stays m) (id : ModuleId) :
    Quiet m₀ (ask fun m => m.registry.module id) m :=
  quiet_ask hm (Simple.raises_module m.registry id)

/-- Beginning a call pushes its frame, unless the arguments do not fit or there is no room. -/
theorem ends_call (hm : m₀.Stays m) (module : ModuleId) (function : Function)
    (receiver : Option HeapId) (args : List Slot) (resume : Resume) :
    Ends (call module function receiver args resume) m (fun _ m' => ∃ heap,
      m₀.Enters ⟨module, heap, receiver, function, 0, args.head?, resume⟩ m') m₀.Fails := by
  unfold call
  apply ends_get_bind
  apply ends_get_bind
  dsimp only
  split
  · exact ends_of_error rfl (hm.fails rfl)
  · rename_i hroom
    apply (quiet_module hm module).bind
    intro loaded m₁ hm₁
    apply (quiet_atWork hm₁ (StoreM.raises_pass loaded.heap function args)).bind
    intro _ m₂ hm₂
    apply ends_modify
    have hdepth : m₀.depth < m₀.settings.maxCallDepth := by
      rw [Machine.depth, hm.frames, hm.settings] at hroom
      exact Nat.lt_of_not_le hroom
    have hframes := congrArg
      (List.cons (⟨module, loaded.heap, receiver, function, 0, args.head?, resume⟩ : Frame))
      hm₂.frames
    exact ⟨loaded.heap, ⟨hm₂.natives, hm₂.settings, hm₂.fetch, hm₂.provides⟩, hframes, hdepth⟩

theorem enters_call (hm : m₀.Stays m) {function : Function}
    (hfunction : m₀.registry.Provides function) (module : ModuleId) (receiver : Option HeapId)
    (args : List Slot) (resume : Resume) :
    Ends (call module function receiver args resume) m (fun _ m' => m₀.EntersSome m')
      m₀.Fails := by
  apply (ends_call hm module function receiver args resume).mono _ fun _ _ h => h
  rintro _ m' ⟨heap, henters⟩
  exact ⟨_, rfl, hfunction, henters⟩

/-- Beginning a call without arguments. -/
theorem enters_callBare (hm : m₀.Stays m) {function : Function}
    (hfunction : m₀.registry.Provides function) (module : ModuleId) (receiver : HeapId)
    (resume : Resume) :
    Ends (callBare module function receiver resume) m (fun _ m' => m₀.EntersSome m')
      m₀.Fails := by
  unfold callBare
  split
  · exact enters_call hm hfunction module _ _ resume
  · apply (quiet_onStore hm (StoreM.raises_replace _ _)).bind
    intro _ m₁ hm₁
    exact enters_call hm₁ hfunction module _ _ resume

/-- What is done without a call, before the program goes on with its next instruction. -/
theorem led_next {x : MachineM α} (hx : Quiet m₀ x m) :
    Ends (do let _ ← x; pure Flow.next) m m₀.Led m₀.Fails := by
  apply hx.bind
  intro _ m' hm'
  exact ends_pure (.inl hm')

/-- A call that is begun, before the program goes on with the callee. -/
theorem led_enter {x : MachineM Unit} (hx : Ends x m (fun _ m' => m₀.EntersSome m') m₀.Fails) :
    Ends (do x; pure Flow.enter) m m₀.Led m₀.Fails := by
  apply hx.bind
  intro _ m' hm'
  exact ends_pure (.inr ⟨rfl, hm'⟩)

/-- Beginning the constructor of a class, if it has one. -/
theorem led_construct (hm : m₀.Stays m) {cls : Class} (hcls : m₀.Backs cls) (object : HeapId)
    (resume : Resume) : Ends (construct cls object resume) m m₀.Led m₀.Fails := by
  unfold construct
  split
  · rename_i constructor hfound
    exact led_enter (enters_callBare hm (hcls.method hfound) _ object resume)
  · exact led_next (quiet_perform hm resume)

/-- Beginning to make the instance of a module's top-level class, unless there is one. -/
theorem led_topInstance (hm : m₀.Stays m) (module : ModuleId) (resume : Resume) :
    Ends (topInstance module resume) m (fun made m' => m₀.Led made.2 m') m₀.Fails := by
  unfold topInstance
  apply (quiet_module hm module).bind
  intro loaded m₁ hm₁
  split
  · apply (quiet_perform hm₁ resume).bind
    intro _ m₂ hm₂
    exact ends_pure (.inl hm₂)
  · apply (ends_classLookup hm₁ (LinkM.heeds_topClass module)).bind
    rintro cls m₂ ⟨hm₂, hcls⟩
    apply (quiet_onStore hm₂ (StoreM.raises_extend _ _)).bind
    intro _ m₃ hm₃
    apply (quiet_onStore hm₃ (StoreM.raises_alloc _ _)).bind
    intro object m₄ hm₄
    apply (quiet_onStore hm₄ (StoreM.raises_replace _ _)).bind
    intro _ m₅ hm₅
    have hnote : Quiet m₀ (modify fun m : Machine =>
        { m with registry := m.registry.setTopInstance module object }) m₅ :=
      ends_modify ⟨⟨hm₅.natives, hm₅.settings, hm₅.fetch, hm₅.provides⟩, hm₅.frames⟩
    apply hnote.bind
    intro _ m₆ hm₆
    apply (led_construct hm₆ hcls object resume).bind
    intro flow m₇ hm₇
    exact ends_pure hm₇

/-- Allocating an array. -/
theorem led_newArray (hm : m₀.Stays m) (target : Slot) (element : ElementKind) (len : Nat) :
    Ends (newArray target element len) m m₀.Led m₀.Fails := by
  unfold newArray
  apply (quiet_onStore hm (StoreM.raises_allocArray element len)).bind
  intro a m₁ hm₁
  exact led_next (quiet_onStore hm₁ (StoreM.raises_write _ _))

/-- Allocating an instance and beginning its constructor. -/
theorem led_newInstance (hm : m₀.Stays m) (target : Slot) {cls : Class} (hcls : m₀.Backs cls)
    (resume : Resume) : Ends (newInstance target cls resume) m m₀.Led m₀.Fails := by
  unfold newInstance
  apply (quiet_onStore hm (StoreM.raises_alloc _ _)).bind
  intro object m₁ hm₁
  apply (quiet_onStore hm₁ (StoreM.raises_write _ _)).bind
  intro _ m₂ hm₂
  exact led_construct hm₂ hcls object resume

/-- Binding a slot to the instance of another module's top-level class. -/
theorem led_bindModule (hm : m₀.Stays m) (target : Slot) (file : String) :
    Ends (bindModule target file) m m₀.Led m₀.Fails := by
  unfold bindModule
  apply (quiet_requireFile hm file).bind
  intro module m₁ hm₁
  apply (quiet_module hm₁ module).bind
  intro loaded m₂ hm₂
  apply (led_topInstance hm₂ module _).bind
  intro made m₃ hm₃
  exact ends_pure hm₃

/-- Allocating what a class name asks for. -/
theorem led_newNamed (hm : m₀.Stays m) (f : Frame) (target : Slot) (size : Nat) (name : String) :
    Ends (newNamed f target size name) m m₀.Led m₀.Fails := by
  unfold newNamed
  apply (quiet_ask hm ((Simple.raises_module m.registry f.module).map _)).bind
  intro qualified m₁ hm₁
  apply (ends_classLookup hm₁ (LinkM.heeds_findClass qualified)).bind
  rintro cls m₂ ⟨hm₂, hcls⟩
  split
  · exact led_newInstance hm₂ target hcls .proceed
  · exact led_newArray hm₂ target _ size

/-- Allocating an array of elements of the type of a slot. -/
theorem led_newLike (hm : m₀.Stays m) (target typeSlot : Slot) (size : Nat) :
    Ends (newLike target typeSlot size) m m₀.Led m₀.Fails := by
  unfold newLike
  apply (quiet_ask hm (Store.raises_originCell typeSlot)).bind
  intro c m₁ hm₁
  exact led_newArray hm₁ target _ size

theorem raises_topLevelFile? (name : String) : Answer.Raises Run (topLevelFile? name) := by
  unfold topLevelFile?
  split
  · exact (LinkM.raises_splitClassName name).map _
  · exact Answer.raises_ok _

/-- An instruction checks its operands before it does anything else. -/
theorem led_checked (hm : m₀.Stays m) {i : Instruction} {check : Except Fault α}
    {next : α → MachineM Flow} (hcheck : Answer.Raises i.Miscounts check)
    (hnext : ∀ a m', m₀.Stays m' → Ends (next a) m' m₀.Led m₀.Fails) :
    Ends (ask (fun _ => check) >>= next) m m₀.Led (m₀.FailsAt i) := by
  have hask : Ends (ask fun _ => check) m (fun _ m' => m₀.Stays m') (m₀.FailsAt i) := by
    unfold Ends ask
    cases hanswer : check with
    | ok a => exact hm
    | error e => exact ⟨hm, .inr (hcheck e hanswer)⟩
  apply hask.bind
  intro a m' hm'
  exact (hnext a m' hm').mono (fun _ _ h => h) fun _ _ h => h.at i

/-- The allocating instruction. -/
theorem led_new (hm : m₀.Stays m) (f : Frame) {i : Instruction} (hi : i.opcode.arity = .fixed 3) :
    Ends (new f i) m m₀.Led (m₀.FailsAt i) := by
  unfold new
  apply led_checked hm (Instruction.raises_exactly hi)
  intro operands m₁ hm₁
  dsimp only
  apply (quiet_onStore hm₁ (StoreM.raises_readUInt64 _)).bind
  intro size m₂ hm₂
  split
  · exact led_newArray hm₂ _ .untyped _
  · apply (quiet_ask hm₂ (Store.raises_value _)).bind
    intro v m₃ hm₃
    split
    · apply (quiet_ask hm₃ (raises_topLevelFile? _)).bind
      intro file m₄ hm₄
      split
      · exact led_bindModule hm₄ _ _
      · split
        · exact led_newLike hm₄ _ _ _
        · exact led_newNamed hm₄ f _ _ _
    · exact led_newLike hm₃ _ _ _

/-- Reaching an array element, which may have to be made. -/
theorem led_array (hm : m₀.Stays m) (f : Frame) {i : Instruction} (hi : i.opcode.arity = .fixed 3) :
    Ends (array f i) m m₀.Led (m₀.FailsAt i) := by
  unfold array
  apply led_checked hm (Instruction.raises_exactly hi)
  intro operands m₁ hm₁
  dsimp only
  apply (quiet_ask hm₁ (Store.raises_array _)).bind
  intro a m₂ hm₂
  apply (quiet_onStore hm₂ (StoreM.raises_readLong _)).bind
  intro index m₃ hm₃
  apply (quiet_atWork hm₃ (StoreM.raises_reachElement a index)).bind
  intro element m₄ hm₄
  split
  · exact led_next (quiet_perform hm₄ _)
  · rename_i slot className
    apply (ends_classLookup hm₄ (LinkM.heeds_findClass className)).bind
    rintro cls m₅ ⟨hm₅, hcls⟩
    exact led_newInstance hm₅ slot hcls _

/-- Finding the receiver. -/
theorem quiet_receiver (hm : m₀.Stays m) (f : Frame) (operand : UInt64) :
    Quiet m₀ (receiver f operand) m := by
  unfold receiver
  split
  · split
    · exact quiet_pure hm _
    · exact ends_fault hm rfl
  · exact quiet_ask hm (Store.raises_object _)

/-- Binding a slot to a member. -/
theorem led_loadMember (hm : m₀.Stays m) (f : Frame) {i : Instruction}
    (hi : i.opcode.arity = .fixed 3) : Ends (loadMember f i) m m₀.Led (m₀.FailsAt i) := by
  unfold loadMember
  apply led_checked hm (Instruction.raises_exactly hi)
  intro operands m₁ hm₁
  apply (quiet_receiver hm₁ f _).bind
  intro object m₂ hm₂
  apply (quiet_ask hm₂ (Store.raises_text _)).bind
  intro member m₃ hm₃
  apply (quiet_ask hm₃ (Store.raises_text _)).bind
  intro className m₄ hm₄
  apply (ends_classLookup hm₄ (LinkM.heeds_findClass className)).bind
  rintro cls m₅ ⟨hm₅, -⟩
  split
  · exact ends_fault hm₅ rfl
  · exact led_next (quiet_perform hm₅ _)

theorem raises_callSlots {i : Instruction} {leading : Nat}
    (hi : i.opcode.arity = .counted leading) :
    Answer.Raises i.Miscounts (callSlots i leading) := by
  intro e he
  rw [Instruction.Miscounts, hi]
  exact he

theorem raises_checkArity (native : Native) (name : String) (got : Nat) :
    Answer.Raises Run (native.checkArity name got) := by
  unfold Native.checkArity
  split
  · exact Answer.raises_ok _
  · exact Answer.raises_error rfl

/-- A native function works on store and sink. -/
theorem quiet_onWorld (hm : m₀.Stays m) {name : String} {native : Native}
    (hnative : m₀.natives.find? name = some native) (depth : Nat) (args : List Slot) :
    Quiet m₀ (onWorld (native.run depth args)) m := by
  unfold Quiet Ends
  rw [onWorld_eq]
  cases hrun : native.run depth args ⟨m.store, m.sink⟩ with
  | ok _ w => exact ⟨⟨hm.natives, hm.settings, hm.fetch, hm.provides⟩, hm.frames⟩
  | error e w =>
    exact ⟨⟨⟨hm.natives, hm.settings, hm.fetch, hm.provides⟩, hm.frames⟩,
      .inr ⟨name, native, hnative, depth, args, _, w, hrun⟩⟩

/-- Calling a native function, which pushes no frame. -/
theorem led_callNative (hm : m₀.Stays m) {name : String} {native : Native}
    (hnative : m.natives.find? name = some native) (args : List Slot) :
    Ends (callNative name native args) m m₀.Led m₀.Fails := by
  rw [hm.natives] at hnative
  unfold callNative
  apply (quiet_ask hm (raises_checkArity native name args.length)).bind
  intro _ m₁ hm₁
  apply ends_get_bind
  exact led_next (quiet_onWorld hm₁ hnative _ args)

/-- Calling a free function. Whatever its linking fails with, the fault is that there is no
function. -/
theorem led_invoke (hm : m₀.Stays m) (f : Frame) {i : Instruction}
    (hi : i.opcode.arity = .counted 2) : Ends (invoke f i) m m₀.Led (m₀.FailsAt i) := by
  unfold invoke
  apply led_checked hm (raises_callSlots hi)
  intro slots m₁ hm₁
  apply (quiet_ask hm₁ (Store.raises_text _)).bind
  intro name m₂ hm₂
  dsimp only
  apply ends_get_bind
  split
  · rename_i native hnative
    exact led_callNative hm₂ hnative _
  · have htop : Ends ((onLinkage (LinkM.topClass f.module)).adaptExcept
        fun _ => Fault.functionNotFound name) m₂ (fun cls m' => m₀.Stays m' ∧ m₀.Backs cls)
        m₀.Fails :=
      (ends_classLookup hm₂ (LinkM.heeds_topClass f.module)).adaptExcept
        fun _ _ h => h.stays.fails rfl
    apply htop.bind
    rintro cls m₃ ⟨hm₃, hcls⟩
    split
    · exact ends_fault hm₃ rfl
    · rename_i function hfound
      apply (quiet_module hm₃ cls.module).bind
      intro owner m₄ hm₄
      exact led_enter (enters_call hm₄ (hcls.method hfound) _ _ _ _)

/-- Calling a method. -/
theorem led_invokeMethod (hm : m₀.Stays m) (f : Frame) {i : Instruction}
    (hi : i.opcode.arity = .counted 3) : Ends (invokeMethod f i) m m₀.Led (m₀.FailsAt i) := by
  unfold invokeMethod
  apply led_checked hm (raises_callSlots hi)
  intro slots m₁ hm₁
  apply (quiet_ask hm₁ (Store.raises_text _)).bind
  intro name m₂ hm₂
  dsimp only
  apply ends_get_bind
  split
  · rename_i native hnative
    exact led_callNative hm₂ hnative _
  · apply (quiet_receiver hm₂ f _).bind
    intro object m₃ hm₃
    apply (quiet_ask hm₃ (Store.raises_text _)).bind
    intro className m₄ hm₄
    apply (ends_classLookup hm₄ (LinkM.heeds_findClass className)).bind
    rintro cls m₅ ⟨hm₅, hcls⟩
    split
    · exact ends_fault hm₅ rfl
    · rename_i method hfound
      exact led_enter (enters_call hm₅ (hcls.method hfound) _ _ _ _)

/-- A simple instruction. -/
theorem led_simple (hm : m₀.Stays m) (f : Frame) (i : Instruction) :
    Ends (onStore (Simple.execute m.registry f i)) m m₀.Led (m₀.FailsAt i) := by
  apply (ends_onStore hm (Simple.raises_execute m.registry f i)).mono fun _ _ h => .inl h
  rintro e m' ⟨hstays, hrun | hmiscounts⟩
  · exact (hstays.fails hrun).at i
  · exact ⟨hstays, .inr hmiscounts⟩

/-- An instruction leaves the frames as they are or begins one call. -/
theorem led_execute (hm : m₀.Stays m) (f : Frame) (i : Instruction) :
    Ends (execute f i) m m₀.Led (m₀.FailsAt i) := by
  have harity : ∀ {opcode : Opcode} {a : Arity}, i.opcode = opcode → opcode.arity = a →
      i.opcode.arity = a := fun hopcode h => hopcode ▸ h
  unfold execute
  split
  · rename_i h
    exact led_new hm f (harity h rfl)
  · rename_i h
    exact led_array hm f (harity h rfl)
  · rename_i h
    exact led_loadMember hm f (harity h rfl)
  · rename_i h
    exact led_invoke hm f (harity h rfl)
  · rename_i h
    exact led_invokeMethod hm f (harity h rfl)
  · apply ends_get_bind
    exact led_simple hm f i

end MachineM

end SlotMachine
