import SlotMachine.Proofs.Machine.Moves
import Mathlib.Tactic.Common

/-!
# Instructions as moves

Every instruction is a number of moves, and so is every step. Only the instruction that allocates
may note an instance. For the calls that a step begins, this file says besides which function is
called, in which module and on which instance.
-/

namespace SlotMachine

open Discipline

namespace Machine

variable {m m' : Machine}

/-- A call has begun in a module: its frame is new, and it works in the heap of the module. -/
structure Begins (m : Machine) (module : ModuleId) (function : Function)
    (receiver : Option HeapId) (m' : Machine) : Prop where
  /-- The registry stays. -/
  registry : m'.registry = m.registry
  /-- The program stays. -/
  program : m'.program = m.program
  /-- There is one more frame. -/
  frames : ∃ f, m'.frames = f :: m.frames ∧ f.module = module ∧ f.function = function ∧
    f.receiver = receiver ∧ m.registry.modules[module]?.map LoadedModule.heap = some f.heap

/-- A call begins as it would have begun before store and sink changed. -/
theorem Begins.of_acts {m₁ : Machine} {module : ModuleId} {function : Function}
    {receiver : Option HeapId} (hacts : m.Acts m₁) (h : m₁.Begins module function receiver m') :
    m.Begins module function receiver m' := by
  refine ⟨h.registry.trans hacts.registry, h.program.trans hacts.program, ?_⟩
  rw [← hacts.frames, ← hacts.registry]
  exact h.frames

/-- A call of a method of a known class begins by moves. -/
theorem Begins.evolves {module : ModuleId} {function : Function} {receiver : Option HeapId}
    (h : m.Begins module function receiver m') (hoffers : m.registry.Offers module function) :
    motion.Evolves m m' := by
  obtain ⟨f, hframes, rfl, rfl, -, hheap⟩ := h.frames
  have hacts : m.Acts { m' with frames := m.frames } := ⟨h.registry, rfl, h.program⟩
  have hadmits : Admits { m' with frames := m.frames } f := by
    rw [← h.registry] at hoffers hheap
    exact ⟨hoffers, hheap⟩
  have henters : Move { m' with frames := m.frames } m' := by
    have hlast := Move.enters hadmits
    rw [← hframes] at hlast
    exact hlast
  exact .head (.acts hacts) (.single henters)

/-- The constructor of a class has begun on an instance, if the class has one. -/
structure Constructs (m : Machine) (cls : Class) (object : HeapId) (m' : Machine) : Prop where
  /-- The registry stays. -/
  registry : m'.registry = m.registry
  /-- There is a new frame, or the frames stay. -/
  begun : match cls.method? Image.constructor with
    | some constructor => m.Begins cls.module constructor (some object) m'
    | none => m.Acts m'

/-- A module has the instance of its top-level class. -/
inductive Furnishes (m : Machine) (module : ModuleId) (object : HeapId) (m' : Machine) : Prop where
  /-- It had it before. -/
  | had : m.registry.topInstance? module = some object → m.Acts m' → Furnishes m module object m'
  /-- It had none, and the one that is made is about to be constructed. -/
  | made {name : String} {cls : Class} {noted : Machine} :
      m.registry.topInstance? module = none →
      m.registry.qualifiedIn module Image.topClass = .ok name →
      noted.registry.topInstance? module = some object → noted.registry.class? name = some cls →
      noted.frames = m.frames → noted.Constructs cls object m' → Furnishes m module object m'

/-- It is the one that is noted. -/
theorem Furnishes.topInstance_eq {module : ModuleId} {object : HeapId}
    (h : m.Furnishes module object m') : m'.registry.topInstance? module = some object := by
  cases h with
  | had hhad hacts =>
    rw [hacts.registry]
    exact hhad
  | made _ _ hnoted _ _ hconstructs =>
    rw [hconstructs.registry]
    exact hnoted

/-- The machine has called a free function for a frame: a method of the class that is known as the
top-level class of the frame's module, in the module of that class and on its instance. -/
inductive Invokes (m : Machine) (f : Frame) (m' : Machine) : Prop where
  /-- The class has been found, and then the call has begun. -/
  | intro {top name : String} {cls : Class} {function : Function} {owner : LoadedModule}
      {found : Machine} : m.registry.qualifiedIn f.module Image.topClass = .ok top →
      found.registry.class? top = some cls → cls.method? name = some function →
      found.registry.modules[cls.module]? = some owner → found.frames = m.frames →
      found.Begins cls.module function owner.topInstance m' → Invokes m f m'

end Machine

section Motion

open Machine

variable {α β : Type} {m : Machine} {x : MachineM α} {f : α → MachineM β} {P : α → Machine → Prop}
  {Q : β → Machine → Prop}

/-- What is done by moves without a note is done by moves. -/
theorem Discipline.Keeps.progresses (h : motion.Keeps x m P) : progress.Keeps x m P := by
  unfold Keeps at h ⊢
  cases hx : x m with
  | ok a m' =>
    rw [hx] at h
    exact ⟨trivial, progress_of_motion h.2.1, h.2.2⟩
  | error e m' =>
    rw [hx] at h
    exact ⟨trivial, progress_of_motion h.2⟩

/-- Moves without a note come first, and any moves follow. -/
theorem Discipline.Keeps.progress_bind (hx : motion.Keeps x m P)
    (hf : ∀ a m', motion.Evolves m m' → P a m' → progress.Keeps (f a) m' Q) :
    progress.Keeps (x >>= f) m Q := by
  unfold Keeps at hx ⊢
  cases hxm : x m with
  | error e m' =>
    rw [hxm] at hx
    rw [Action.bind_of_error hxm]
    exact ⟨trivial, progress_of_motion hx.2⟩
  | ok a m' =>
    rw [hxm] at hx
    have hnext := Keeps.of_eq (Action.bind_of_ok hxm) (progress_of_motion hx.2.1)
      (hf a m' hx.2.1 hx.2.2)
    exact hnext

end Motion

namespace MachineM

open Machine

variable {α β : Type} {m : Machine} {d : Discipline Machine}

/-- An action obeys a discipline if the states in which it may end do. -/
theorem keeps_of_ends {x : MachineM α} {P : α → Machine → Prop} {E : Fault → Machine → Prop}
    (h : Action.Ends x m P E) (hP : ∀ a m', P a m' → d.Sound m' ∧ d.Evolves m m')
    (hE : ∀ e m', E e m' → d.Sound m' ∧ d.Evolves m m') : d.Keeps x m P := by
  cases hx : x m with
  | ok a m' =>
    have ha := h.of_ok hx
    exact keeps_of_ok hx (hP a m' ha).1 (hP a m' ha).2 ha
  | error e m' =>
    have he := hE e m' (h.of_error hx)
    exact keeps_of_error hx he.1 he.2

/-- Asking a question changes nothing, whatever the discipline. -/
theorem ask_bind {question : Machine → Except Fault α} {f : α → MachineM β}
    {Q : β → Machine → Prop} (hm : d.Sound m)
    (hf : ∀ a, question m = .ok a → d.Keeps (f a) m Q) : d.Keeps (ask question >>= f) m Q := by
  cases hq : question m with
  | error e =>
    have hask : ask question m = .error e m := by simp [ask, hq]
    exact keeps_of_error (Action.bind_of_error hask) hm (d.refl m)
  | ok a =>
    have hask : ask question m = .ok a m := by simp [ask, hq]
    exact Keeps.of_eq (Action.bind_of_ok hask) (d.refl m) (hf a hq)

/-- An action on the store, whether it succeeds or fails. -/
theorem ends_acts_onStore (action : StoreM α) (m : Machine) :
    Action.Ends (onStore action) m (fun _ m' => m.Acts m') fun _ m' => m.Acts m' := by
  unfold Action.Ends
  rw [onStore_eq]
  cases action m.store with
  | ok a s => exact ⟨rfl, rfl, rfl⟩
  | error e s => exact ⟨rfl, rfl, rfl⟩

theorem moves_onStore (action : StoreM α) (m : Machine) :
    motion.Keeps (onStore action) m fun _ m' => m.Acts m' := by
  apply keeps_of_ends (ends_acts_onStore action m)
  · exact fun _ _ hacts => ⟨trivial, .single (.acts hacts)⟩
  · exact fun _ _ hacts => ⟨trivial, .single (.acts hacts)⟩

/-- An action of a native function. -/
theorem moves_onWorld (action : WorldM α) (m : Machine) :
    motion.Keeps (onWorld action) m fun _ m' => m.Acts m' := by
  unfold Keeps
  rw [onWorld_eq]
  cases action ⟨m.store, m.sink⟩ with
  | ok a w => exact ⟨trivial, .single (.acts ⟨rfl, rfl, rfl⟩), rfl, rfl, rfl⟩
  | error e w => exact ⟨trivial, .single (.acts ⟨rfl, rfl, rfl⟩)⟩

/-- An action that consults the linker. -/
theorem moves_onLinkage {action : LinkM α} {entry : Option Entry} {P : α → Linkage → Prop}
    (h : m.linkage.Consults entry (m.linkage.after action))
    (hP : ∀ a l, action m.linkage = .ok a l → P a l) :
    motion.Keeps (onLinkage action) m fun a m' => m'.frames = m.frames ∧ P a m'.linkage := by
  have hmove : Move m (m.withLinkage (m.linkage.after action)) := .links h
  unfold Keeps
  rw [onLinkage_eq]
  cases haction : action m.linkage with
  | ok a l =>
    rw [Linkage.after_of_ok haction] at hmove
    exact ⟨trivial, .single hmove, rfl, hP a l haction⟩
  | error e l =>
    rw [Linkage.after_of_error haction] at hmove
    exact ⟨trivial, .single hmove⟩

/-- A file that is required is loaded as the module that is given. -/
theorem moves_requireFile (file : String) (m : Machine) :
    motion.Keeps (onLinkage (LinkM.requireFile file)) m fun id m' =>
      m'.registry.file? file = some id := by
  have hmoves := moves_onLinkage (P := fun id l => l.registry.file? file = some id)
    (LinkM.consults_requireFile file m.linkage)
    fun _ _ hid => (Linkage.LoadedAs.required hid).file?_eq
  exact hmoves.mono fun _ _ _ _ hfile => hfile.2

/-- Looking for a class gives one that is known. -/
theorem moves_findClass (name : String) (m : Machine) :
    motion.Keeps (onLinkage (LinkM.findClass name)) m fun cls m' => LinkM.Lists cls m'.linkage := by
  have hmoves := moves_onLinkage (P := LinkM.Lists) (LinkM.consults_findClass name m.linkage)
    fun _ _ hfind => ⟨name, (Linkage.known_of_findClass hfind).2⟩
  exact hmoves.mono fun _ _ _ _ hcls => hcls.2

/-- Looking for the top-level class of a module gives the one known under its qualified name. -/
theorem moves_topClass (id : ModuleId) (m : Machine) :
    motion.Keeps (onLinkage (LinkM.topClass id)) m fun cls m' => m'.frames = m.frames ∧
      ∃ name, m.registry.qualifiedIn id Image.topClass = .ok name ∧
        m'.registry.class? name = some cls :=
  moves_onLinkage (P := fun cls l => ∃ name, m.registry.qualifiedIn id Image.topClass = .ok name ∧
      l.registry.class? name = some cls) (LinkM.consults_topClass id m.linkage)
    fun _ _ htop => LinkM.known_of_topClass htop

/-- Doing what a caller does once its call has returned. -/
theorem moves_perform (resume : Resume) (m : Machine) :
    motion.Keeps (perform resume) m fun _ m' => m.Acts m' := by
  cases resume with
  | proceed => exact keeps_pure trivial (Acts.refl m)
  | bind result target => exact moves_onStore _ m

/-- Beginning a call, of whatever function. -/
theorem begins_call (module : ModuleId) (function : Function) (receiver : Option HeapId)
    (args : List Slot) (resume : Resume) (m : Machine) :
    Action.Ends (call module function receiver args resume) m
      (fun _ m' => m.Begins module function receiver m') fun _ m' => m.Acts m' := by
  unfold call
  apply Action.ends_get_bind
  apply Action.ends_get_bind
  dsimp only
  split
  · exact Action.ends_of_error rfl (Acts.refl m)
  · cases hloaded : m.registry.module module with
    | error e =>
      have hask : ask (fun m => m.registry.module module) m = .error e m := by simp [ask, hloaded]
      exact Action.ends_of_error (Action.bind_of_error hask) (Acts.refl m)
    | ok loaded =>
      have hask : ask (fun m => m.registry.module module) m = .ok loaded m := by
        simp [ask, hloaded]
      rw [Action.Ends, Action.bind_of_ok hask]
      apply (ends_acts_onStore _ m).bind
      intro _ m₁ hacts
      apply Action.ends_modify
      refine ⟨hacts.registry, hacts.program, _, congrArg (List.cons _) hacts.frames, rfl, rfl, rfl,
        ?_⟩
      rw [module_eq_ok_iff.mp hloaded]
      rfl

/-- Beginning a call without arguments. -/
theorem begins_callBare (module : ModuleId) (function : Function) (receiver : HeapId)
    (resume : Resume) (m : Machine) :
    Action.Ends (callBare module function receiver resume) m
      (fun _ m' => m.Begins module function (some receiver) m') fun _ m' => m.Acts m' := by
  unfold callBare
  split
  · exact begins_call module function _ _ resume m
  · apply (ends_acts_onStore _ m).bind
    intro _ m₁ hacts
    apply (begins_call module function _ _ resume m₁).mono
    · exact fun _ _ hbegins => .of_acts hacts hbegins
    · exact fun _ _ hlater => hacts.trans hlater

/-- A call of a method of a known class, in the module of that class, begins by moves. -/
theorem moves_of_begins {x : MachineM Unit} {module : ModuleId} {function : Function}
    {receiver : Option HeapId} (hoffers : m.registry.Offers module function)
    (h : Action.Ends x m (fun _ m' => m.Begins module function receiver m') fun _ m' => m.Acts m') :
    motion.Keeps x m fun _ m' => m.Begins module function receiver m' := by
  apply keeps_of_ends h
  · exact fun _ _ hbegins => ⟨trivial, hbegins.evolves hoffers⟩
  · exact fun _ _ hacts => ⟨trivial, .single (.acts hacts)⟩

/-- Beginning the constructor of a known class, if it has one. -/
theorem moves_construct {cls : Class} (hcls : LinkM.Lists cls m.linkage) (object : HeapId)
    (resume : Resume) :
    motion.Keeps (construct cls object resume) m fun _ m' => m.Constructs cls object m' := by
  obtain ⟨name, hname⟩ := hcls
  unfold construct
  split
  · rename_i constructor hfound
    have hoffers : m.registry.Offers cls.module constructor := ⟨name, cls, _, hname, hfound, rfl⟩
    apply (moves_of_begins hoffers (begins_callBare _ _ object resume m)).bind
    intro _ m₁ _ _ hbegins
    apply keeps_pure trivial
    refine ⟨hbegins.registry, ?_⟩
    rw [hfound]
    exact hbegins
  · rename_i hnone
    apply (moves_perform resume m).bind
    intro _ m₁ _ _ hacts
    apply keeps_pure trivial
    refine ⟨hacts.registry, ?_⟩
    rw [hnone]
    exact hacts

/-- Noting an instance where there was none. -/
theorem progresses_note {id : ModuleId} {loaded : LoadedModule}
    (hloaded : m.registry.modules[id]? = some loaded) (hnone : loaded.topInstance = none)
    (object : HeapId) :
    progress.Keeps (modify fun m => { m with registry := m.registry.setTopInstance id object } :
      MachineM Unit) m fun _ m' =>
        m' = { m with registry := m.registry.setTopInstance id object } :=
  keeps_modify trivial (.single (.inr (.intro object hloaded hnone))) rfl

/-- Beginning to make the instance of a module's top-level class, unless there is one. -/
theorem progresses_topInstance (module : ModuleId) (resume : Resume) (m : Machine) :
    progress.Keeps (topInstance module resume) m fun made m' => m.Furnishes module made.1 m' := by
  unfold topInstance
  apply ask_bind trivial
  intro loaded hloaded
  have hmodule := module_eq_ok_iff.mp hloaded
  split
  · rename_i object hsome
    have hhad : m.registry.topInstance? module = some object := by
      rw [Registry.topInstance?, hmodule]
      exact hsome
    apply (moves_perform resume m).progresses.bind
    intro _ m₁ _ _ hacts
    exact keeps_pure trivial (.had hhad hacts)
  · rename_i hnone
    have hmissing : m.registry.topInstance? module = none := by
      rw [Registry.topInstance?, hmodule]
      exact hnone
    apply (moves_topClass module m).progress_bind
    rintro cls m₁ hev₁ ⟨hframes₁, name, hname, hcls⟩
    apply (moves_onStore _ m₁).progress_bind
    intro _ m₂ _ hacts₂
    apply (moves_onStore _ m₂).progress_bind
    intro object m₃ _ hacts₃
    apply (moves_onStore _ m₃).progress_bind
    intro _ m₄ _ hacts₄
    have hacts : m₁.Acts m₄ := (hacts₂.trans hacts₃).trans hacts₄
    have hmodule₄ : m₄.registry.modules[module]? = some loaded := by
      rw [hacts.registry]
      exact module_of_motion hev₁ hmodule
    apply (progresses_note hmodule₄ hnone object).bind
    rintro _ m₅ - - rfl
    let noted : Machine := { m₄ with registry := m₄.registry.setTopInstance module object }
    have htop : noted.registry.topInstance? module = some object := by
      rw [Registry.topInstance?, Registry.modules_setTopInstance, if_pos rfl, hmodule₄]
      rfl
    have hcls₅ : noted.registry.class? name = some cls := by
      change m₄.registry.class? name = some cls
      rw [hacts.registry]
      exact hcls
    have hlists : LinkM.Lists cls noted.linkage := ⟨name, hcls₅⟩
    have hframes : noted.frames = m.frames := hacts.frames.trans hframes₁
    apply (moves_construct hlists object resume).progress_bind
    intro flow m₆ _ hconstructs
    exact keeps_pure trivial (.made hmissing hname htop hcls₅ hframes hconstructs)

/-- Allocating an array. -/
theorem moves_newArray (target : Slot) (element : ElementKind) (len : Nat) (m : Machine) :
    motion.Keeps (newArray target element len) m fun _ _ => True := by
  unfold newArray
  apply (moves_onStore _ m).bind
  intro a m₁ _ _ _
  apply (moves_onStore _ m₁).bind
  intro _ m₂ _ _ _
  exact keeps_pure trivial trivial

/-- Allocating an instance of a known class and beginning its constructor. -/
theorem moves_newInstance (target : Slot) {cls : Class} (hcls : LinkM.Lists cls m.linkage)
    (resume : Resume) : motion.Keeps (newInstance target cls resume) m fun _ _ => True := by
  unfold newInstance
  apply (moves_onStore _ m).bind
  intro object m₁ _ _ hacts₁
  apply (moves_onStore _ m₁).bind
  intro _ m₂ _ _ hacts₂
  have hlists : LinkM.Lists cls m₂.linkage := by
    obtain ⟨name, hname⟩ := hcls
    have hregistry := (hacts₁.trans hacts₂).registry
    exact ⟨name, (congrArg (Registry.class? · name) hregistry).trans hname⟩
  apply (moves_construct hlists object resume).mono
  exact fun _ _ _ _ _ => trivial

/-- Binding a slot to the instance of another module's top-level class: the file is loaded, and its
module has the instance. -/
theorem progresses_bindModule (target : Slot) (file : String) (m : Machine) :
    progress.Keeps (bindModule target file) m fun _ m' => ∃ id object,
      m'.registry.file? file = some id ∧ m'.registry.topInstance? id = some object := by
  unfold bindModule
  apply (moves_requireFile file m).progress_bind
  intro module m₁ _ hfile
  apply ask_bind trivial
  intro loaded _
  apply (progresses_topInstance module _ m₁).bind
  intro made m₂ _ hev hfurnishes
  exact keeps_pure trivial
    ⟨module, made.1, (retains_of_progress hev).file_kept hfile, hfurnishes.topInstance_eq⟩

/-- Allocating what a class name asks for. -/
theorem moves_newNamed (f : Frame) (target : Slot) (size : Nat) (name : String) (m : Machine) :
    motion.Keeps (newNamed f target size name) m fun _ _ => True := by
  unfold newNamed
  apply ask_bind trivial
  intro qualified _
  apply (moves_findClass qualified m).bind
  intro cls m₁ _ _ hcls
  split
  · exact moves_newInstance target hcls .proceed
  · exact moves_newArray target _ size m₁

/-- Allocating an array of elements of the type of a slot. -/
theorem moves_newLike (target typeSlot : Slot) (size : Nat) (m : Machine) :
    motion.Keeps (newLike target typeSlot size) m fun _ _ => True := by
  unfold newLike
  apply ask_bind trivial
  intro c _
  exact moves_newArray target _ size m

/-- The allocating instruction, which alone may note an instance. -/
theorem progresses_new (f : Frame) (i : Instruction) (m : Machine) :
    progress.Keeps (new f i) m fun _ _ => True := by
  unfold new
  apply ask_bind trivial
  intro operands _
  dsimp only
  apply (moves_onStore _ m).progress_bind
  intro size m₁ _ _
  split
  · exact (moves_newArray _ .untyped _ m₁).progresses
  · apply ask_bind trivial
    intro v _
    split
    · apply ask_bind trivial
      intro file _
      split
      · exact (progresses_bindModule _ _ m₁).mono fun _ _ _ _ _ => trivial
      · split
        · exact (moves_newLike _ _ _ m₁).progresses
        · exact (moves_newNamed f _ _ _ m₁).progresses
    · exact (moves_newLike _ _ _ m₁).progresses

/-- Reaching an array element, which may have to be made. -/
theorem moves_array (f : Frame) (i : Instruction) (m : Machine) :
    motion.Keeps (array f i) m fun _ _ => True := by
  unfold array
  apply ask_bind trivial
  intro operands _
  dsimp only
  apply ask_bind trivial
  intro a _
  apply (moves_onStore _ m).bind
  intro index m₁ _ _ _
  apply (moves_onStore _ m₁).bind
  intro element m₂ _ _ _
  split
  · apply (moves_perform _ m₂).bind
    intro _ m₃ _ _ _
    exact keeps_pure trivial trivial
  · rename_i slot className
    apply (moves_findClass className m₂).bind
    intro cls m₃ _ _ hcls
    exact moves_newInstance slot hcls _

/-- Finding the receiver changes nothing. -/
theorem moves_receiver (f : Frame) (operand : UInt64) (m : Machine) :
    motion.Keeps (receiver f operand) m fun _ m' => m' = m := by
  unfold receiver
  split
  · split
    · exact keeps_pure trivial rfl
    · exact keeps_throw trivial
  · unfold ask Keeps
    dsimp only
    cases m.store.object (f.slot operand) with
    | ok object => exact ⟨trivial, .refl, rfl⟩
    | error e => exact ⟨trivial, .refl⟩

/-- Binding a slot to a member. -/
theorem moves_loadMember (f : Frame) (i : Instruction) (m : Machine) :
    motion.Keeps (loadMember f i) m fun _ _ => True := by
  unfold loadMember
  apply ask_bind trivial
  intro operands _
  apply (moves_receiver f _ m).bind
  intro object m₁ _ _ _
  apply ask_bind trivial
  intro member _
  apply ask_bind trivial
  intro className _
  apply (moves_findClass className m₁).bind
  intro cls m₂ _ _ _
  split
  · exact keeps_throw trivial
  · apply (moves_perform _ m₂).bind
    intro _ m₃ _ _ _
    exact keeps_pure trivial trivial

/-- Calling a native function, which pushes no frame. -/
theorem moves_callNative (name : String) (native : Native) (args : List Slot) (m : Machine) :
    motion.Keeps (callNative name native args) m fun _ m' => m'.frames = m.frames := by
  unfold callNative
  apply ask_bind trivial
  intro _ _
  apply keeps_get_bind
  apply (moves_onWorld _ m).bind
  intro _ m₁ _ _ hacts
  exact keeps_pure trivial hacts.frames

/-- Calling a free function: a native one, for which there is no frame, or one of the class known as
the top-level class of the running module. -/
theorem moves_invoke (f : Frame) (i : Instruction) (m : Machine) :
    motion.Keeps (invoke f i) m fun _ m' => m'.frames = m.frames ∨ m.Invokes f m' := by
  unfold invoke
  apply ask_bind trivial
  intro slots _
  apply ask_bind trivial
  intro name _
  dsimp only
  apply keeps_get_bind
  split
  · apply (moves_callNative name _ _ m).mono
    exact fun _ _ _ _ hframes => .inl hframes
  · apply ((moves_topClass f.module m).adaptExcept _).bind
    rintro cls m₁ - - ⟨hframes, top, htop, hcls⟩
    split
    · exact keeps_throw trivial
    · rename_i function hfound
      apply ask_bind trivial
      intro owner howner
      have hoffers : m₁.registry.Offers cls.module function := ⟨top, cls, name, hcls, hfound, rfl⟩
      apply (moves_of_begins hoffers (begins_call _ _ owner.topInstance _ .proceed m₁)).bind
      intro _ m₂ _ _ hbegins
      apply keeps_pure trivial
      exact .inr (.intro htop hcls hfound (module_eq_ok_iff.mp howner) hframes hbegins)

/-- Calling a method. -/
theorem moves_invokeMethod (f : Frame) (i : Instruction) (m : Machine) :
    motion.Keeps (invokeMethod f i) m fun _ _ => True := by
  unfold invokeMethod
  apply ask_bind trivial
  intro slots _
  apply ask_bind trivial
  intro name _
  dsimp only
  apply keeps_get_bind
  split
  · apply (moves_callNative name _ _ m).mono
    exact fun _ _ _ _ _ => trivial
  · apply (moves_receiver f _ m).bind
    intro object m₁ _ _ _
    apply ask_bind trivial
    intro className _
    apply (moves_findClass className m₁).bind
    rintro cls m₂ - - ⟨qualified, hcls⟩
    split
    · exact keeps_throw trivial
    · rename_i method hfound
      have hoffers : m₂.registry.Offers cls.module method :=
        ⟨qualified, cls, name, hcls, hfound, rfl⟩
      apply (moves_of_begins hoffers (begins_call _ _ (some object) _ .proceed m₂)).bind
      intro _ m₃ _ _ _
      exact keeps_pure trivial trivial

/-- An instruction is made of moves. -/
theorem progresses_execute (f : Frame) (i : Instruction) (m : Machine) :
    progress.Keeps (execute f i) m fun _ _ => True := by
  unfold execute
  split
  · exact progresses_new f i m
  · exact (moves_array f i m).progresses
  · exact (moves_loadMember f i m).progresses
  · exact (moves_invoke f i m).progresses.mono fun _ _ _ _ _ => trivial
  · exact (moves_invokeMethod f i m).progresses
  · apply keeps_get_bind
    exact (moves_onStore _ m).progresses.mono fun _ _ _ _ _ => trivial

/-- Going on with another instruction is a move. -/
theorem moves_setIp (next : Frame → Nat) (m : Machine) :
    motion.Keeps (setIp next) m fun _ _ => True :=
  keeps_of_ok (setIp_eq next m) trivial (.single (.goesOn next)) trivial

/-- Going where an instruction leads. -/
theorem moves_follow (f : Frame) (flow : Flow) (m : Machine) :
    motion.Keeps (follow f flow) m fun _ _ => True := by
  cases flow with
  | next => exact moves_setIp _ m
  | jump target =>
    rw [follow]
    split
    · exact moves_setIp _ m
    · exact keeps_throw trivial
  | enter => exact keeps_pure trivial trivial

/-- Ending the innermost call. -/
theorem moves_leave (f : Frame) (m : Machine) : motion.Keeps (leave f) m fun _ _ => True := by
  have hpop : motion.Keeps (modify fun m => { m with frames := m.frames.tail } : MachineM Unit) m
      fun _ _ => True := keeps_modify trivial (.single .leaves) trivial
  unfold leave
  apply hpop.bind
  intro _ m₁ _ _ _
  apply (moves_onStore _ m₁).bind
  intro _ m₂ _ _ _
  apply (moves_perform f.resume m₂).bind
  intro _ m₃ _ _ _
  exact moves_setIp _ m₃

/-- A step is made of moves. -/
theorem progresses_step (m : Machine) : progress.Keeps step m fun _ _ => True := by
  unfold step
  apply keeps_get_bind
  split
  · exact keeps_throw trivial
  · rename_i f _ _
    split
    · exact (moves_leave f m).progresses
    · rename_i i _
      apply (progresses_execute f i m).bind
      intro flow m₁ _ _ _
      exact (moves_follow f flow m₁).progresses

end MachineM

namespace Machine

/-- Beginning to make the instance of the program's top-level class. -/
theorem progresses_prepare (m : Machine) :
    progress.Keeps prepare m fun made m' =>
      m.program = some made.1 ∧ m.Furnishes made.1 made.2 m' := by
  unfold prepare
  apply keeps_get_bind
  split
  · exact keeps_throw trivial
  · rename_i module hprogram
    apply (MachineM.progresses_topInstance module .proceed m).bind
    intro made m₁ _ _ hfurnishes
    exact keeps_pure trivial ⟨hprogram, hfurnishes⟩

/-- Finding the method with which the program starts: it belongs to the class that is known as the
top-level class of the module. -/
theorem moves_entry (module : ModuleId) (m : Machine) :
    motion.Keeps (entry module) m fun method m' => m'.frames = m.frames ∧
      ∃ name cls, m.registry.qualifiedIn module Image.topClass = .ok name ∧
        m'.registry.class? name = some cls ∧ cls.method? Image.entryMethod = some method := by
  unfold entry
  apply (MachineM.moves_topClass module m).bind
  rintro cls m₁ - - ⟨hframes, name, hname, hcls⟩
  split
  · rename_i method hmethod
    exact keeps_pure trivial ⟨hframes, name, cls, hname, hcls, hmethod⟩
  · exact keeps_throw trivial

/-- Installing a program enters it behind the other modules. -/
theorem loadImage_eq (image : Image) (m : Machine) :
    loadImage image m = .ok m.registry.modules.size
      { m.withLinkage (m.linkage.enter ⟨none, image⟩) with
        program := some m.registry.modules.size } := rfl

/-- So does loading one, if it can be decoded. -/
theorem load_eq (bytes : List UInt8) (m : Machine) :
    load bytes m =
      match Image.decode bytes with
      | .ok image => loadImage image m
      | .error e => .error e m := by
  unfold load
  cases Image.decode bytes with
  | ok image => rfl
  | error e => rfl

end Machine

/-- A step of an activity is made of moves, also if it leaves a frame because of a fault. -/
theorem Activity.progress_step (a : Activity) :
    Machine.progress.Evolves a.machine a.step.machine := by
  obtain ⟨m, fault⟩ := a
  cases fault with
  | some e =>
    cases hcrash : e.isCrash with
    | true =>
      rw [step_of_crash hcrash]
      exact .refl
    | false =>
      rw [step_of_fault hcrash]
      exact .single (.inl .leaves)
  | none =>
    have hstep := MachineM.progresses_step m
    unfold step
    dsimp only
    cases hresult : MachineM.step m with
    | ok _ m' => exact (hstep.last (.inl ⟨(), hresult⟩)).2
    | error e m' => exact (hstep.last (.inr ⟨e, hresult⟩)).2

end SlotMachine
