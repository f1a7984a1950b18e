import SlotMachine.Proofs.Starting
import Mathlib.Tactic.Common

/-!
# Code runs in the module that declares it

The operands of an instruction are slots of its frame's heap, and its constants are those of its
frame's module. So a function makes sense only in the module that declares it, and that is where
every call runs it that a program begins, and every constructor. The host's start of a program is
the exception: it runs the entry method in the program loaded last, also when the class that holds
the entry method is one that an earlier program has declared.
-/

namespace SlotMachine

open Discipline

/-! ### What was loaded -/

/-- The machine is what these modules have made of it, entered one after the other. -/
structure Machine.Archives (m : Machine) (entries : List Entry) : Prop where
  /-- They are numbered in order and hold the names that they declare. -/
  records : m.linkage.Records entries
  /-- Their constants are theirs. -/
  constants : m.registry.modules.toList.map LoadedModule.constants =
    entries.map fun e => e.image.constants
  /-- The program is the last one of them that comes from no file. -/
  program : ∀ id, m.program = some id → ∃ e, entries[id]? = some e ∧ e.file = none ∧
    ∀ later ∈ entries.drop (id + 1), later.file ≠ none

/-- The frame runs a function that its module declares, with the heap and the constants of that
module. -/
structure Frame.AtHome (entries : List Entry) (r : Registry) (f : Frame) : Prop where
  /-- The heap is the module's. -/
  heap : r.modules[f.module]?.map LoadedModule.heap = some f.heap
  /-- The constants are those of the module that declares the function. -/
  declared : ∃ e, entries[f.module]? = some e ∧
    r.modules[f.module]?.map LoadedModule.constants = some e.image.constants ∧
    ∃ decl ∈ e.image.classes, f.function ∈ decl.methods

/-- The frame runs, in the program loaded last, the entry method of an earlier program. -/
structure Frame.Strays (entries : List Entry) (program : Option ModuleId) (f : Frame) : Prop where
  /-- It runs in the program. -/
  module_eq : program = some f.module
  /-- The program declares no top-level class. -/
  undeclared : ∃ e, entries[f.module]? = some e ∧ ¬ e.Declares Image.topClass
  /-- The class that is known as its top-level class is an earlier program's. -/
  entry : ∃ cls, named entries Image.topClass = some cls ∧ cls.module < f.module ∧
    cls.method? Image.entryMethod = some f.function

namespace Machine.Archives

variable {m m' : Machine} {entries : List Entry} {id : ModuleId} {e : Entry}

/-- A module has the constants with which it was entered. -/
theorem constants_eq (h : m.Archives entries) (he : entries[id]? = some e) :
    m.registry.modules[id]?.map LoadedModule.constants = some e.image.constants := by
  have hconstants := congrArg (fun all => all[id]?) h.constants
  simpa [he] using hconstants

/-- Nothing that matters has changed. -/
theorem of_eq (h : m.Archives entries) (hmodules : m'.registry.modules = m.registry.modules)
    (hclasses : m'.registry.classes = m.registry.classes)
    (hfiles : m'.registry.files = m.registry.files) (hprogram : m'.program = m.program) :
    m'.Archives entries where
  records := h.records.of_eq hmodules hclasses hfiles
  constants := by rw [hmodules, h.constants]
  program id hid := h.program id (hprogram ▸ hid)

/-- One more module, which is the program if it comes from no file. -/
theorem enter (h : m.Archives entries) (e : Entry)
    (hprogram : m'.program = if e.file = none then some entries.length else m.program)
    (hlinkage : m'.linkage = m.linkage.enter e) : m'.Archives (entries ++ [e]) where
  records := by
    rw [hlinkage]
    exact h.records.enter e
  constants := by
    have hmodules : m'.registry.modules = (m.linkage.enter e).registry.modules :=
      congrArg (fun l : Linkage => l.registry.modules) hlinkage
    rw [hmodules, Linkage.modules_enter, Array.toList_push, List.map_append, List.map_append]
    exact congrArg (· ++ [e.image.constants]) h.constants
  program id hid := by
    rw [hprogram] at hid
    split at hid
    · rename_i hfile
      obtain rfl := Option.some.inj hid
      refine ⟨e, List.getElem?_concat_length, hfile, ?_⟩
      simp
    · rename_i hfile
      obtain ⟨e', he', hnone, hlater⟩ := h.program id hid
      have hlt : id < entries.length := (List.getElem?_eq_some_iff.mp he').1
      refine ⟨e', by rw [List.getElem?_append_left hlt, he'], hnone, ?_⟩
      rw [List.drop_append_of_le_length hlt]
      intro later hlast
      rcases List.mem_append.mp hlast with hold | hnew
      · exact hlater later hold
      · rw [List.mem_singleton.mp hnew]
        exact hfile

/-- The linker is asked for something. -/
theorem links (h : m.Archives entries) {entry : Option Entry} {l : Linkage}
    (hconsults : m.linkage.Consults entry l) :
    (m.withLinkage l).Archives (entries ++ entry.toList) := by
  obtain ⟨hstep, hfile, -⟩ := hconsults
  cases hstep with
  | same =>
    rw [Option.toList_none, List.append_nil]
    exact h.of_eq rfl rfl rfl rfl
  | supplied fetch =>
    rw [Option.toList_none, List.append_nil]
    exact h.of_eq rfl rfl rfl rfl
  | @asked file _ _ _ =>
    rw [Option.toList_none, List.append_nil]
    exact h.of_eq rfl rfl rfl rfl
  | @loaded file image _ _ =>
    have hasked : (m.withLinkage (m.linkage.asked file)).Archives entries :=
      h.of_eq rfl rfl rfl rfl
    exact hasked.enter ⟨some file, image⟩ rfl rfl
  | program image => exact absurd rfl (hfile _ rfl)

/-- An instance is noted. -/
theorem notes (h : m.Archives entries) (hnotes : m.Notes m') : m'.Archives entries := by
  obtain ⟨object, -, -⟩ := hnotes
  rename_i id loaded
  have hmap : ∀ {α : Type} (part : LoadedModule → α),
      (∀ loaded : LoadedModule, part { loaded with topInstance := some object } = part loaded) →
      (m.registry.setTopInstance id object).modules.toList.map part =
        m.registry.modules.toList.map part := by
    intro α part hpart
    apply List.ext_getElem?
    intro i
    have hmodule := Registry.modules_setTopInstance m.registry id i object
    rw [List.getElem?_map, List.getElem?_map, Array.getElem?_toList, Array.getElem?_toList, hmodule]
    split
    · cases m.registry.modules[i]? with
      | none => rfl
      | some other => exact congrArg some (hpart other)
    · rfl
  refine ⟨⟨?_, h.records.class?_eq, h.records.file_loaded⟩, ?_, h.program⟩
  · exact (hmap _ fun _ => rfl).trans h.records.modules_eq
  · exact (hmap _ fun _ => rfl).trans h.constants

/-- The classes of the program are known under the names that it declares. -/
theorem qualifiedIn_program (h : m.Archives entries) (hid : m.program = some id) (name : String) :
    m.registry.qualifiedIn id name = .ok name := by
  obtain ⟨e, he, hfile, -⟩ := h.program id hid
  have hmodule := h.records.file_eq he
  rw [hfile] at hmodule
  obtain ⟨loaded, hloaded, hnone⟩ := Option.map_eq_some_iff.mp hmodule
  have hmodule : m.registry.module id = .ok loaded := MachineM.module_eq_ok_iff.mpr hloaded
  rw [Registry.qualifiedIn, hmodule, Except.map, hnone]
  rfl

/-- The class known as the program's top-level class belongs to the program, or else the program
declares none and it belongs to an earlier module. -/
theorem holder_of_top (h : m.Archives entries) (hid : m.program = some id) {cls : Class}
    (hcls : m.registry.class? Image.topClass = some cls) :
    cls.module = id ∨
      cls.module < id ∧ ∃ e, entries[id]? = some e ∧ ¬ e.Declares Image.topClass := by
  obtain ⟨e, he, -, hlater⟩ := h.program id hid
  have hnone : ∀ later ∈ entries.drop (id + 1), ¬ later.Declares Image.topClass :=
    fun later hmem => Entry.not_declares_of_plain (hlater later hmem) isQualifiedName_topClass
  have hsplit : entries.take id ++ [e] ++ entries.drop (id + 1) = entries := by
    have htake : entries.take (id + 1) = entries.take id ++ [e] := by
      rw [List.take_add_one, he]
      rfl
    rw [← htake, List.take_append_drop]
  have hlength : (entries.take id).length = id := by
    have hlt : id < entries.length := (List.getElem?_eq_some_iff.mp he).1
    rw [List.length_take, Nat.min_eq_left hlt.le]
  -- Only the modules up to the program can hold the name.
  have hnamed : named (entries.take id ++ [e]) Image.topClass = some cls := by
    rw [← named_append_of_not_declares hnone, hsplit, ← hcls]
    exact (h.records.class?_eq Image.topClass).symm
  rw [named_concat, hlength] at hnamed
  cases hown : e.class? id Image.topClass with
  | some own =>
    rw [hown, Option.some_or] at hnamed
    obtain rfl := Option.some.inj hnamed
    exact .inl (Entry.module_of_class? hown)
  | none =>
    rw [hown, Option.none_or] at hnamed
    have hearlier := module_lt_of_named hnamed
    rw [hlength] at hearlier
    exact .inr ⟨hearlier, e, he, Entry.class?_eq_none_iff.mp hown⟩

end Machine.Archives

namespace Frame

variable {m m' : Machine} {entries later : List Entry} {f : Frame}

/-- A call of a method of a known class, in the module of that class, is at home. -/
theorem atHome_of_admits (h : m.Archives entries) (hf : m.Admits f) :
    f.AtHome entries m.registry := by
  obtain ⟨⟨name, cls, method, hcls, hmethod, hmodule⟩, hheap⟩ := hf
  have hnamed : named entries name = some cls := (h.records.class?_eq name).symm.trans hcls
  obtain ⟨e, he, hclass⟩ := holder_of_named hnamed
  obtain ⟨decl, hdecl, hdeclared⟩ := Option.map_eq_some_iff.mp hclass
  have hmem : decl ∈ e.image.classes := List.mem_reverse.mp (List.mem_of_find?_eq_some hdecl)
  have hfunction : f.function ∈ decl.methods := by
    rw [← hdeclared] at hmethod
    exact List.mem_reverse.mp (List.mem_of_find?_eq_some hmethod)
  rw [hmodule] at he
  exact ⟨hheap, e, he, h.constants_eq he, decl, hmem, hfunction⟩

/-- It stays so when more modules are entered. -/
theorem AtHome.mono (h : f.AtHome entries m.registry) (hretains : m.Retains m')
    (later : List Entry) : f.AtHome (entries ++ later) m'.registry := by
  obtain ⟨hheap, e, he, hconstants, hdecl⟩ := h
  obtain ⟨loaded, hloaded, hsame⟩ := Option.map_eq_some_iff.mp hheap
  obtain ⟨loaded', hloaded', -, hconstants', hheap', -⟩ := hretains.module_kept hloaded
  rw [hloaded] at hconstants
  have hlt : f.module < entries.length := (List.getElem?_eq_some_iff.mp he).1
  refine ⟨?_, e, ?_, ?_, hdecl⟩
  · rw [hloaded']
    exact congrArg some (hheap'.trans hsame)
  · rw [List.getElem?_append_left hlt, he]
  · rw [hloaded', ← hconstants]
    exact congrArg some hconstants'

/-- A frame strays as long as no program is loaded. -/
theorem Strays.mono (h : f.Strays entries m.program) (hretains : m.Retains m')
    (hlater : ∀ e ∈ later, e.file ≠ none) : f.Strays (entries ++ later) m'.program := by
  obtain ⟨hprogram, ⟨e, he, hnone⟩, cls, hcls, hearlier, hmethod⟩ := h
  have hlt : f.module < entries.length := (List.getElem?_eq_some_iff.mp he).1
  have hnamed : named (entries ++ later) Image.topClass = named entries Image.topClass :=
    named_append_of_not_declares fun e he =>
      Entry.not_declares_of_plain (hlater e he) isQualifiedName_topClass
  refine ⟨hretains.program.trans hprogram, ⟨e, ?_, hnone⟩, cls, hnamed.trans hcls, hearlier,
    hmethod⟩
  rw [List.getElem?_append_left hlt, he]

end Frame

/-! ### Frames that are at home -/

/-- Every frame has one property, but the outermost one may have another one instead. -/
structure Lodged (P Q : Frame → Prop) (frames : List Frame) : Prop where
  /-- The inner frames have the first property. -/
  inner : ∀ f ∈ frames.dropLast, P f
  /-- The outermost one has one of them. -/
  outermost : ∀ f, frames.getLast? = some f → P f ∨ Q f

namespace Lodged

variable {P Q P' Q' : Frame → Prop} {f : Frame} {frames : List Frame}

theorem nil (P Q : Frame → Prop) : Lodged P Q [] :=
  ⟨nofun, nofun⟩

theorem single (h : P f ∨ Q f) : Lodged P Q [f] := by
  refine ⟨nofun, ?_⟩
  rintro g ⟨⟩
  exact h

/-- One more frame inside. -/
theorem cons (h : Lodged P Q frames) (hf : P f) : Lodged P Q (f :: frames) := by
  cases frames with
  | nil => exact single (.inl hf)
  | cons g others =>
    refine ⟨?_, fun last hlast => h.outermost last (by simpa using hlast)⟩
    intro g' hg'
    rw [List.dropLast_cons_of_ne_nil (List.cons_ne_nil g others)] at hg'
    rcases List.mem_cons.mp hg' with rfl | hinner
    · exact hf
    · exact h.inner g' hinner

/-- The innermost frame is left. -/
theorem tail (h : Lodged P Q frames) : Lodged P Q frames.tail := by
  cases frames with
  | nil => exact h
  | cons f others =>
    cases others with
    | nil => exact nil P Q
    | cons g rest =>
      refine ⟨fun g' hg' => h.inner g' ?_,
        fun last hlast => h.outermost last (by simpa using hlast)⟩
      rw [List.dropLast_cons_of_ne_nil (List.cons_ne_nil g rest)]
      exact List.mem_cons_of_mem f hg'

/-- The innermost frame is changed in a way that does not matter. -/
theorem redirect (h : Lodged P Q frames) (next : Frame → Nat)
    (hP : ∀ f ip, P f → P { f with ip := ip }) (hQ : ∀ f ip, Q f → Q { f with ip := ip }) :
    Lodged P Q (Frame.redirect next frames) := by
  cases frames with
  | nil => exact h
  | cons f others =>
    cases others with
    | nil => exact single ((h.outermost f rfl).imp (hP f _) (hQ f _))
    | cons g rest =>
      have hf : P f := h.inner f (by simp)
      exact (tail h).cons (hP f _ hf)

theorem mono (h : Lodged P Q frames) (hP : ∀ f, P f → P' f) (hQ : ∀ f, Q f → Q' f) :
    Lodged P' Q' frames :=
  ⟨fun f hf => hP f (h.inner f hf), fun f hf => (h.outermost f hf).imp (hP f) (hQ f)⟩

end Lodged

/-- The frames of the machine are at home, but the outermost one may stray if that is allowed. -/
def Machine.Lodges (m : Machine) (entries : List Entry) (allowed : Prop) : Prop :=
  Lodged (Frame.AtHome entries m.registry) (fun f => allowed ∧ f.Strays entries m.program) m.frames

/-- The entry is a file as the source has it. -/
def Source.Holds (s : Source) (e : Entry) : Prop :=
  ∃ file, e.file = some file ∧ s.image file = .ok e.image

/-- It holds what its contents say. -/
theorem Source.Holds.of_fetch {s s' : Source} {e : Entry} (h : s.Holds e)
    (hfetch : s'.fetch = s.fetch) : s'.Holds e := by
  obtain ⟨file, hfile, himage⟩ := h
  refine ⟨file, hfile, ?_⟩
  rw [Source.image, hfetch]
  exact himage

namespace Machine

variable {m m' : Machine} {entries : List Entry} {allowed : Prop}

/-- Frames stay where they are when more modules are entered. -/
theorem Lodges.mono (h : m.Lodges entries allowed) (hretains : m.Retains m')
    (hframes : m'.frames = m.frames) {later : List Entry} (hlater : ∀ e ∈ later, e.file ≠ none) :
    m'.Lodges (entries ++ later) allowed := by
  unfold Lodges
  rw [hframes]
  apply Lodged.mono h
  · exact fun f hf => hf.mono hretains later
  · exact fun f hf => ⟨hf.1, hf.2.mono hretains hlater⟩

/-- After one move the archive has grown by files that the source has, and frames are at home. -/
theorem lodges_of_move (hmove : m.Move m') (harchives : m.Archives entries)
    (hlodges : m.Lodges entries allowed) :
    ∃ later, (∀ e ∈ later, m.registry.source.Holds e) ∧ m'.Archives (entries ++ later) ∧
      m'.Lodges (entries ++ later) allowed := by
  have hretains := hmove.retains
  -- Moves that touch frames only, or nothing that matters.
  have hsame : m'.registry = m.registry → m'.program = m.program →
      m'.Lodges entries allowed → ∃ later, (∀ e ∈ later, m.registry.source.Holds e) ∧
        m'.Archives (entries ++ later) ∧ m'.Lodges (entries ++ later) allowed := by
    intro hregistry hprogram hlodges'
    refine ⟨[], nofun, ?_⟩
    rw [List.append_nil]
    refine ⟨harchives.of_eq ?_ ?_ ?_ hprogram, hlodges'⟩
    · rw [hregistry]
    · rw [hregistry]
    · rw [hregistry]
  cases hmove with
  | acts hacts =>
    have hlodges' := hlodges.mono hretains hacts.frames (List.forall_mem_nil _)
    rw [List.append_nil] at hlodges'
    exact hsame hacts.registry hacts.program hlodges'
  | @links entry l hconsults =>
    have hfiles : ∀ e ∈ entry.toList, e.file ≠ none := by
      intro e he
      exact hconsults.file e (Option.mem_toList.mp he)
    refine ⟨entry.toList, ?_, harchives.links hconsults, hlodges.mono hretains rfl hfiles⟩
    intro e he
    obtain ⟨hstep, hfile, -⟩ := hconsults
    rw [Option.mem_toList.mp he] at hstep hfile
    cases hstep with
    | @loaded file image _ himage => exact ⟨file, rfl, himage⟩
    | program image => exact absurd rfl (hfile _ rfl)
  | @enters f hadmits =>
    have hhome : f.AtHome entries m.registry := Frame.atHome_of_admits harchives hadmits
    exact hsame rfl rfl (Lodged.cons hlodges hhome)
  | goesOn next =>
    refine hsame rfl rfl (Lodged.redirect hlodges next ?_ ?_)
    · exact fun f ip hf => ⟨hf.heap, hf.declared⟩
    · exact fun f ip hf => ⟨hf.1, hf.2.module_eq, hf.2.undeclared, hf.2.entry⟩
  | leaves => exact hsame rfl rfl (Lodged.tail hlodges)

/-- After any moves the archive has grown by files that the source has, and frames are at home. -/
theorem lodges_of_progress (h : progress.Evolves m m') (harchives : m.Archives entries)
    (hlodges : m.Lodges entries allowed) :
    ∃ later, (∀ e ∈ later, m.registry.source.Holds e) ∧ m'.Archives (entries ++ later) ∧
      m'.Lodges (entries ++ later) allowed := by
  induction h with
  | refl => exact ⟨[], nofun, by simpa using harchives, by simpa using hlodges⟩
  | @tail m₁ m₂ hfirst hlast ih =>
    obtain ⟨later, hholds, harchives₁, hlodges₁⟩ := ih
    rcases hlast with hmove | hnotes
    · obtain ⟨last, hlast, harchives₂, hlodges₂⟩ := lodges_of_move hmove harchives₁ hlodges₁
      refine ⟨later ++ last, ?_, by rwa [← List.append_assoc], by rwa [← List.append_assoc]⟩
      intro e he
      rcases List.mem_append.mp he with hold | hnew
      · exact hholds e hold
      · exact (hlast e hnew).of_fetch (retains_of_progress hfirst).fetch.symm
    · have hlodges₂ := hlodges₁.mono hnotes.retains (by cases hnotes; rfl) (List.forall_mem_nil _)
      rw [List.append_nil] at hlodges₂
      exact ⟨later, hholds, harchives₁.notes hnotes, hlodges₂⟩

end Machine

/-! ### Sessions -/

/-- What a host does: it takes part in a session, or installs a program that was not read from
bytes. -/
inductive HostDeed where
  /-- Something happens in the session. -/
  | event (event : HostEvent)
  /-- The host installs a program. -/
  | install (image : Image)

/-- The program that the host loads or installs. -/
def HostDeed.program? : HostDeed → Option Image
  | event (.load bytes) => (Image.decode bytes).toOption
  | install image => some image
  | event _ => none

namespace Session

/-- The state after a deed. Installing waits until the machine is idle, as loading does. -/
def undertake (s : Session) : HostDeed → Session
  | .event event => s.act event
  | .install image =>
    match s.phase with
    | .idle =>
      match Machine.loadImage image s.machine with
      | .ok _ m => ended (.ok () m)
      | .error e m => ended (.error e m)
    | _ => s

/-- The state after deeds. -/
def course (s : Session) (deeds : List HostDeed) : Session :=
  deeds.foldl undertake s

/-- Where a module comes from that is entered in the course of a deed: a file from the source, and a
program from the host. -/
def origin? (s : Session) (deed : HostDeed) : Option String → Option Entry
  | some file => (s.machine.registry.source.image file).toOption.map fun image => ⟨some file, image⟩
  | none => deed.program?.map fun image => ⟨none, image⟩

/-- The modules that are entered in the course of a deed, in order. -/
def admitted (s : Session) (deed : HostDeed) : List Entry :=
  let modules := (s.undertake deed).machine.registry.modules.toList
  (modules.drop s.machine.registry.modules.size).filterMap fun loaded => s.origin? deed loaded.file

/-- The modules that are entered in the course of deeds, in order. -/
def log (s : Session) : List HostDeed → List Entry
  | [] => []
  | deed :: others => s.admitted deed ++ (s.undertake deed).log others

/-- What holds of every state of a session. -/
structure Housed (entries : List Entry) (s : Session) : Prop where
  /-- The modules are those that were entered. -/
  archives : s.machine.Archives entries
  /-- Frames are at home, but for the outermost one while the entry method runs. -/
  lodges : s.machine.Lodges entries (s.phase = .running)
  /-- Between operations there are no frames. -/
  idle : s.phase = .idle → s.machine.frames = []
  /-- It is the program whose instance is made. -/
  making : ∀ {module object}, s.phase = .making module object → s.machine.program = some module

variable {s : Session} {entries : List Entry} {m : Machine}

/-- A machine without frames, in whatever phase that fits. -/
theorem housed_of_empty {phase : Phase} {fault : Option Fault} (harchives : m.Archives entries)
    (hframes : m.frames = [])
    (hmaking : ∀ {module object}, phase = .making module object → m.program = some module) :
    Housed entries ⟨m, fault, phase⟩ := by
  refine ⟨harchives, ?_, fun _ => hframes, hmaking⟩
  unfold Machine.Lodges
  dsimp only
  rw [hframes]
  exact .nil _ _

/-- An operation has ended without frames. -/
theorem housed_ended {ending : Ending} (harchives : (ended ending).machine.Archives entries)
    (hframes : (ended ending).machine.frames = []) : (ended ending).Housed entries := by
  cases ending with
  | ok _ m => exact housed_of_empty harchives hframes nofun
  | error e m => exact housed_of_empty harchives hframes nofun

/-- The modules that are entered in the course of a deed are the ones by which the archive has
grown, if each of them comes from where it should. -/
theorem admitted_eq {deed : HostDeed} {later : List Entry} (h : s.machine.Archives entries)
    (h' : (s.undertake deed).machine.Archives (entries ++ later))
    (hlater : ∀ e ∈ later, s.origin? deed e.file = some e) : s.admitted deed = later := by
  have hfiles : ((s.undertake deed).machine.registry.modules.toList.drop
      s.machine.registry.modules.size).map LoadedModule.file = later.map Entry.file := by
    have hsize : s.machine.registry.modules.size = entries.length := h.records.size_eq
    have hall := h'.records.modules_eq
    rw [List.map_append] at hall
    rw [List.map_drop, hsize]
    have hdrop := congrArg (List.drop entries.length) hall
    rw [List.drop_left' (List.length_map _)] at hdrop
    exact hdrop
  unfold admitted
  have hmap : ∀ modules : List LoadedModule,
      modules.filterMap (fun loaded => s.origin? deed loaded.file) =
        (modules.map LoadedModule.file).filterMap (s.origin? deed) := by
    intro modules
    rw [List.filterMap_map]
    rfl
  rw [hmap, hfiles, List.filterMap_map]
  clear hfiles h'
  induction later with
  | nil => rfl
  | cons e others ih =>
    have he : (s.origin? deed ∘ Entry.file) e = some e := hlater e List.mem_cons_self
    rw [List.filterMap_cons_some he, ih fun e he => hlater e (List.mem_cons_of_mem _ he)]

/-- A file that the source has is what was entered. -/
theorem origin?_of_holds {deed : HostDeed} {e : Entry} (h : s.machine.registry.source.Holds e) :
    s.origin? deed e.file = some e := by
  obtain ⟨origin, image⟩ := e
  obtain ⟨file, hfile, himage⟩ := h
  obtain rfl : origin = some file := hfile
  unfold origin?
  dsimp only at himage ⊢
  rw [himage]
  rfl

/-- What a state of a session becomes in the course of a deed: more modules are entered, each from
where it should come, and what holds of every state holds again. -/
def Furthers (entries : List Entry) (s : Session) (deed : HostDeed) (s' : Session) : Prop :=
  ∃ later, (∀ e ∈ later, s.origin? deed e.file = some e) ∧ s'.Housed (entries ++ later)

/-- Nothing is entered. -/
theorem furthers_of_housed {s' : Session} (h : s'.Housed entries) (deed : HostDeed) :
    s.Furthers entries deed s' := by
  refine ⟨[], nofun, ?_⟩
  rw [List.append_nil]
  exact h

/-- Files are entered while the machine makes moves. -/
theorem furthers_of_progress {s' : Session} (hs : s.Housed entries) (deed : HostDeed)
    (h : Machine.progress.Evolves s.machine m)
    (hnext : ∀ later, m.Archives later → m.Lodges later (s.phase = .running) → s'.Housed later) :
    s.Furthers entries deed s' := by
  obtain ⟨later, hholds, harchives, hlodges⟩ := Machine.lodges_of_progress h hs.archives hs.lodges
  exact ⟨later, fun e he => origin?_of_holds (hholds e he), hnext _ harchives hlodges⟩

/-- A program is entered. -/
theorem furthers_install {deed : HostDeed} {image : Image} (hs : s.Housed entries)
    (hidle : s.phase = .idle) (hdeed : deed.program? = some image) {id : ModuleId}
    (hload : Machine.loadImage image s.machine = .ok id m) :
    s.Furthers entries deed (ended (.ok () m)) := by
  refine ⟨[⟨none, image⟩], ?_, ?_⟩
  · intro e he
    obtain rfl := List.mem_singleton.mp he
    unfold origin?
    rw [hdeed]
    rfl
  · rw [Machine.loadImage_eq] at hload
    cases hload
    have hsize : s.machine.registry.modules.size = entries.length := hs.archives.records.size_eq
    apply housed_ended
    · refine hs.archives.enter ⟨none, image⟩ ?_ rfl
      rw [if_pos rfl, ← hsize]
      rfl
    · exact hs.idle hidle

/-- The entry method begins. -/
theorem furthers_enter (hs : s.Housed entries) (deed : HostDeed) {module : ModuleId}
    {object : HeapId} (hphase : s.phase = .making module object)
    (hempty : s.machine.frames = []) :
    s.Furthers entries deed (s.enter module object) := by
  have hprogram := hs.making hphase
  have henters := enters_enter s module object
  generalize s.enter module object = next at henters ⊢
  cases henters with
  | fails hev hframes =>
    apply furthers_of_progress hs deed (Machine.progress_of_motion hev)
    intro later harchives _
    exact housed_ended harchives (hframes.trans hempty)
  | @begins found m₂ name cls method hev hframes hname hcls hmethod hbegun =>
    have hretains := Machine.retains_of_progress (Machine.progress_of_motion hev)
    rw [hs.archives.qualifiedIn_program hprogram] at hname
    obtain rfl := Except.ok.inj hname
    apply furthers_of_progress hs deed (Machine.progress_of_motion hev)
    intro later harchives _
    obtain ⟨f, hframe, hmodule, hfunction, -, hheap⟩ := hbegun.frames
    rw [hframes, hempty] at hframe
    have harchives₂ : m₂.Archives later :=
      harchives.of_eq (congrArg _ hbegun.registry) (congrArg _ hbegun.registry)
        (congrArg _ hbegun.registry) hbegun.program
    have hprogram₁ : found.program = some f.module := by
      rw [hmodule]
      exact hretains.program.trans hprogram
    rw [← hfunction] at hmethod
    rw [← hmodule] at hheap
    have hhome : f.AtHome later m₂.registry ∨ f.Strays later m₂.program := by
      rw [hbegun.registry, hbegun.program]
      rcases harchives.holder_of_top hprogram₁ hcls with hown | ⟨hearlier, hundeclared⟩
      · left
        apply Frame.atHome_of_admits harchives
        exact ⟨⟨Image.topClass, cls, Image.entryMethod, hcls, hmethod, hown⟩, hheap⟩
      · right
        have hnamed : named later Image.topClass = some cls := by
          rw [← harchives.records.class?_eq]
          exact hcls
        exact ⟨hprogram₁, hundeclared, cls, hnamed, hearlier, hmethod⟩
    refine ⟨harchives₂, ?_, ?_, ?_⟩
    · unfold Machine.Lodges
      dsimp only
      rw [hframe]
      exact .single (hhome.imp_right fun hstrays => ⟨rfl, hstrays⟩)
    · intro hidle
      cases hidle
    · intro _ _ hmaking
      cases hmaking

/-- What comes next in starting a program once no frame is left. -/
theorem furthers_conclude (hs : s.Housed entries) (deed : HostDeed)
    (hempty : s.machine.frames = []) : s.Furthers entries deed s.conclude := by
  have hended : (ended s.ending).Housed entries := by
    apply housed_ended
    · rw [machine_ended_ending]
      exact hs.archives
    · rw [machine_ended_ending]
      exact hempty
  unfold Session.conclude
  split
  · rename_i module object hphase _
    exact furthers_enter hs deed hphase hempty
  · exact furthers_of_housed hended deed
  · apply furthers_of_housed
    apply housed_ended
    · rw [machine_ended_flushed]
      exact hended.archives
    · rw [machine_ended_flushed, machine_ended_ending]
      exact hempty
  · exact furthers_of_housed hs deed

/-- A program that was started goes on. -/
theorem furthers_tick (hs : s.Housed entries) (deed : HostDeed) :
    s.Furthers entries deed s.tick := by
  by_cases hphase : s.phase = .idle
  · simp only [Session.tick, hphase]
    exact furthers_of_housed hs deed
  · rw [tick_of_ne_idle hphase]
    split
    · rename_i hempty
      exact furthers_conclude hs deed (List.isEmpty_iff.mp hempty)
    · have hstep := Activity.progress_step ⟨s.machine, s.fault⟩
      apply furthers_of_progress hs deed hstep
      intro later harchives hlodges
      refine ⟨harchives, hlodges, fun hidle => absurd hidle hphase, ?_⟩
      intro module object hmaking
      exact (Machine.retains_of_progress hstep).program.trans (hs.making hmaking)

/-- The host starts the program. -/
theorem furthers_start (hs : s.Housed entries) (deed : HostDeed) :
    s.Furthers entries deed (s.act .start) := by
  by_cases hidle : s.phase = .idle
  · have hempty := hs.idle hidle
    have hprepares := prepares_start hidle
    generalize s.act .start = next at hprepares ⊢
    cases hprepares with
    | fails hev hframes =>
      apply furthers_of_progress hs deed hev
      intro later harchives _
      exact housed_ended harchives (hframes.trans hempty)
    | makes hev hprogram _ =>
      apply furthers_of_progress hs deed hev
      intro later harchives hlodges
      refine ⟨harchives, ?_, ?_, ?_⟩
      · apply Lodged.mono hlodges
        · exact fun _ hf => hf
        · intro f hf
          rw [hidle] at hf
          cases hf.1
      · intro hmaking
        cases hmaking
      · rintro _ _ ⟨⟩
        exact (Machine.retains_of_progress hev).program.trans hprogram
  · rw [act_start_of_ne_idle hidle]
    exact furthers_of_housed hs deed

/-- What one deed makes of a session. -/
theorem furthers_undertake (hs : s.Housed entries) (deed : HostDeed) :
    s.Furthers entries deed (s.undertake deed) := by
  cases deed with
  | install image =>
    simp only [undertake]
    split
    · rename_i hidle
      rw [Machine.loadImage_eq]
      exact furthers_install hs hidle rfl (Machine.loadImage_eq image s.machine)
    · exact furthers_of_housed hs _
  | event event =>
    cases event with
    | load bytes =>
      simp only [undertake, Session.act]
      split
      · rename_i hidle
        rw [Machine.load_eq]
        cases hdecode : Image.decode bytes with
        | ok image =>
          have hdeed : (HostDeed.event (.load bytes)).program? = some image := by
            simp [HostDeed.program?, hdecode, Except.toOption]
          dsimp only
          rw [Machine.loadImage_eq]
          exact furthers_install hs hidle hdeed (Machine.loadImage_eq image s.machine)
        | error e =>
          apply furthers_of_housed
          exact housed_ended hs.archives (hs.idle hidle)
      · exact furthers_of_housed hs _
    | start => exact furthers_start hs _
    | tick => exact furthers_tick hs _
    | supply fetch =>
      apply furthers_of_housed
      refine ⟨hs.archives.of_eq rfl rfl rfl rfl, ?_, hs.idle, hs.making⟩
      apply Lodged.mono hs.lodges
      · exact fun _ hf => ⟨hf.heap, hf.declared⟩
      · exact fun _ hf => hf

/-- What holds of every state of a session holds in the course of deeds, with what they log. -/
theorem housed_course (hs : s.Housed entries) (deeds : List HostDeed) :
    (s.course deeds).Housed (entries ++ s.log deeds) := by
  induction deeds generalizing s entries with
  | nil =>
    rw [log, List.append_nil]
    exact hs
  | cons deed others ih =>
    obtain ⟨later, horigin, hhoused⟩ := furthers_undertake hs deed
    rw [log, admitted_eq hs.archives hhoused.archives horigin, ← List.append_assoc]
    exact ih hhoused

/-- A session begins with a machine on which nothing is loaded. -/
theorem housed_create (settings : Settings) (source : Source) (sink : Sink)
    (natives : NativeTable) : (Machine.create settings source sink natives).atRest.Housed [] :=
  housed_of_empty ⟨Linkage.records_empty source _, rfl, nofun⟩ rfl nofun

/-- Whatever programs a host loads, installs and starts on one machine, and however the contents of
its source change: the modules are those that were entered, and every frame runs a function that its
module declares, with the heap and the constants of that module. Only the outermost frame of a
program that was started may be another one: if that program declares no top-level class, it is the
entry method of an earlier program's that is run, in the heap and with the constants of the later
one. So all frames are at home if every program declares a top-level class. -/
theorem frames_at_home_but_for_entry (settings : Settings) (source : Source) (sink : Sink)
    (natives : NativeTable) (deeds : List HostDeed) :
    let first := (Machine.create settings source sink natives).atRest
    let s := first.course deeds
    let entries := first.log deeds
    s.machine.Archives entries ∧
    (∀ f ∈ s.machine.frames.dropLast, f.AtHome entries s.machine.registry) ∧
    (∀ f, s.machine.frames.getLast? = some f → f.AtHome entries s.machine.registry ∨
      s.phase = .running ∧ f.Strays entries s.machine.program) ∧
    ((∀ e ∈ entries, e.file = none → e.Declares Image.topClass) →
      ∀ f ∈ s.machine.frames, f.AtHome entries s.machine.registry) := by
  intro first s entries
  have hhoused : s.Housed entries := by
    have hcourse := housed_course (housed_create settings source sink natives) deeds
    rw [List.nil_append] at hcourse
    exact hcourse
  refine ⟨hhoused.archives, hhoused.lodges.inner, hhoused.lodges.outermost, ?_⟩
  intro hdeclares f hf
  obtain ⟨last, hlast⟩ : ∃ last, s.machine.frames.getLast? = some last := by
    rw [List.getLast?_eq_getLast_of_ne_nil (List.ne_nil_of_mem hf)]
    exact ⟨_, rfl⟩
  have houter : last.AtHome entries s.machine.registry := by
    rcases hhoused.lodges.outermost last hlast with hhome | ⟨-, hstrays⟩
    · exact hhome
    · obtain ⟨e, he, hundeclared⟩ := hstrays.undeclared
      obtain ⟨e', he', hfile, -⟩ := hhoused.archives.program _ hstrays.module_eq
      obtain rfl : e = e' := Option.some.inj (he.symm.trans he')
      exact absurd (hdeclares e (List.mem_of_getElem? he) hfile) hundeclared
  rw [← List.dropLast_append_getLast? last hlast] at hf
  rcases List.mem_append.mp hf with hinner | hlast'
  · exact hhoused.lodges.inner f hinner
  · rw [List.mem_singleton.mp hlast']
    exact houter

/-- A program that stores its only constant in slot 3. -/
def storing : Image where
  constants := #[.long 1]
  heap := [[Tag.untyped], [Tag.untyped], [Tag.untyped], [Tag.untyped]]
  classes := [⟨Image.topClass, [], [⟨Image.entryMethod, false, [], #[⟨.loadConst, [3, 0]⟩]⟩]⟩]

/-- A program with another constant and without classes. -/
def bare : Image where
  constants := #[.long 2]
  heap := [[Tag.untyped], [Tag.untyped], [Tag.untyped], [Tag.untyped]]
  classes := []

/-- The first program is started on its own, up to where its entry method begins. -/
def startedAlone : List HostDeed :=
  [.event (.load storing.encode), .event .start, .event .tick]

/-- The program declares a top-level class, and its entry method is at home. -/
theorem storing_at_home :
    (∀ e ∈ fresh.log startedAlone, e.file = none → e.Declares Image.topClass) ∧
    (fresh.course startedAlone).machine.frames.length = 1 ∧
    ∀ f ∈ (fresh.course startedAlone).machine.frames,
      f.AtHome (fresh.log startedAlone) (fresh.course startedAlone).machine.registry := by
  have hdeclares : ∀ e ∈ fresh.log startedAlone, e.file = none → e.Declares Image.topClass := by
    decide +kernel
  obtain ⟨-, -, -, hall⟩ := frames_at_home_but_for_entry Settings.standard Source.empty Sink.empty
    NativeTable.standard startedAlone
  exact ⟨hdeclares, by decide +kernel, hall hdeclares⟩

/-- The second program is loaded on top of the first one and started, up to where an entry method
begins. -/
def startedBare : List HostDeed :=
  [.event (.load storing.encode), .event (.load bare.encode), .event .start, .event .tick]

/-- It is the first program's method that begins, but in the second program, which declares no
function at all; and its one instruction stores the second program's constant in the second
program's heap. -/
theorem storing_strays_into_bare :
    (∃ f ∈ (fresh.course startedBare).machine.frames, f.module = 1 ∧
      f.function ∈ storing.classes.flatMap ClassDecl.methods ∧
      ¬ f.AtHome (fresh.log startedBare) (fresh.course startedBare).machine.registry) ∧
    (fresh.log startedBare).map Entry.image = [storing, bare] ∧
    ((fresh.course startedBare).act .tick).machine.store.value ⟨1, 3⟩ = .ok .nothing ∧
    ((fresh.course startedBare).act .tick).machine.store.value ⟨2, 3⟩ = .ok (.long 2) := by
  have hlog : (fresh.log startedBare).map Entry.image = [storing, bare] := by decide +kernel
  have hframes : (fresh.course startedBare).machine.frames.map (fun f => (f.module, f.function)) =
      [(1, ⟨Image.entryMethod, false, [], #[⟨.loadConst, [3, 0]⟩]⟩)] := by decide +kernel
  refine ⟨?_, hlog, by decide +kernel, by decide +kernel⟩
  obtain ⟨f, hf, hparts⟩ := List.mem_map.mp (hframes ▸ List.mem_singleton_self _)
  obtain ⟨hmodule, hfunction⟩ := Prod.mk.inj hparts
  refine ⟨f, hf, hmodule, ?_, ?_⟩
  · rw [hfunction]
    decide
  · rintro ⟨-, e, he, -, decl, hdecl, -⟩
    have himage : ((fresh.log startedBare).map Entry.image)[f.module]? = some e.image := by
      rw [List.getElem?_map, he]
      rfl
    rw [hlog, hmodule] at himage
    obtain hbare : bare = e.image := Option.some.inj himage
    rw [← hbare] at hdecl
    cases hdecl

end Session

end SlotMachine
