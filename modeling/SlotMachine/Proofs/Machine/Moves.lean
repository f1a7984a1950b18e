import SlotMachine.Proofs.Linkage.Names
import SlotMachine.Proofs.Machine.Calls
import SlotMachine.Proofs.Machine.Turns
import Mathlib.Logic.Relation
import Mathlib.Tactic.Common

/-!
# The moves of a machine

Whatever an instruction does, it is made of few moves: store and sink change, the linker is asked
for a file or a class, a call of a method of a known class begins in the module of that class, the
innermost call goes on or ends, and the instance of a module's top-level class is noted once. What
holds of registry and frames throughout a run is derived from this list, one move at a time.
-/

namespace SlotMachine

open Discipline

/-- A linker was asked for a file or a class: at most one file is entered, and the source stays. -/
structure Linkage.Consults (l : Linkage) (entry : Option Entry) (l' : Linkage) : Prop where
  /-- It changes as linkers do. -/
  step : l.Step entry l'
  /-- What is entered comes from a file. -/
  file : ∀ e, entry = some e → e.file ≠ none
  /-- The source keeps its contents. -/
  fetch : l'.registry.source.fetch = l.registry.source.fetch

namespace LinkM

open Linkage

/-- Linking leaves the contents of the source alone, whether it succeeds or fails. -/
theorem Heeds.fetch_after {α : Type} {x : LinkM α} {P : α → Linkage → Prop} (h : Heeds x P)
    (l : Linkage) : (l.after x).registry.source.fetch = l.registry.source.fetch := by
  have hl := h l
  unfold after
  cases hx : x l with
  | ok a l' => exact (hl.of_ok hx).1.fetch
  | error e l' => exact (hl.of_error hx).1.fetch

/-- What is entered when a file is asked for is that file. -/
theorem file_of_requested {l : Linkage} {file : String} {e : Entry}
    (h : l.fileEntry? file = some e) : e.file = some file := by
  unfold fileEntry? at h
  split at h
  · cases h
    rfl
  · cases h

/-- What is entered when a class is looked for is a file. -/
theorem file_of_sought {l : Linkage} {name : String} {e : Entry}
    (h : l.classEntry? name = some e) : e.file ≠ none := by
  unfold classEntry? at h
  split at h
  · simp [file_of_requested h]
  · cases h

theorem consults_requireFile (file : String) (l : Linkage) :
    l.Consults (l.fileEntry? file) (l.after (requireFile file)) := by
  refine ⟨step_requireFile file l, ?_, (heeds_requireFile file).fetch_after l⟩
  intro e he
  simp [file_of_requested he]

theorem consults_findClass (name : String) (l : Linkage) :
    l.Consults (l.classEntry? name) (l.after (findClass name)) :=
  ⟨step_findClass name l, fun _ he => file_of_sought he,
    (heeds_findClass name).fetch_after l⟩

theorem consults_topClass (id : ModuleId) (l : Linkage) :
    l.Consults (l.entry? (.top id)) (l.after (topClass id)) := by
  refine ⟨?_, ?_, (heeds_topClass id).fetch_after l⟩
  · have hstep := l.step_serve (.top id)
    rw [serve, LinkRequest.action, after_discard] at hstep
    exact hstep
  · intro e he
    cases hname : l.registry.qualifiedIn id Image.topClass with
    | ok name =>
      simp only [hname, entry?] at he
      exact file_of_sought he
    | error fault => simp [hname, entry?] at he

/-- The top-level class of a module that is found is known under its qualified name afterwards. -/
theorem known_of_topClass {id : ModuleId} {l l' : Linkage} {c : Class}
    (h : topClass id l = .ok c l') :
    ∃ name, l.registry.qualifiedIn id Image.topClass = .ok name ∧
      l'.registry.class? name = some c := by
  rw [topClass_eq] at h
  cases hname : l.registry.qualifiedIn id Image.topClass with
  | error e => simp [hname] at h
  | ok name =>
    rw [hname] at h
    exact ⟨name, rfl, (known_of_findClass h).2⟩

end LinkM

/-- A class of a module from a file is known under a name with the mark of qualified names. -/
theorem isQualifiedName_qualifiedName (file name : String) :
    isQualifiedName (qualifiedName (some file) name) = true := by
  unfold qualifiedName
  dsimp only
  split
  · assumption
  · simp [isQualifiedName]

/-- So a module from a file does not declare a name without it. -/
theorem Entry.not_declares_of_plain {e : Entry} (hfile : e.file ≠ none) {name : String}
    (hname : isQualifiedName name = false) : ¬ e.Declares name := by
  rintro ⟨decl, -, rfl⟩
  obtain ⟨file, hfile⟩ := Option.ne_none_iff_exists'.mp hfile
  rw [hfile, isQualifiedName_qualifiedName] at hname
  cases hname

/-- The name of top-level classes is one without it. -/
theorem isQualifiedName_topClass : isQualifiedName Image.topClass = false := by
  decide +kernel

/-- Such a name is not touched when the linker is asked for something. -/
theorem Linkage.Consults.class?_eq {l l' : Linkage} {entry : Option Entry}
    (h : l.Consults entry l') {name : String} (hname : isQualifiedName name = false) :
    l'.registry.class? name = l.registry.class? name := by
  obtain ⟨hstep, hfile, -⟩ := h
  cases hstep with
  | same => rfl
  | supplied fetch => rfl
  | asked _ _ => rfl
  | @loaded file image _ _ =>
    have hnone : Entry.class? ⟨some file, image⟩ (l.asked file).registry.modules.size name = none :=
      Entry.class?_eq_none_iff.mpr (Entry.not_declares_of_plain (hfile _ rfl) hname)
    rw [class?_enter, hnone, Option.none_or]
    rfl
  | program image => exact absurd rfl (hfile _ rfl)

/-- The instance of a module's top-level class, if the module is there and has one. -/
def Registry.topInstance? (r : Registry) (id : ModuleId) : Option HeapId :=
  r.modules[id]?.bind LoadedModule.topInstance

/-- The function is a method of a known class, which belongs to the module. -/
def Registry.Offers (r : Registry) (module : ModuleId) (function : Function) : Prop :=
  ∃ name cls method, r.class? name = some cls ∧ cls.method? method = some function ∧
    cls.module = module

namespace Machine

/-- Nothing has changed but store and sink. -/
structure Acts (m m' : Machine) : Prop where
  /-- The registry stays. -/
  registry : m'.registry = m.registry
  /-- The frames stay. -/
  frames : m'.frames = m.frames
  /-- The program stays. -/
  program : m'.program = m.program

/-- A frame that is about to be pushed: its function is a method of a known class, it belongs to the
module of that class, and it works in the heap of that module. -/
structure Admits (m : Machine) (f : Frame) : Prop where
  /-- The function belongs to the module. -/
  offered : m.registry.Offers f.module f.function
  /-- The heap is the module's. -/
  heap : m.registry.modules[f.module]?.map LoadedModule.heap = some f.heap

/-- One move, during which no instance is noted. -/
inductive Move (m : Machine) : Machine → Prop where
  /-- Store and sink change. -/
  | acts {m' : Machine} : m.Acts m' → Move m m'
  /-- The linker is asked for something. -/
  | links {entry : Option Entry} {l : Linkage} : m.linkage.Consults entry l →
      Move m (m.withLinkage l)
  /-- A call begins. -/
  | enters {f : Frame} : m.Admits f → Move m { m with frames := f :: m.frames }
  /-- The innermost call goes on with another instruction. -/
  | goesOn (next : Frame → Nat) : Move m { m with frames := Frame.redirect next m.frames }
  /-- The innermost call ends. -/
  | leaves : Move m { m with frames := m.frames.tail }

/-- The instance of a module's top-level class is noted, of which there was none before. -/
inductive Notes (m : Machine) : Machine → Prop where
  /-- It is noted in the registry. -/
  | intro {id : ModuleId} {loaded : LoadedModule} (object : HeapId) :
      m.registry.modules[id]? = some loaded → loaded.topInstance = none →
      Notes m { m with registry := m.registry.setTopInstance id object }

/-- Any number of moves. -/
def motion : Discipline Machine where
  Sound _ := True
  Evolves := Relation.ReflTransGen Move
  refl _ := .refl
  trans := .trans

/-- Any number of moves, during which instances may be noted. -/
def progress : Discipline Machine where
  Sound _ := True
  Evolves := Relation.ReflTransGen fun m m' => m.Move m' ∨ m.Notes m'
  refl _ := .refl
  trans := .trans

variable {m m' : Machine}

theorem Acts.refl (m : Machine) : m.Acts m :=
  ⟨rfl, rfl, rfl⟩

theorem Acts.trans {m'' : Machine} (h₁ : m.Acts m') (h₂ : m'.Acts m'') : m.Acts m'' :=
  ⟨h₂.registry.trans h₁.registry, h₂.frames.trans h₁.frames, h₂.program.trans h₁.program⟩

/-- Without a note every module stays as it is. -/
theorem module_of_motion (h : motion.Evolves m m') {id : ModuleId} {loaded : LoadedModule}
    (hloaded : m.registry.modules[id]? = some loaded) :
    m'.registry.modules[id]? = some loaded := by
  induction h with
  | refl => exact hloaded
  | tail _ hmove ih =>
    cases hmove with
    | acts hacts =>
      rw [hacts.registry]
      exact ih
    | links hconsults => exact hconsults.step.extends.module_kept ih
    | enters _ => exact ih
    | goesOn _ => exact ih
    | leaves => exact ih

/-- Moves without a note are moves. -/
theorem progress_of_motion (h : motion.Evolves m m') : progress.Evolves m m' := by
  have hstep : ∀ a b : Machine, a.Move b → a.Move b ∨ a.Notes b := fun _ _ => Or.inl
  exact Relation.ReflTransGen.mono hstep _ _ h

/-- What stays of the registry and the program whatever moves are made. -/
structure Retains (m m' : Machine) : Prop where
  /-- A module keeps its file, its constants and its heap, and its instance once it has one. -/
  module_kept : ∀ {id : ModuleId} {loaded : LoadedModule}, m.registry.modules[id]? = some loaded →
    ∃ loaded', m'.registry.modules[id]? = some loaded' ∧ loaded'.file = loaded.file ∧
      loaded'.constants = loaded.constants ∧ loaded'.heap = loaded.heap ∧
      ∀ object, loaded.topInstance = some object → loaded'.topInstance = some object
  /-- A file stays loaded as the same module. -/
  file_kept : ∀ {file : String} {id : ModuleId}, m.registry.file? file = some id →
    m'.registry.file? file = some id
  /-- A name without the mark of qualified names keeps its class, or stays unknown. -/
  plain : ∀ {name : String}, isQualifiedName name = false →
    m'.registry.class? name = m.registry.class? name
  /-- The source keeps its contents. -/
  fetch : m'.registry.source.fetch = m.registry.source.fetch
  /-- The program stays. -/
  program : m'.program = m.program

namespace Retains

variable {m'' : Machine} {id : ModuleId}

/-- Registry and program have not changed. -/
theorem of_eq (hregistry : m'.registry = m.registry) (hprogram : m'.program = m.program) :
    m.Retains m' where
  module_kept hloaded := by
    rw [hregistry]
    exact ⟨_, hloaded, rfl, rfl, rfl, fun _ h => h⟩
  file_kept hfile := by
    rw [hregistry]
    exact hfile
  plain _ := by rw [hregistry]
  fetch := by rw [hregistry]
  program := hprogram

theorem trans (h₁ : m.Retains m') (h₂ : m'.Retains m'') : m.Retains m'' where
  module_kept hloaded := by
    obtain ⟨loaded₁, hloaded₁, hfile₁, hconstants₁, hheap₁, htop₁⟩ := h₁.module_kept hloaded
    obtain ⟨loaded₂, hloaded₂, hfile₂, hconstants₂, hheap₂, htop₂⟩ := h₂.module_kept hloaded₁
    exact ⟨loaded₂, hloaded₂, hfile₂.trans hfile₁, hconstants₂.trans hconstants₁,
      hheap₂.trans hheap₁, fun object h => htop₂ object (htop₁ object h)⟩
  file_kept hfile := h₂.file_kept (h₁.file_kept hfile)
  plain hname := (h₂.plain hname).trans (h₁.plain hname)
  fetch := h₂.fetch.trans h₁.fetch
  program := h₂.program.trans h₁.program

/-- An instance that is noted stays noted. -/
theorem topInstance (h : m.Retains m') {object : HeapId}
    (hobject : m.registry.topInstance? id = some object) :
    m'.registry.topInstance? id = some object := by
  obtain ⟨loaded, hloaded, hsome⟩ := Option.bind_eq_some_iff.mp hobject
  obtain ⟨loaded', hloaded', -, -, -, htop⟩ := h.module_kept hloaded
  exact Option.bind_eq_some_iff.mpr ⟨loaded', hloaded', htop object hsome⟩

end Retains

/-- What moves retain, one by one. -/
theorem Move.retains (h : m.Move m') : m.Retains m' := by
  cases h with
  | acts hacts => exact .of_eq hacts.registry hacts.program
  | links hconsults =>
    refine ⟨?_, fun hfile => hconsults.step.extends.file_kept hfile,
      fun hname => hconsults.class?_eq hname, hconsults.fetch, rfl⟩
    intro id loaded hloaded
    exact ⟨loaded, hconsults.step.extends.module_kept hloaded, rfl, rfl, rfl, fun _ h => h⟩
  | enters _ => exact .of_eq rfl rfl
  | goesOn _ => exact .of_eq rfl rfl
  | leaves => exact .of_eq rfl rfl

theorem Notes.retains (h : m.Notes m') : m.Retains m' := by
  obtain ⟨object, hnoted, hnone⟩ := h
  rename_i id noted
  refine ⟨?_, fun hfile => hfile, fun _ => rfl, rfl, rfl⟩
  intro other loaded hloaded
  have hmodule := Registry.modules_setTopInstance m.registry id other object
  by_cases heq : other = id
  · subst heq
    obtain rfl : noted = loaded := Option.some.inj (hnoted.symm.trans hloaded)
    rw [if_pos rfl, hloaded] at hmodule
    refine ⟨_, hmodule, rfl, rfl, rfl, ?_⟩
    intro object' hobject'
    rw [hnone] at hobject'
    cases hobject'
  · rw [if_neg heq, hloaded] at hmodule
    exact ⟨loaded, hmodule, rfl, rfl, rfl, fun _ h => h⟩

/-- What any number of moves retains. -/
theorem retains_of_progress (h : progress.Evolves m m') : m.Retains m' := by
  induction h with
  | refl => exact .of_eq rfl rfl
  | tail _ hlast ih =>
    rcases hlast with hmove | hnotes
    · exact ih.trans hmove.retains
    · exact ih.trans hnotes.retains

end Machine

end SlotMachine
