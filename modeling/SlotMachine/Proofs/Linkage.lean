import SlotMachine.Registry
import SlotMachine.Proofs.Image.Legible
import SlotMachine.Proofs.Store.Access
import Mathlib.Tactic.Common

/-!
# Sound linking

Installing a module enters its classes under their qualified names and allocates its heap. No class
name is ever forgotten and no module changes, and since images are read from bytes, constants and
declared types are of the kinds that the format has.
-/

namespace SlotMachine

namespace Registry

variable {r : Registry} {name : String} {c : Class}

/-- A class is known under the name. -/
def Knows (r : Registry) (name : String) : Prop :=
  ∃ c, r.class? name = some c

/-- What is known depends on the classes alone. -/
theorem knows_of_eq {r r' : Registry} (hclasses : r'.classes = r.classes) : r'.Knows = r.Knows := by
  funext name
  simp only [Knows, class?, hclasses]

/-- Dropping the entries of one name does not change the look-up of another. -/
theorem lookup_filter_name (classes : List (String × Class)) {name other : String}
    (hne : name ≠ other) :
    (classes.filter fun (n, _) => n != other).lookup name = classes.lookup name := by
  induction classes with
  | nil => rfl
  | cons entry rest ih =>
    obtain ⟨key, c⟩ := entry
    by_cases hkey : key = other
    · simp [hkey, List.lookup_cons, ih, beq_eq_false_iff_ne.mpr hne]
    · simp [hkey, List.lookup_cons, ih]

/-- A class that is made known is found under its name, and the others as before. -/
theorem class?_insertClass (r : Registry) (c : Class) (name : String) :
    (r.insertClass c).class? name = if name = c.name then some c else r.class? name := by
  unfold class? insertClass
  rw [List.lookup_cons]
  by_cases hname : name = c.name
  · simp [hname]
  · rw [beq_eq_false_iff_ne.mpr hname, if_neg hname]
    exact lookup_filter_name r.classes hname

/-- The class that a declaration of a module stands for. -/
def declaredClass (file : Option String) (id : ModuleId) (decl : ClassDecl) : Class :=
  ⟨qualifiedName file decl.name, id, decl.members, decl.methods⟩

/-- Making classes known changes nothing but the classes. -/
theorem exists_foldl_insertClass (file : Option String) (id : ModuleId) (decls : List ClassDecl)
    (r : Registry) :
    ∃ classes, decls.foldl (fun r decl => r.insertClass (declaredClass file id decl)) r =
      { r with classes := classes } := by
  induction decls generalizing r with
  | nil => exact ⟨r.classes, rfl⟩
  | cons decl others ih => exact ih (r.insertClass (declaredClass file id decl))

/-- A name that is known stays known while classes are made known. -/
theorem knows_foldl_insertClass (file : Option String) (id : ModuleId) (decls : List ClassDecl)
    (hr : r.Knows name) :
    (decls.foldl (fun r decl => r.insertClass (declaredClass file id decl)) r).Knows name := by
  induction decls generalizing r with
  | nil => exact hr
  | cons decl others ih =>
    refine ih ?_
    by_cases hname : name = (declaredClass file id decl).name
    · exact ⟨_, (class?_insertClass r _ name).trans (if_pos hname)⟩
    · obtain ⟨c, hc⟩ := hr
      exact ⟨c, (class?_insertClass r _ name).trans ((if_neg hname).trans hc)⟩

/-- A class that is known after classes were made known is one of them, under its own name, or was
known before. -/
theorem class?_foldl_insertClass (file : Option String) (id : ModuleId) (decls : List ClassDecl)
    (h : (decls.foldl (fun r decl => r.insertClass (declaredClass file id decl)) r).class? name =
      some c) :
    r.class? name = some c ∨ ∃ decl ∈ decls, c = declaredClass file id decl ∧ c.name = name := by
  induction decls generalizing r with
  | nil => exact .inl h
  | cons decl others ih =>
    rcases ih h with hbefore | ⟨decl', hmem, hc⟩
    · rw [class?_insertClass] at hbefore
      split at hbefore
      · rename_i hname
        cases hbefore
        exact .inr ⟨decl, List.mem_cons_self, rfl, hname.symm⟩
      · exact .inl hbefore
    · exact .inr ⟨decl', List.mem_cons_of_mem decl hmem, hc⟩

/-- Entering a module adds it behind the modules that are there. -/
theorem modules_enter (r : Registry) (heap : HeapId) (file : Option String) (image : Image) :
    (r.enter heap file image).2.modules = r.modules.push ⟨file, image.constants, heap, none⟩ := by
  obtain ⟨classes, hr⟩ := exists_foldl_insertClass file r.modules.size image.classes r
  have hmodules := congrArg Registry.modules hr
  exact congrArg (Array.push · _) hmodules

/-- Entering a module leaves the source alone. -/
theorem source_enter (r : Registry) (heap : HeapId) (file : Option String) (image : Image) :
    (r.enter heap file image).2.source = r.source := by
  obtain ⟨classes, hr⟩ := exists_foldl_insertClass file r.modules.size image.classes r
  have hsource := congrArg Registry.source hr
  exact hsource

/-- Entering a module forgets no class name. -/
theorem knows_enter (heap : HeapId) (file : Option String) (image : Image) (hr : r.Knows name) :
    (r.enter heap file image).2.Knows name :=
  knows_foldl_insertClass file r.modules.size image.classes hr

/-- A class that is known once a module is entered is one of its classes, under its own name, or was
known before. -/
theorem class?_enter {heap : HeapId} {file : Option String} {image : Image}
    (h : (r.enter heap file image).2.class? name = some c) :
    r.class? name = some c ∨ ∃ decl ∈ image.classes,
      c = declaredClass file r.modules.size decl ∧ c.name = name :=
  class?_foldl_insertClass file r.modules.size image.classes h

/-- Noting an instance changes nothing else about a module, and no other module. -/
theorem modules_setTopInstance (r : Registry) (id other : ModuleId) (object : HeapId) :
    (r.setTopInstance id object).modules[other]? =
      if other = id then r.modules[other]?.map fun m => { m with topInstance := some object }
      else r.modules[other]? := by
  simp only [setTopInstance, Array.getElem?_modify, eq_comm]

/-- A module in which an instance may have been noted was there before, with the same heap and
constants. -/
theorem module_of_setTopInstance {id other : ModuleId} {object : HeapId} {after : LoadedModule}
    (h : (r.setTopInstance id object).modules[other]? = some after) :
    ∃ before, r.modules[other]? = some before ∧ before.heap = after.heap ∧
      before.constants = after.constants ∧
      (after.topInstance = none → before.topInstance = none) := by
  rw [modules_setTopInstance] at h
  split at h
  · obtain ⟨before, hbefore, rfl⟩ := Option.map_eq_some_iff.mp h
    exact ⟨before, hbefore, rfl, rfl, fun hnone => by cases hnone⟩
  · exact ⟨after, h, rfl, rfl, fun hnone => hnone⟩

/-- A function that may be called now or later: a method of a class that is known, or one that can be
read from bytes. -/
def Provides (r : Registry) (f : Function) : Prop :=
  (∃ name c, r.class? name = some c ∧ f ∈ c.methods) ∨ f.Legible

/-- Entering a module that has been read provides nothing new. -/
theorem provides_of_enter {heap : HeapId} {file : Option String} {image : Image} {f : Function}
    (himage : image.Legible) (h : (r.enter heap file image).2.Provides f) : r.Provides f := by
  rcases h with ⟨name, c, hc, hf⟩ | hlegible
  · rcases class?_enter hc with hold | ⟨decl, hdecl, rfl, -⟩
    · exact .inl ⟨name, c, hold, hf⟩
    · exact .inr ((himage.classes_legible decl hdecl).methods_legible f hf)
  · exact .inr hlegible

end Registry

/-- The type of a decoded declaration starts with a meaningful tag. -/
theorem Tag.outer_of_isComplete {tags : List Tag} (h : Tag.IsComplete tags) :
    Cell.outer tags ∈ Tag.meaningful := by
  obtain ⟨wrappers, last, rfl, hwrappers, hlast⟩ := h
  cases wrappers with
  | nil =>
    have hends : ∀ t ∈ [Tag.untyped, Tag.byte, Tag.long, Tag.double, Tag.uint64, Tag.string,
        Tag.object, Tag.origin], t ∈ Tag.meaningful := by decide +kernel
    exact hends last hlast
  | cons t rest =>
    have hwraps : ∀ t ∈ [Tag.array, Tag.ref, Tag.const], t ∈ Tag.meaningful := by decide +kernel
    exact hwraps t (hwrappers t List.mem_cons_self)

/-- Instances of the class can be made: its name is among the allowed ones and its members start in
cells that fit. -/
structure Class.Usable (known : String → Prop) (c : Class) : Prop where
  /-- The name is allowed. -/
  name_known : known c.name
  /-- The members start in cells that fit. -/
  members_fit : ∀ m ∈ c.members, (Cell.declared m.tags).Fits

namespace Linkage

/-- What holds of registry and store together. -/
structure Sound (l : Linkage) : Prop where
  /-- The store is sound, and instances are of known classes. -/
  store : l.store.Sound l.registry.Knows
  /-- Every module has a heap of its own kind. -/
  module_heap : ∀ {id : ModuleId} {m : LoadedModule}, l.registry.modules[id]? = some m →
    l.store.IsModule m.heap
  /-- Constants are numbers and texts. -/
  constants : ∀ {id : ModuleId} {m : LoadedModule}, l.registry.modules[id]? = some m →
    ∀ v ∈ m.constants, Image.isPoolable v = true
  /-- Every class is known under its own name. -/
  class_name : ∀ {name : String} {c : Class}, l.registry.class? name = some c → c.name = name
  /-- The members of every class start in cells that fit. -/
  members_fit : ∀ {name : String} {c : Class}, l.registry.class? name = some c →
    ∀ m ∈ c.members, (Cell.declared m.tags).Fits

/-- How registry and store change together while modules are linked. -/
structure Evolves (l l' : Linkage) : Prop where
  /-- The store evolves. -/
  store : l.store.Evolves l'.store
  /-- Modules stay as they are. -/
  module_eq : ∀ {id : ModuleId} {m : LoadedModule}, l.registry.modules[id]? = some m →
    l'.registry.modules[id]? = some m
  /-- The heap of a new module is new. -/
  module_new : ∀ {id : ModuleId} {m : LoadedModule}, l'.registry.modules[id]? = some m →
    l.registry.modules[id]? = some m ∨ l.store.kind? m.heap = none
  /-- Known names stay known. -/
  knows : ∀ {name : String}, l.registry.Knows name → l'.registry.Knows name

variable {l l' l'' : Linkage}

/-- Linking by not changing anything. -/
theorem Evolves.refl (l : Linkage) : l.Evolves l :=
  ⟨Store.Evolves.refl l.store, id, .inl, id⟩

/-- Changes by linking add up. -/
theorem Evolves.trans (h₁ : l.Evolves l') (h₂ : l'.Evolves l'') : l.Evolves l'' := by
  refine ⟨h₁.store.trans h₂.store, fun hm => h₂.module_eq (h₁.module_eq hm), fun {id m} hm => ?_,
    fun hname => h₂.knows (h₁.knows hname)⟩
  rcases h₂.module_new hm with hold | hnew
  · exact h₁.module_new hold
  · refine .inr ?_
    cases hkind : l.store.kind? m.heap with
    | none => rfl
    | some kind =>
      rw [h₁.store.toGrows.kind_eq hkind] at hnew
      cases hnew

/-- The discipline of linking. -/
def discipline : Discipline Linkage where
  Sound := Sound
  Evolves := Evolves
  refl := Evolves.refl
  trans := Evolves.trans

/-- The source and the list of loaded files are no part of what a sound linkage is about. -/
theorem Sound.of_eq (hl : l.Sound) (hstore : l'.store = l.store)
    (hmodules : l'.registry.modules = l.registry.modules)
    (hclasses : l'.registry.classes = l.registry.classes) : l'.Sound := by
  have hclass : ∀ name, l'.registry.class? name = l.registry.class? name := fun name => by
    rw [Registry.class?, Registry.class?, hclasses]
  constructor
  · rw [hstore, Registry.knows_of_eq hclasses]
    exact hl.store
  · intro id m hm
    rw [hmodules] at hm
    rw [hstore]
    exact hl.module_heap hm
  · intro id m hm
    rw [hmodules] at hm
    exact hl.constants hm
  · intro name c hc
    rw [hclass] at hc
    exact hl.class_name hc
  · intro name c hc
    rw [hclass] at hc
    exact hl.members_fit hc

/-- A class that is found can be instantiated. -/
theorem Sound.usable (hl : l.Sound) {name : String} {c : Class}
    (hc : l.registry.class? name = some c) : c.Usable l.registry.Knows := by
  refine ⟨⟨c, ?_⟩, hl.members_fit hc⟩
  rw [hl.class_name hc, hc]

end Linkage

namespace LinkM

open Discipline

variable {l : Linkage}

/-- The cells of the heap of a decoded module may stand in any store. -/
theorem admits_heap {image : Image} (himage : image.Legible) (s : Store) :
    ∀ c ∈ (image.heap.map Cell.declared).toArray, s.Admits c := by
  intro c hc
  obtain ⟨tags, htags, rfl⟩ := List.mem_map.mp (List.mem_toArray.mp hc)
  exact Store.admits_declared
    (Cell.fits_declared (Tag.outer_of_isComplete (himage.heap_complete tags htags)))

/-- Installing a decoded module. -/
theorem keeps_install (hl : l.Sound) (file : Option String) {image : Image}
    (himage : image.Legible) :
    Linkage.discipline.Keeps (install file image) l fun _ _ => True := by
  obtain ⟨registry, store⟩ := l
  have hev := Store.evolves_alloc store .module (image.heap.map Cell.declared).toArray
  have hmodule : ∀ {id : ModuleId} {m : LoadedModule},
      (registry.enter store.heaps.size file image).2.modules[id]? = some m →
        registry.modules[id]? = some m ∨ m = ⟨file, image.constants, store.heaps.size, none⟩ := by
    intro id m hm
    rw [Registry.modules_enter, Array.getElem?_push] at hm
    split at hm
    · exact .inr (Option.some.inj hm).symm
    · exact .inl hm
  refine keeps_of_ok rfl ⟨?_, ?_, ?_, ?_, ?_⟩ ⟨hev, ?_, ?_, ?_⟩ trivial
  · have hshaped : (⟨.module, (image.heap.map Cell.declared).toArray⟩ : Heap).Shaped
        store.maxLen registry.Knows := trivial
    exact (hl.store.alloc hshaped (admits_heap himage store)).mono
      fun name hname => Registry.knows_enter _ file image hname
  · intro id m hm
    rcases hmodule hm with hold | rfl
    · exact (hl.module_heap hold).mono hev.toGrows
    · exact (Store.kind?_alloc store .module _ store.heaps.size).trans (if_pos rfl)
  · intro id m hm
    rcases hmodule hm with hold | rfl
    · exact hl.constants hold
    · exact himage.constants_poolable
  · intro name c hc
    rcases Registry.class?_enter hc with hold | ⟨decl, -, -, hname⟩
    · exact hl.class_name hold
    · exact hname
  · intro name c hc m hm
    rcases Registry.class?_enter hc with hold | ⟨decl, hdecl, rfl, -⟩
    · exact hl.members_fit hold m hm
    · have hlegible := (himage.classes_legible decl hdecl).members_legible m hm
      exact Cell.fits_declared (Tag.outer_of_isComplete hlegible.tags_complete)
  · intro id m hm
    have hlt : id < registry.modules.size := (Array.getElem?_eq_some_iff.mp hm).1
    show (registry.enter store.heaps.size file image).2.modules[id]? = some m
    rw [Registry.modules_enter, Array.getElem?_push, if_neg (Nat.ne_of_lt hlt), hm]
  · intro id m hm
    rcases hmodule hm with hold | rfl
    · exact .inl hold
    · exact .inr (by simp [Store.kind?])
  · exact fun hname => Registry.knows_enter _ file image hname

/-- Asking the source for a file. -/
theorem keeps_fetch (hl : l.Sound) (file : String) :
    Linkage.discipline.Keeps (fetch file) l fun _ _ => True := by
  unfold Keeps fetch
  dsimp only
  have hsound : Linkage.Sound { l with
      registry.source.requests := file :: l.registry.source.requests } :=
    hl.of_eq rfl rfl rfl
  have hevolves : l.Evolves { l with
      registry.source.requests := file :: l.registry.source.requests } :=
    ⟨Store.Evolves.refl l.store, id, .inl, id⟩
  cases l.registry.source.fetch file with
  | ok bytes => exact ⟨hsound, hevolves, trivial⟩
  | error e => exact ⟨hsound, hevolves⟩

/-- Loading a file unless it is loaded already. -/
theorem keeps_requireFile (hl : l.Sound) (file : String) :
    Linkage.discipline.Keeps (requireFile file) l fun _ _ => True := by
  unfold requireFile
  refine keeps_get_bind ?_
  split
  · exact keeps_pure hl trivial
  · refine (keeps_fetch hl file).bind fun bytes l' hl' _ _ => ?_
    split
    · rename_i image hdecode
      exact keeps_install hl' (some file) (Image.legible_of_decode hdecode)
    · exact keeps_throw hl'

/-- Finding a class, which can be instantiated. -/
theorem keeps_findClass (hl : l.Sound) (name : String) :
    Linkage.discipline.Keeps (findClass name) l fun c l' => c.Usable l'.registry.Knows := by
  unfold findClass
  refine keeps_get_bind ?_
  split
  · rename_i c hc
    exact keeps_pure hl (hl.usable hc)
  · -- Whether or not a file is loaded, the registry is asked again.
    extract_lets again
    have hagain : ∀ (u : Unit) (l' : Linkage), l'.Sound →
        Linkage.discipline.Keeps (again u) l' fun c l'' => c.Usable l''.registry.Knows := by
      intro u l' hl'
      refine keeps_get_bind ?_
      split
      · rename_i c hc
        exact keeps_pure hl' (hl'.usable hc)
      · exact keeps_throw hl'
    split
    · split
      · refine (keeps_requireFile hl _).bind fun _ l' hl' _ _ => ?_
        exact hagain () l' hl'
      · exact keeps_of_error rfl hl (Linkage.Evolves.refl l)
    · exact hagain () l hl

/-- Finding the top-level class of a module, which can be instantiated. -/
theorem keeps_topClass (hl : l.Sound) (id : ModuleId) :
    Linkage.discipline.Keeps (topClass id) l fun c l' => c.Usable l'.registry.Knows := by
  unfold topClass
  refine keeps_get_bind ?_
  split
  · exact keeps_findClass hl _
  · exact keeps_throw hl

end LinkM

end SlotMachine
