import SlotMachine.Proofs.Linkage.Requests
import Mathlib.Data.List.Induction
import Mathlib.Tactic.Common

/-!
# Who holds a class name

A class is known under its qualified name, and the last declaration of a name holds it. A name of
the form `~file~class` is meant to belong to the file it gives, and it does as long as no other
module declares a class under it. Nothing keeps a module from doing so: a class whose declared name
already begins with the mark of qualified names is entered under that name, whatever file it comes
from, and a program is free to use any name. So such a module captures the name of a file that is
not loaded yet, and replaces the class of one that is.
-/

namespace SlotMachine

namespace Entry

variable {e : Entry} {id : ModuleId} {name : String} {c : Class}

/-- The class that a module declares under a qualified name. Of two, the later one counts. -/
def class? (e : Entry) (id : ModuleId) (name : String) : Option Class :=
  (e.image.classes.reverse.find? fun decl => qualifiedName e.file decl.name == name).map
    (Registry.declaredClass e.file id)

/-- The module declares a class under a qualified name. -/
def Declares (e : Entry) (name : String) : Prop :=
  ∃ decl ∈ e.image.classes, qualifiedName e.file decl.name = name

instance (e : Entry) (name : String) : Decidable (e.Declares name) :=
  inferInstanceAs (Decidable (∃ decl ∈ e.image.classes, qualifiedName e.file decl.name = name))

/-- Neither the file of the module nor its class names carry the mark of qualified names. -/
structure Plain (e : Entry) : Prop where
  /-- The mark does not occur in the name of the file. -/
  file_plain : ∀ file, e.file = some file → '~' ∉ file.toList
  /-- No class name begins with the mark. -/
  names_plain : ∀ decl ∈ e.image.classes, isQualifiedName decl.name = false

/-- A module that declares a name has a class under it. -/
theorem class?_eq_none_iff : e.class? id name = none ↔ ¬ e.Declares name := by
  simp [class?, Declares]

/-- The class belongs to the module that declares it. -/
theorem module_of_class? (h : e.class? id name = some c) : c.module = id := by
  obtain ⟨decl, -, rfl⟩ := Option.map_eq_some_iff.mp h
  rfl

/-- A module without marks declares only names that give its own file. -/
theorem Plain.file_eq {file cls : String} (he : e.Plain)
    (hname : splitClassName name = .ok (file, cls)) (h : e.Declares name) :
    e.file = some file := by
  obtain ⟨decl, hdecl, rfl⟩ := h
  have hplain := he.names_plain decl hdecl
  have hqualified := isQualifiedName_of_split hname
  cases hfile : e.file with
  | none =>
    rw [hfile, qualifiedName, hplain] at hqualified
    cases hqualified
  | some origin =>
    have hmark : ∀ c ∈ origin.toList, (c != '~') = true := by
      intro c hc
      rw [bne_iff_ne]
      rintro rfl
      exact he.file_plain origin hfile hc
    rw [hfile, qualifiedName, if_neg (by simp [hplain])] at hname
    obtain ⟨rest, hrest, hfirst⟩ := toList_of_split hname
    have hchars : rest = origin.toList ++ '~' :: decl.name.toList := by simpa using hrest.symm
    rw [hchars, List.takeWhile_append_of_pos hmark] at hfirst
    have hsame : file.toList = origin.toList := by simpa using hfirst
    rw [String.toList_inj.mp hsame]

end Entry

/-- The class known under a name once modules have been entered, one after the other: the last one
that was declared under it. -/
def named (entries : List Entry) (name : String) : Option Class :=
  entries.zipIdx.foldl (fun held (e, id) => (e.class? id name).or held) none

section Named

variable {entries later : List Entry} {e : Entry} {name : String} {c : Class}

/-- One more module takes the name if it declares it. -/
theorem named_concat (entries : List Entry) (e : Entry) (name : String) :
    named (entries ++ [e]) name = (e.class? entries.length name).or (named entries name) := by
  simp [named, List.zipIdx_append]

/-- The holder of a name is the module that its class gives. -/
theorem holder_of_named (h : named entries name = some c) :
    ∃ e, entries[c.module]? = some e ∧ e.class? c.module name = some c := by
  induction entries using List.reverseRecOn with
  | nil => cases h
  | append_singleton entries e ih =>
    rw [named_concat] at h
    cases hclass : e.class? entries.length name with
    | some c' =>
      obtain rfl : c' = c := by simpa [hclass] using h
      have hmodule := Entry.module_of_class? hclass
      refine ⟨e, ?_, hmodule ▸ hclass⟩
      rw [hmodule, List.getElem?_concat_length]
    | none =>
      obtain ⟨holder, hholder, hholds⟩ := ih (by simpa [hclass] using h)
      have hlt : c.module < entries.length := (List.getElem?_eq_some_iff.mp hholder).1
      exact ⟨holder, by rw [List.getElem?_append_left hlt, hholder], hholds⟩

/-- The holder of a name is one of the modules. -/
theorem module_lt_of_named (h : named entries name = some c) : c.module < entries.length := by
  obtain ⟨holder, hholder, -⟩ := holder_of_named h
  exact (List.getElem?_eq_some_iff.mp hholder).1

/-- Modules that do not declare a name leave it alone. -/
theorem named_append_of_not_declares (h : ∀ e ∈ later, ¬ e.Declares name) :
    named (entries ++ later) name = named entries name := by
  induction later using List.reverseRecOn with
  | nil => rw [List.append_nil]
  | append_singleton later e ih =>
    have hnone : e.class? (entries ++ later).length name = none :=
      Entry.class?_eq_none_iff.mpr (h e (by simp))
    rw [← List.append_assoc, named_concat, hnone, Option.none_or]
    exact ih fun e he => h e (by simp [he])

/-- A module that declares a name takes it, or a later one does. -/
theorem named_append_of_declares (entries : List Entry) (he : e ∈ later) (h : e.Declares name) :
    ∃ c, named (entries ++ later) name = some c ∧ entries.length ≤ c.module := by
  induction later using List.reverseRecOn with
  | nil => cases he
  | append_singleton later last ih =>
    rw [← List.append_assoc, named_concat]
    cases hclass : last.class? (entries ++ later).length name with
    | some c =>
      have hmodule := Entry.module_of_class? hclass
      exact ⟨c, rfl, by rw [hmodule, List.length_append]; omega⟩
    | none =>
      rw [Option.none_or]
      refine ih ?_
      rcases List.mem_append.mp he with hmem | hlast
      · exact hmem
      · obtain rfl := List.mem_singleton.mp hlast
        exact absurd h (Entry.class?_eq_none_iff.mp hclass)

/-- After the holder of a name no module declares it. -/
theorem not_declares_of_named (h : named entries name = some c) :
    ∀ e ∈ entries.drop (c.module + 1), ¬ e.Declares name := by
  intro e he hdeclares
  obtain ⟨c', hnamed, hle⟩ := named_append_of_declares (entries.take (c.module + 1)) he hdeclares
  rw [List.take_append_drop, h] at hnamed
  cases hnamed
  rw [List.length_take, Nat.min_eq_left (module_lt_of_named h)] at hle
  exact Nat.not_succ_le_self _ hle

end Named

/-- What is known after classes were made known: the last one of them under a name, or else what was
known before. -/
theorem Registry.class?_foldl_eq (file : Option String) (id : ModuleId) (decls : List ClassDecl)
    (r : Registry) (name : String) :
    (decls.foldl (fun r decl => r.insertClass (declaredClass file id decl)) r).class? name =
      ((decls.reverse.find? fun decl => qualifiedName file decl.name == name).map
        (declaredClass file id)).or (r.class? name) := by
  induction decls generalizing r with
  | nil => rfl
  | cons decl others ih =>
    rw [List.foldl_cons, ih, class?_insertClass, List.reverse_cons, List.find?_append]
    cases others.reverse.find? fun decl => qualifiedName file decl.name == name with
    | some later => rfl
    | none =>
      by_cases hname : qualifiedName file decl.name = name
      · simp [declaredClass, hname]
      · simp [declaredClass, hname, Ne.symm hname]

namespace Linkage

open LinkM

variable {l l' : Linkage} {entries : List Entry} {e : Entry} {name file : String}

/-- A module that is entered takes the names that it declares. -/
theorem class?_enter (l : Linkage) (e : Entry) (name : String) :
    (l.enter e).registry.class? name =
      (e.class? l.registry.modules.size name).or (l.registry.class? name) :=
  Registry.class?_foldl_eq e.file l.registry.modules.size e.image.classes l.registry name

/-- The modules that are entered while requests are served, in order. -/
def entered (l : Linkage) : List LinkRequest → List Entry
  | [] => []
  | request :: others => (l.entry? request).toList ++ (l.serve request).entered others

/-- The linker is what the modules entered so far make of it. -/
structure Records (l : Linkage) (entries : List Entry) : Prop where
  /-- They are numbered in order. -/
  modules_eq : l.registry.modules.toList.map LoadedModule.file = entries.map Entry.file
  /-- Every name is held by the last of them that declares it. -/
  class?_eq : ∀ name, l.registry.class? name = named entries name
  /-- Their files are loaded. -/
  file_loaded : ∀ e ∈ entries, ∀ file, e.file = some file → l.registry.file? file ≠ none

/-- A linker without modules. -/
theorem records_empty (source : Source) (store : Store) :
    Records ⟨Registry.empty source, store⟩ [] :=
  ⟨rfl, fun _ => rfl, by simp⟩

namespace Records

/-- There are as many modules as were entered. -/
theorem size_eq (h : l.Records entries) : l.registry.modules.size = entries.length := by
  simpa using congrArg List.length h.modules_eq

/-- A module comes from the file from which it was entered. -/
theorem file_eq (h : l.Records entries) {id : ModuleId} (he : entries[id]? = some e) :
    l.registry.modules[id]?.map LoadedModule.file = some e.file := by
  have hfile : (entries.map Entry.file)[id]? = some e.file := by rw [List.getElem?_map, he]; rfl
  rw [← h.modules_eq, List.getElem?_map, Array.getElem?_toList] at hfile
  exact hfile

/-- One more module. -/
theorem enter (h : l.Records entries) (e : Entry) : (l.enter e).Records (entries ++ [e]) where
  modules_eq := by rw [modules_enter, Array.toList_push, List.map_append, List.map_append,
    h.modules_eq]; rfl
  class?_eq name := by rw [class?_enter, named_concat, h.size_eq, h.class?_eq]
  file_loaded other hother file hfile := by
    rw [file?_enter]
    split
    · simp
    · rename_i hnew
      rcases List.mem_append.mp hother with hold | hlast
      · exact h.file_loaded other hold file hfile
      · obtain rfl := List.mem_singleton.mp hlast
        exact absurd hfile hnew

/-- The source has no part in it. -/
theorem of_eq (h : l.Records entries) (hmodules : l'.registry.modules = l.registry.modules)
    (hclasses : l'.registry.classes = l.registry.classes)
    (hfiles : l'.registry.files = l.registry.files) : l'.Records entries where
  modules_eq := by rw [hmodules, h.modules_eq]
  class?_eq name := by rw [← h.class?_eq, Registry.class?, Registry.class?, hclasses]
  file_loaded e he file hfile := by
    rw [Registry.file?, hfiles]
    exact h.file_loaded e he file hfile

/-- One step. -/
theorem step {entry : Option Entry} (h : l.Records entries) (hstep : l.Step entry l') :
    l'.Records (entries ++ entry.toList) := by
  have hasked : ∀ file, (l.asked file).Records entries := fun file => h.of_eq rfl rfl rfl
  cases hstep with
  | same => rwa [Option.toList_none, List.append_nil]
  | supplied fetch =>
    rw [Option.toList_none, List.append_nil]
    exact h.of_eq rfl rfl rfl
  | @asked file _ _ _ =>
    rw [Option.toList_none, List.append_nil]
    exact hasked file
  | @loaded file image _ _ => exact (hasked file).enter ⟨some file, image⟩
  | program image => exact h.enter ⟨none, image⟩

/-- Any number of requests. -/
theorem serveAll (h : l.Records entries) (requests : List LinkRequest) :
    (l.serveAll requests).Records (entries ++ l.entered requests) := by
  induction requests generalizing l entries with
  | nil =>
    rw [entered, List.append_nil]
    exact h
  | cons request others ih =>
    have hothers := ih (h.step (l.step_serve request))
    rw [List.append_assoc] at hothers
    exact hothers

end Records

/-- A file is entered only if it is not loaded yet. -/
theorem Step.file?_eq_none (h : l.Step (some e) l') (hfile : e.file = some file) :
    l.registry.file? file = none := by
  cases h with
  | loaded hnew _ =>
    cases hfile
    exact hnew
  | program image => cases hfile

/-- So no file is entered that is loaded before the requests are served. -/
theorem file?_of_entered {requests : List LinkRequest} (he : e ∈ l.entered requests)
    (hfile : e.file = some file) : l.registry.file? file = none := by
  induction requests generalizing l with
  | nil => cases he
  | cons request others ih =>
    have hstep := l.step_serve request
    rcases List.mem_append.mp he with hnow | hlater
    · rw [Option.mem_toList.mp hnow] at hstep
      exact hstep.file?_eq_none hfile
    · by_contra hloaded
      obtain ⟨id, hid⟩ := Option.ne_none_iff_exists'.mp hloaded
      have hkept := hstep.extends.file_kept hid
      rw [ih hlater] at hkept
      cases hkept

/-- A class that is found is known afterwards. -/
theorem known_of_findClass {c : Class} (h : findClass name l = .ok c l') :
    l' = l.serve (.find name) ∧ l'.registry.class? name = some c := by
  refine ⟨by rw [serve, LinkRequest.action, after_discard, after_of_ok h], ?_⟩
  rcases findClass_cases name l with ⟨c', hclass, hok⟩ | ⟨_, _, -, -, herror⟩ | ⟨_, _, -, -, heq⟩
  · rw [hok] at h
    cases h
    exact hclass
  · rw [herror] at h
    cases h
  · rw [heq] at h
    obtain ⟨id, l₁, -, hknown⟩ := Action.bind_eq_ok_iff.mp h
    rw [knownClass_eq] at hknown
    cases hfound : l₁.registry.class? name with
    | none => simp [hfound] at hknown
    | some c' =>
      rw [hfound] at hknown
      cases hknown
      exact hfound

/-- With no other module declaring it, a name is found for good. -/
theorem Records.findClass_iff {c : Class} (h : l.Records entries)
    (hclass : l.registry.class? name = some c) (requests : List LinkRequest) :
    findClass name (l.serveAll requests) = .ok c (l.serveAll requests) ↔
      ∀ e ∈ l.entered requests, ¬ e.Declares name := by
  have hlater := (h.serveAll requests).class?_eq name
  have hnamed : named entries name = some c := (h.class?_eq name).symm.trans hclass
  constructor
  · intro hfind e he hdeclares
    obtain ⟨c', hc', hle⟩ := named_append_of_declares entries he hdeclares
    rw [findClass_of_known (hlater.trans hc')] at hfind
    cases hfind
    exact absurd (module_lt_of_named hnamed) (Nat.not_lt.mpr hle)
  · intro hnone
    rw [named_append_of_not_declares hnone, hnamed] at hlater
    exact findClass_of_known hlater

/-- Let a name of the form `~file~class` be found after any requests to an empty linker. Then its
class belongs to the last module that declares the name, and to the file of that module. Later
requests leave the class as it is exactly if they enter no module that declares the name. So if
every module that declares it comes from the file that the name gives, the class belongs to that
file and is found ever after; and a module whose class names and file are without marks declares
only names that give its own file. -/
theorem last_declaration_holds_name (source : Source) (store : Store)
    (requests later : List LinkRequest) {cls : String} {c : Class}
    (hname : splitClassName name = .ok (file, cls))
    (hfind : findClass name (serveAll ⟨Registry.empty source, store⟩ requests) = .ok c l) :
    let before := entered ⟨Registry.empty source, store⟩ (requests ++ [.find name])
    (∃ holder, before[c.module]? = some holder ∧ holder.class? c.module name = some c ∧
      (∀ e ∈ before.drop (c.module + 1), ¬ e.Declares name) ∧
      l.registry.modules[c.module]?.map LoadedModule.file = some holder.file) ∧
    (findClass name (l.serveAll later) = .ok c (l.serveAll later) ↔
      ∀ e ∈ l.entered later, ¬ e.Declares name) ∧
    ((∀ e ∈ before ++ l.entered later, e.Declares name → e.file = some file) →
      l.registry.modules[c.module]?.map LoadedModule.file = some (some file) ∧
      findClass name (l.serveAll later) = .ok c (l.serveAll later)) ∧
    ∀ e : Entry, e.Plain → e.Declares name → e.file = some file := by
  intro before
  obtain ⟨hserve, hclass⟩ := known_of_findClass hfind
  have hrecords : l.Records before := by
    have hall := (records_empty source store).serveAll (requests ++ [.find name])
    rw [serveAll, List.foldl_append] at hall
    rw [hserve]
    exact hall
  have hnamed : named before name = some c := (hrecords.class?_eq name).symm.trans hclass
  obtain ⟨holder, hholder, hholds⟩ := holder_of_named hnamed
  have hiff := hrecords.findClass_iff hclass later
  have hfile := hrecords.file_eq hholder
  refine ⟨⟨holder, hholder, hholds, not_declares_of_named hnamed, hfile⟩, hiff, fun hown => ?_,
    fun e he => he.file_eq hname⟩
  have hmem : holder ∈ before := List.mem_of_getElem? hholder
  have hdeclares : holder.Declares name := by
    by_contra hnot
    rw [Entry.class?_eq_none_iff.mpr hnot] at hholds
    cases hholds
  have horigin : holder.file = some file := hown holder (List.mem_append_left _ hmem) hdeclares
  refine ⟨by rw [hfile, horigin], hiff.mpr fun e he hagain => ?_⟩
  -- The file is loaded already, so that it is not entered once more.
  have hagainFile : e.file = some file := hown e (List.mem_append_right _ he) hagain
  exact hrecords.file_loaded holder hmem file horigin (file?_of_entered he hagainFile)

/-- A module that declares a class under a name which gives another file. -/
def impostor : Image where
  constants := #[]
  heap := []
  classes := [⟨"~lib~Foo", [⟨"x", [Tag.byte]⟩], []⟩]

/-- An empty linker whose source has that module, and the file that the name gives. -/
def twoShelves : Linkage :=
  ⟨Registry.empty (Source.ofFiles [("lib", library.encode), ("evil", impostor.encode)]),
    Store.empty 16⟩

/-- The class is found in the file that its name gives, with the members that are declared there. -/
theorem findClass_twoShelves : ∃ c l, findClass "~lib~Foo" twoShelves = .ok c l ∧
    c.members = [⟨"a", [Tag.long]⟩, ⟨"b", [Tag.string]⟩] := by
  have hmembers : (match findClass "~lib~Foo" twoShelves with
      | .ok c _ => c.members
      | .error _ _ => []) = [⟨"a", [Tag.long]⟩, ⟨"b", [Tag.string]⟩] := by
    decide +kernel
  cases hfind : findClass "~lib~Foo" twoShelves with
  | ok c l =>
    rw [hfind] at hmembers
    exact ⟨c, l, rfl, hmembers⟩
  | error e l =>
    rw [hfind] at hmembers
    cases hmembers

/-- The impostor belongs to another file than its name gives when it comes first; and when it comes
second, the name is found to have other members than before. -/
theorem impostor_takes_name :
    (∃ c, findClass "~lib~Foo" (twoShelves.serve (.require "evil")) =
        .ok c (twoShelves.serve (.require "evil")) ∧
      (twoShelves.serve (.require "evil")).registry.modules[c.module]?.map LoadedModule.file =
        some (some "evil")) ∧
    ∃ c l c', findClass "~lib~Foo" twoShelves = .ok c l ∧
      findClass "~lib~Foo" (l.serve (.require "evil")) = .ok c' (l.serve (.require "evil")) ∧
      c'.members ≠ c.members := by
  constructor
  · have hmodule : ((twoShelves.serve (.require "evil")).registry.class? "~lib~Foo").map
        Class.module = some 0 := by decide +kernel
    obtain ⟨c, hc, hmodule⟩ := Option.map_eq_some_iff.mp hmodule
    refine ⟨c, findClass_of_known hc, ?_⟩
    rw [hmodule]
    decide +kernel
  · obtain ⟨c, l, hfind, hmembers⟩ := findClass_twoShelves
    obtain ⟨rfl, -⟩ := known_of_findClass hfind
    have hother : (((twoShelves.serve (.find "~lib~Foo")).serve (.require "evil")).registry.class?
        "~lib~Foo").map Class.members = some [⟨"x", [Tag.byte]⟩] := by decide +kernel
    obtain ⟨c', hc', hmembers'⟩ := Option.map_eq_some_iff.mp hother
    refine ⟨c, _, c', hfind, findClass_of_known hc', ?_⟩
    rw [hmembers, hmembers']
    decide

/-- As long as the impostor is not entered, the name belongs to its file; once it is, the class that
was found is not found again. -/
theorem name_held_on_twoShelves : splitClassName "~lib~Foo" = .ok ("lib", "Foo") ∧
    ∃ c l, findClass "~lib~Foo" (twoShelves.serveAll []) = .ok c l ∧
      l.registry.modules[c.module]?.map LoadedModule.file = some (some "lib") ∧
      findClass "~lib~Foo" (l.serveAll [.require "lib"]) = .ok c (l.serveAll [.require "lib"]) ∧
      findClass "~lib~Foo" (l.serveAll [.require "evil"]) ≠
        .ok c (l.serveAll [.require "evil"]) := by
  have hname : splitClassName "~lib~Foo" = .ok ("lib", "Foo") := by cbv
  obtain ⟨c, l, hfind, -⟩ := findClass_twoShelves
  obtain ⟨rfl, -⟩ := known_of_findClass hfind
  obtain ⟨-, -, hown, -⟩ := last_declaration_holds_name _ _ [] [.require "lib"] hname hfind
  obtain ⟨hfile, hfound⟩ := hown (by decide +kernel)
  obtain ⟨-, hiff, -, -⟩ := last_declaration_holds_name _ _ [] [.require "evil"] hname hfind
  refine ⟨hname, c, _, hfind, hfile, hfound, fun hagain => ?_⟩
  have hquiet := hiff.mp hagain
  revert hquiet
  decide +kernel

end Linkage

end SlotMachine
