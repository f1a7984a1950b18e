import SlotMachine.Proofs.Linkage.Lookup
import Mathlib.Data.List.Find
import Mathlib.Tactic.Common

/-!
# Classes that are loaded on demand

A file and a class name make one qualified name, which gives both of them back. So when a class is
looked for under such a name and the file is not loaded yet, the file is loaded, and what it declares
is entered under the very names that are looked for: the class is found exactly if the file declares
it. Whether or not it does, the file is loaded once and for all, and the classes of other names are
as before.
-/

namespace SlotMachine

variable {file cls : String} {image : Image}

/-- A class name without the mark is qualified by the file. -/
theorem qualifiedName_of_plain (file : String) (h : isQualifiedName cls = false) :
    qualifiedName (some file) cls = "~" ++ file ++ "~" ++ cls := by
  rw [qualifiedName, h]
  rfl

/-- A qualified name gives back the file and the class. The mark may occur in the class name. -/
theorem splitClassName_qualified (hfile : file ≠ "") (hmark : '~' ∉ file.toList) (hcls : cls ≠ "") :
    splitClassName ("~" ++ file ++ "~" ++ cls) = .ok (file, cls) := by
  have hchars : ("~" ++ file ++ "~" ++ cls).toList = '~' :: (file.toList ++ '~' :: cls.toList) := by
    simp
  have hfree : ∀ c ∈ file.toList, (c != '~') = true := by
    intro c hc
    rw [bne_iff_ne]
    rintro rfl
    exact hmark hc
  have hfirst : (file.toList ++ '~' :: cls.toList).takeWhile (· != '~') = file.toList := by
    rw [List.takeWhile_append_of_pos hfree]
    simp
  have hrest : (file.toList ++ '~' :: cls.toList).dropWhile (· != '~') = '~' :: cls.toList := by
    rw [List.dropWhile_append_of_pos hfree]
    simp
  unfold splitClassName
  simp only [hchars, hfirst, hrest]
  rw [if_neg (by simp [hfile, hcls])]
  simp

/-- Classes of one file with the same qualified name have the same name. -/
theorem qualified_inj {other : String} :
    "~" ++ file ++ "~" ++ other = "~" ++ file ++ "~" ++ cls ↔ other = cls := by
  rw [← String.toList_inj, ← String.toList_inj]
  simp

/-- What a file without marked class names declares under a qualified name of its own: the last
declaration of the class. -/
theorem Entry.class?_qualified (id : ModuleId)
    (hplain : ∀ decl ∈ image.classes, isQualifiedName decl.name = false) :
    Entry.class? ⟨some file, image⟩ id ("~" ++ file ++ "~" ++ cls) =
      (image.classes.reverse.find? fun decl => decl.name == cls).map
        (Registry.declaredClass (some file) id) := by
  have hsame : ∀ decl ∈ image.classes.reverse,
      (qualifiedName (some file) decl.name == "~" ++ file ++ "~" ++ cls) = (decl.name == cls) := by
    intro decl hdecl
    rw [qualifiedName_of_plain file (hplain decl (List.mem_reverse.mp hdecl)), Bool.eq_iff_iff,
      beq_iff_eq, beq_iff_eq]
    exact qualified_inj
  rw [Entry.class?, List.find?_congr hsame]

namespace Linkage

open LinkM

variable {l l' : Linkage} {e : Fault} {c : Class}

/-- A file has been loaded as a new module, with the constants of its image and a heap made from the
declared tags. Only the names of its own classes are held by other classes than before. -/
structure Loads (l l' : Linkage) (file : String) (image : Image) : Prop where
  /-- The file is loaded as the next module. -/
  file_eq : l'.registry.file? file = some l.registry.modules.size
  /-- The module has the constants of the image, and its heap is the next one. -/
  module_eq : l'.registry.modules[l.registry.modules.size]? =
    some ⟨some file, image.constants, l.store.heaps.size, none⟩
  /-- The heap has a cell for each declared type. -/
  heap_eq : l'.store.heaps[l.store.heaps.size]? =
    some ⟨.module, (image.heap.map Cell.declared).toArray⟩
  /-- Names that are not among those of the classes of the file are held as before. -/
  class_kept : ∀ name, (∀ decl ∈ image.classes, name ≠ "~" ++ file ++ "~" ++ decl.name) →
    l'.registry.class? name = l.registry.class? name

/-- Entering a file without marked class names loads it. -/
theorem loads_enter (l : Linkage) (file : String)
    (hplain : ∀ decl ∈ image.classes, isQualifiedName decl.name = false) :
    l.Loads ((l.asked file).enter ⟨some file, image⟩) file image where
  file_eq := by
    rw [file?_enter, if_pos rfl]
    rfl
  module_eq := by
    rw [modules_enter]
    exact Array.getElem?_push_size
  heap_eq := by
    rw [heaps_enter]
    exact Array.getElem?_push_size
  class_kept name hname := by
    have hnone : ¬ Entry.Declares ⟨some file, image⟩ name := by
      rintro ⟨decl, hdecl, rfl⟩
      exact hname decl hdecl (qualifiedName_of_plain file (hplain decl hdecl))
    rw [class?_enter, Entry.class?_eq_none_iff.mpr hnone, Option.none_or]
    rfl

/-- A class that is not known is looked for among the declarations of its file, which is loaded. -/
theorem findClass_of_new_file (hfile : file ≠ "") (hmark : '~' ∉ file.toList)
    (hnew : l.registry.file? file = none) (himage : l.registry.source.image file = .ok image)
    (hplain : ∀ decl ∈ image.classes, isQualifiedName decl.name = false) (hcls : cls ≠ "")
    (hunknown : l.registry.class? ("~" ++ file ++ "~" ++ cls) = none) :
    findClass ("~" ++ file ++ "~" ++ cls) l =
      match image.classes.reverse.find? fun decl => decl.name == cls with
      | some decl => .ok (Registry.declaredClass (some file) l.registry.modules.size decl)
          ((l.asked file).enter ⟨some file, image⟩)
      | none => .error (.classNotFound ("~" ++ file ++ "~" ++ cls))
          ((l.asked file).enter ⟨some file, image⟩) := by
  have hrequire : requireFile file l = _ := requireFile_of_new hnew
  rw [himage] at hrequire
  have hasked : (l.asked file).registry.class? ("~" ++ file ++ "~" ++ cls) = none := hunknown
  rw [findClass_of_unknown hunknown (splitClassName_qualified hfile hmark hcls),
    Action.bind_of_ok hrequire, knownClass_eq, class?_enter, hasked, Option.or_none,
    Entry.class?_qualified _ hplain]
  cases image.classes.reverse.find? fun decl => decl.name == cls with
  | none => rfl
  | some decl => rfl

/-- Let a file be there that is not loaded yet, let neither its name nor its class names carry the
mark of qualified names, and let no class be known under the qualified name of the file and a class.
Then the two make that name and the name gives them back. Looking for it finds a class exactly if
the file declares one: the class is made from the last declaration and belongs to the module that is
new. Otherwise the class is not found. In both cases the file is loaded, and only names of its own
classes have changed hands. -/
theorem found_iff_declared_in_file (l : Linkage) (file cls : String) (hfile : file ≠ "")
    (hmark : '~' ∉ file.toList) (hnew : l.registry.file? file = none)
    (himage : l.registry.source.image file = .ok image)
    (hplain : ∀ decl ∈ image.classes, isQualifiedName decl.name = false) (hcls : cls ≠ "")
    (hclsPlain : isQualifiedName cls = false)
    (hunknown : l.registry.class? ("~" ++ file ++ "~" ++ cls) = none) :
    let name := "~" ++ file ++ "~" ++ cls
    qualifiedName (some file) cls = name ∧ splitClassName name = .ok (file, cls) ∧
    ((∃ c l', findClass name l = .ok c l') ↔ ∃ decl ∈ image.classes, decl.name = cls) ∧
    (∀ c l', findClass name l = .ok c l' → l.Loads l' file image ∧ c.name = name ∧
      c.module = l.registry.modules.size ∧ ∃ decl,
        LastNamed ClassDecl.name cls image.classes decl ∧ c.members = decl.members ∧
        c.methods = decl.methods) ∧
    ∀ e l', findClass name l = .error e l' →
      l.Loads l' file image ∧ e = .classNotFound name := by
  intro name
  have hfind : findClass name l = _ :=
    findClass_of_new_file hfile hmark hnew himage hplain hcls hunknown
  have hloads := l.loads_enter file hplain
  refine ⟨qualifiedName_of_plain file hclsPlain, splitClassName_qualified hfile hmark hcls, ?_⟩
  cases hlast : image.classes.reverse.find? fun decl => decl.name == cls with
  | some decl =>
    rw [hlast] at hfind
    have hdecl : decl ∈ image.classes := List.mem_reverse.mp (List.mem_of_find?_eq_some hlast)
    have hdeclName : decl.name = cls := (find?_reverse_eq_some_iff.mp hlast).1
    refine ⟨⟨fun _ => ⟨decl, hdecl, hdeclName⟩, fun _ => ⟨_, _, hfind⟩⟩, ?_, ?_⟩
    · intro c l' hok
      rw [hfind] at hok
      cases hok
      have hqualified : qualifiedName (some file) decl.name = name := by
        rw [hdeclName]
        exact qualifiedName_of_plain file hclsPlain
      exact ⟨hloads, hqualified, rfl, decl, find?_reverse_eq_some_iff.mp hlast, rfl, rfl⟩
    · intro e l' herror
      rw [hfind] at herror
      cases herror
  | none =>
    rw [hlast] at hfind
    have hnone : ¬ ∃ decl ∈ image.classes, decl.name = cls := by
      rintro ⟨decl, hdecl, hdeclName⟩
      have hmiss := List.find?_eq_none.mp hlast decl (List.mem_reverse.mpr hdecl)
      exact hmiss (beq_iff_eq.mpr hdeclName)
    refine ⟨⟨?_, fun hdeclared => absurd hdeclared hnone⟩, ?_, ?_⟩
    · rintro ⟨c, l', hok⟩
      rw [hfind] at hok
      cases hok
    · intro c l' hok
      rw [hfind] at hok
      cases hok
    · intro e l' herror
      rw [hfind] at herror
      cases herror
      exact ⟨hloads, rfl⟩

/-- A linker in which the program that repeats its class names is known as a file, not loaded yet. -/
def echoShelf : Linkage :=
  ⟨Registry.empty (Source.ofFiles [("echoes", echoing.encode)]), Store.empty 16⟩

/-- The class that the file declares twice is found with the member of the second declaration, and
belongs to the only module; a class that the file does not declare is not found, and the file is
loaded all the same. -/
theorem found_in_echoes : echoShelf.registry.source.image "echoes" = .ok echoing ∧
    (∃ c l', findClass "~echoes~Twice" echoShelf = .ok c l' ∧ c.members = [⟨"b", [Tag.byte]⟩] ∧
      l'.registry.modules[c.module]?.map LoadedModule.file = some (some "echoes")) ∧
    ∃ l', findClass "~echoes~Once" echoShelf = .error (.classNotFound "~echoes~Once") l' ∧
      l'.registry.file? "echoes" = some 0 := by
  have himage : echoShelf.registry.source.image "echoes" = .ok echoing := by
    have hdecoded : (echoShelf.registry.source.image "echoes").toOption = some echoing := by
      decide +kernel
    cases hfetched : echoShelf.registry.source.image "echoes" with
    | ok image =>
      rw [hfetched] at hdecoded
      cases hdecoded
      rfl
    | error e =>
      rw [hfetched] at hdecoded
      cases hdecoded
  have hplain : ∀ decl ∈ echoing.classes, isQualifiedName decl.name = false := by decide +kernel
  refine ⟨himage, ?_, ?_⟩
  · obtain ⟨-, -, hiff, hfound, -⟩ := found_iff_declared_in_file echoShelf "echoes" "Twice"
      (by decide) (by decide) rfl himage hplain (by decide) (by decide) rfl
    obtain ⟨c, l', hok⟩ := hiff.mpr ⟨_, List.mem_cons_self, rfl⟩
    obtain ⟨hloads, -, hmodule, decl, hlast, hmembers, -⟩ := hfound c l' hok
    refine ⟨c, l', hok, ?_, ?_⟩
    · have hdecl : decl = ⟨"Twice", [⟨"b", [Tag.byte]⟩], []⟩ := by
        have hfind := find?_reverse_eq_some_iff.mpr hlast
        exact (Option.some.inj hfind).symm
      rw [hmembers, hdecl]
    · rw [hmodule, hloads.module_eq]
      rfl
  · obtain ⟨-, -, hiff, -, hmissing⟩ := found_iff_declared_in_file echoShelf "echoes" "Once"
      (by decide) (by decide) rfl himage hplain (by decide) (by decide) rfl
    cases hfind : findClass "~echoes~Once" echoShelf with
    | ok c l' =>
      have hdeclared : ¬ ∃ decl ∈ echoing.classes, decl.name = "Once" := by decide +kernel
      exact absurd (hiff.mp ⟨c, l', hfind⟩) hdeclared
    | error e l' =>
      obtain ⟨hloads, rfl⟩ := hmissing e l' hfind
      exact ⟨l', rfl, hloads.file_eq⟩

end Linkage

end SlotMachine
