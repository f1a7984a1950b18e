import SlotMachine.Proofs.Action
import SlotMachine.Proofs.Linkage
import Mathlib.Tactic.Common

/-!
# Loading on request

Whatever is asked of a linker, it changes in few ways: it stays as it is, it asks its source in
vain, or it enters one module, and a file only if it is not loaded yet. So a file that is loaded is
never asked for again, a file that cannot be had leaves no trace but the question, and modules stay
what they are, each with a heap that was new when the module was entered. The contents of the source
may change at any time.
-/

namespace SlotMachine

/-- The module that a source has under a file name: its bytes must be there and they must decode. -/
def Source.image (s : Source) (file : String) : Except Fault Image :=
  (s.fetch file).bind Image.decode

/-- A module with the file from which it comes; a program comes from none. -/
structure Entry where
  /-- The file. -/
  file : Option String
  /-- The module. -/
  image : Image
  deriving DecidableEq

/-- What may be asked of a linker. -/
inductive LinkRequest where
  /-- Install a program. -/
  | program (image : Image)
  /-- Give the module of a file. -/
  | require (file : String)
  /-- Find the class known under a name. -/
  | find (name : String)
  /-- Find the top-level class of a module. -/
  | top (id : ModuleId)
  /-- Go on with other contents of the source. -/
  | supply (fetch : String → Except Fault (List UInt8))

/-- The action that is asked for. What it answers is of no interest here. -/
def LinkRequest.action : LinkRequest → LinkM Unit
  | program image => discard (LinkM.install none image)
  | require file => discard (LinkM.requireFile file)
  | find name => discard (LinkM.findClass name)
  | top id => discard (LinkM.topClass id)
  | supply fetch => modify fun l => { l with registry.source.fetch := fetch }

namespace Linkage

/-- The state after an action, whether it succeeds or fails. -/
def after {α : Type} (l : Linkage) (x : LinkM α) : Linkage :=
  match x l with
  | .ok _ l' => l'
  | .error _ l' => l'

/-- The state after a request. -/
def serve (l : Linkage) (request : LinkRequest) : Linkage :=
  l.after request.action

/-- The state after requests. -/
def serveAll (l : Linkage) (requests : List LinkRequest) : Linkage :=
  requests.foldl serve l

/-- The source has been asked for a file. -/
def asked (l : Linkage) (file : String) : Linkage :=
  { l with registry.source.requests := file :: l.registry.source.requests }

/-- A module has been entered, with a heap of its own. -/
def enter (l : Linkage) (e : Entry) : Linkage :=
  ⟨(l.registry.enter l.store.heaps.size e.file e.image).2,
    (l.store.alloc .module (e.image.heap.map Cell.declared).toArray).2⟩

/-- What is entered when a file is asked for: nothing if it is loaded already or cannot be had. -/
def fileEntry? (l : Linkage) (file : String) : Option Entry :=
  match l.registry.file? file, l.registry.source.image file with
  | none, .ok image => some ⟨some file, image⟩
  | _, _ => none

/-- What is entered when a class is looked for: nothing if it is known already. -/
def classEntry? (l : Linkage) (name : String) : Option Entry :=
  match l.registry.class? name, splitClassName name with
  | none, .ok (file, _) => l.fileEntry? file
  | _, _ => none

/-- What is entered when a request is served. -/
def entry? (l : Linkage) : LinkRequest → Option Entry
  | .program image => some ⟨none, image⟩
  | .require file => l.fileEntry? file
  | .find name => l.classEntry? name
  | .top id =>
    match l.registry.qualifiedIn id Image.topClass with
    | .ok name => l.classEntry? name
    | .error _ => none
  | .supply _ => none

/-- How a request changes a linker, and what is entered. -/
inductive Step (l : Linkage) : Option Entry → Linkage → Prop where
  /-- Nothing has changed. -/
  | same : l.Step none l
  /-- The source has other contents. -/
  | supplied (fetch : String → Except Fault (List UInt8)) :
      l.Step none { l with registry.source.fetch := fetch }
  /-- A file was asked for in vain. -/
  | asked {file : String} {e : Fault} : l.registry.file? file = none →
      l.registry.source.image file = .error e → l.Step none (l.asked file)
  /-- A file was loaded that was not loaded before. -/
  | loaded {file : String} {image : Image} : l.registry.file? file = none →
      l.registry.source.image file = .ok image →
      l.Step (some ⟨some file, image⟩) ((l.asked file).enter ⟨some file, image⟩)
  /-- A program was installed. -/
  | program (image : Image) : l.Step (some ⟨none, image⟩) (l.enter ⟨none, image⟩)

/-- How a request fails. -/
inductive Fails (l : Linkage) : Fault → Linkage → Prop where
  /-- It is refused at once. -/
  | refused (e : Fault) : l.Fails e l
  /-- A file cannot be had. -/
  | unavailable {file : String} {e : Fault} : l.registry.file? file = none →
      l.registry.source.image file = .error e → l.Fails e (l.asked file)
  /-- A file is loaded, but it does not declare the class that is looked for. -/
  | missing {file : String} {image : Image} (name : String) : l.registry.file? file = none →
      l.registry.source.image file = .ok image →
      l.Fails (.classNotFound name) ((l.asked file).enter ⟨some file, image⟩)

end Linkage

/-- The file that a name gives stands between its first two marks. -/
theorem toList_of_split {name file cls : String} (h : splitClassName name = .ok (file, cls)) :
    ∃ rest, name.toList = '~' :: rest ∧ file.toList = rest.takeWhile (· != '~') := by
  unfold splitClassName at h
  split at h
  · rename_i rest hrest
    refine ⟨rest, hrest, ?_⟩
    dsimp only at h
    split at h
    · split at h <;> cases h
      rw [String.toList_ofList]
    · cases h
  · cases h

/-- A name that gives a file begins with the mark of qualified names. -/
theorem isQualifiedName_of_split {name file cls : String}
    (h : splitClassName name = .ok (file, cls)) : isQualifiedName name = true := by
  obtain ⟨rest, hrest, -⟩ := toList_of_split h
  rw [isQualifiedName, hrest]
  rfl

namespace LinkM

open Linkage

variable {l l' : Linkage} {file name cls : String} {id : ModuleId} {image : Image} {e : Fault}

/-- A file that is loaded is not loaded again. -/
theorem requireFile_of_loaded (h : l.registry.file? file = some id) :
    requireFile file l = .ok id l := by
  unfold requireFile
  rw [Action.get_bind, h]
  rfl

/-- Asking the source for a file is noted, whether or not it has the file. -/
theorem fetch_eq (file : String) (l : Linkage) :
    fetch file l =
      match l.registry.source.fetch file with
      | .ok bytes => .ok bytes (l.asked file)
      | .error e => .error e (l.asked file) := rfl

/-- A file that is not loaded is asked for, and entered if it can be had. -/
theorem requireFile_of_new (hfile : l.registry.file? file = none) :
    requireFile file l =
      match l.registry.source.image file with
      | .ok image => .ok l.registry.modules.size ((l.asked file).enter ⟨some file, image⟩)
      | .error e => .error e (l.asked file) := by
  unfold requireFile Source.image
  rw [Action.get_bind, hfile]
  dsimp only
  cases hfetch : l.registry.source.fetch file with
  | error e =>
    have hfetched : fetch file l = .error e (l.asked file) := by rw [fetch_eq, hfetch]
    rw [Action.bind_of_error hfetched]
    rfl
  | ok bytes =>
    have hfetched : fetch file l = .ok bytes (l.asked file) := by rw [fetch_eq, hfetch]
    rw [Action.bind_of_ok hfetched, Except.bind]
    cases Image.decode bytes with
    | error e => rfl
    | ok image => rfl

/-- A class that is known is found at once. -/
theorem findClass_of_known {c : Class} (h : l.registry.class? name = some c) :
    findClass name l = .ok c l := by
  unfold findClass
  rw [Action.get_bind, h]
  rfl

/-- The class known under a name, with no file loaded for it. -/
def knownClass (name : String) : LinkM Class := do
  match (← get).registry.class? name with
  | some c => pure c
  | none => throw (.classNotFound name)

/-- A class that is not known is looked for in the file that its name gives. -/
theorem findClass_of_unknown (hclass : l.registry.class? name = none)
    (hname : splitClassName name = .ok (file, cls)) :
    findClass name l = (do let _ ← requireFile file; knownClass name) l := by
  have hqualified : isQualifiedName name = true := isQualifiedName_of_split hname
  unfold findClass
  rw [Action.get_bind, hclass]
  dsimp only
  rw [if_pos hqualified, hname]
  rfl

/-- A class that is not known and whose name gives no file is not found. -/
theorem findClass_of_unsplit (hclass : l.registry.class? name = none)
    (hname : splitClassName name = .error e) : ∃ e', findClass name l = .error e' l := by
  unfold findClass
  rw [Action.get_bind, hclass]
  dsimp only
  cases isQualifiedName name with
  | true =>
    rw [if_pos rfl, hname]
    exact ⟨e, rfl⟩
  | false =>
    rw [if_neg (by simp), Action.get_bind, hclass]
    exact ⟨_, rfl⟩

/-- Everything that requiring a file can do: it is loaded already, or it is loaded now, or it cannot
be had. -/
theorem requireFile_cases (file : String) (l : Linkage) :
    (∃ id, l.registry.file? file = some id ∧ requireFile file l = .ok id l) ∨
      (∃ image, l.registry.file? file = none ∧ l.registry.source.image file = .ok image ∧
        requireFile file l =
          .ok l.registry.modules.size ((l.asked file).enter ⟨some file, image⟩)) ∨
      ∃ e, l.registry.file? file = none ∧ l.registry.source.image file = .error e ∧
        requireFile file l = .error e (l.asked file) := by
  cases hfile : l.registry.file? file with
  | some id => exact .inl ⟨id, rfl, requireFile_of_loaded hfile⟩
  | none =>
    have hnew := requireFile_of_new hfile
    cases himage : l.registry.source.image file with
    | ok image =>
      rw [himage] at hnew
      exact .inr (.inl ⟨image, rfl, rfl, hnew⟩)
    | error e =>
      rw [himage] at hnew
      exact .inr (.inr ⟨e, rfl, rfl, hnew⟩)

/-- Everything that looking for a class can do: it is known, or its name gives no file, or it is
looked for in the file that its name gives. -/
theorem findClass_cases (name : String) (l : Linkage) :
    (∃ c, l.registry.class? name = some c ∧ findClass name l = .ok c l) ∨
      (∃ e e', l.registry.class? name = none ∧ splitClassName name = .error e ∧
        findClass name l = .error e' l) ∨
      ∃ file cls, l.registry.class? name = none ∧ splitClassName name = .ok (file, cls) ∧
        findClass name l = (do let _ ← requireFile file; knownClass name) l := by
  cases hclass : l.registry.class? name with
  | some c => exact .inl ⟨c, rfl, findClass_of_known hclass⟩
  | none =>
    cases hname : splitClassName name with
    | error e =>
      obtain ⟨e', he'⟩ := findClass_of_unsplit hclass hname
      exact .inr (.inl ⟨e, e', rfl, rfl, he'⟩)
    | ok parts =>
      obtain ⟨file, cls⟩ := parts
      exact .inr (.inr ⟨file, cls, rfl, rfl, findClass_of_unknown hclass hname⟩)

/-- Looking for a known class changes nothing and fails if there is none. -/
theorem knownClass_eq (name : String) (l : Linkage) :
    knownClass name l =
      match l.registry.class? name with
      | some c => .ok c l
      | none => .error (.classNotFound name) l := by
  unfold knownClass
  rw [Action.get_bind]
  cases l.registry.class? name <;> rfl

/-- The top-level class of a module is looked for under its qualified name. -/
theorem topClass_eq (id : ModuleId) (l : Linkage) :
    topClass id l =
      match l.registry.qualifiedIn id Image.topClass with
      | .ok name => findClass name l
      | .error e => .error e l := by
  unfold topClass
  rw [Action.get_bind]
  cases l.registry.qualifiedIn id Image.topClass <;> rfl

/-- Why a file is not given. -/
theorem fails_requireFile (h : requireFile file l = .error e l') : l.Fails e l' := by
  rcases requireFile_cases file l with ⟨_, -, hok⟩ | ⟨_, -, -, hok⟩ | ⟨e', hfile, himage, herror⟩
  · rw [hok] at h
    cases h
  · rw [hok] at h
    cases h
  · rw [herror] at h
    cases h
    exact .unavailable hfile himage

/-- Why a class is not found. -/
theorem fails_findClass (h : findClass name l = .error e l') : l.Fails e l' := by
  rcases findClass_cases name l with ⟨c, -, hok⟩ | ⟨_, e', -, -, herror⟩ | ⟨file, cls, -, -, heq⟩
  · rw [hok] at h
    cases h
  · rw [herror] at h
    cases h
    exact .refused _
  · rw [heq] at h
    -- Once the file is there, only the class can be missing.
    have hmissing : ∀ id l₁, requireFile file l = .ok id l₁ →
        e = .classNotFound name ∧ l' = l₁ := by
      intro id l₁ hok
      rw [Action.bind_of_ok hok, knownClass_eq] at h
      cases hagain : l₁.registry.class? name with
      | some c => simp [hagain] at h
      | none =>
        rw [hagain] at h
        cases h
        exact ⟨rfl, rfl⟩
    rcases requireFile_cases file l with ⟨id, -, hok⟩ | ⟨image, hfile, himage, hok⟩ |
      ⟨_, -, -, herror⟩
    · obtain ⟨-, rfl⟩ := hmissing _ _ hok
      exact .refused e
    · obtain ⟨rfl, rfl⟩ := hmissing _ _ hok
      exact .missing name hfile himage
    · rw [Action.bind_of_error herror] at h
      cases h
      exact fails_requireFile herror

end LinkM

namespace Linkage

open LinkM

variable {l l' : Linkage} {file name : String} {e : Fault} {entry : Option Entry} {α : Type}

theorem after_of_ok {x : LinkM α} {a : α} (h : x l = .ok a l') : l.after x = l' := by
  rw [after, h]

theorem after_of_error {x : LinkM α} (h : x l = .error e l') : l.after x = l' := by
  rw [after, h]

/-- The state does not depend on whether the answer is wanted. -/
theorem after_discard (x : LinkM α) (l : Linkage) : l.after (discard x) = l.after x := by
  unfold after
  rw [Action.discard_eq]
  cases x l <;> rfl

/-- How requiring a file changes a linker. -/
theorem step_requireFile (file : String) (l : Linkage) :
    l.Step (l.fileEntry? file) (l.after (requireFile file)) := by
  unfold fileEntry?
  rcases requireFile_cases file l with ⟨id, hfile, hok⟩ | ⟨image, hfile, himage, hok⟩ |
    ⟨e, hfile, himage, herror⟩
  · rw [after_of_ok hok, hfile]
    exact .same
  · rw [after_of_ok hok, hfile, himage]
    exact .loaded hfile himage
  · rw [after_of_error herror, hfile, himage]
    exact .asked hfile himage

/-- How looking for a class changes a linker. -/
theorem step_findClass (name : String) (l : Linkage) :
    l.Step (l.classEntry? name) (l.after (findClass name)) := by
  unfold classEntry?
  rcases findClass_cases name l with ⟨c, hclass, hok⟩ | ⟨e, e', hclass, hname, herror⟩ |
    ⟨file, cls, hclass, hname, heq⟩
  · rw [after_of_ok hok, hclass]
    exact .same
  · rw [after_of_error herror, hclass, hname]
    exact .same
  · have hafter : l.after (findClass name) = l.after (requireFile file) := by
      unfold after
      rw [heq]
      cases hrequire : requireFile file l with
      | error e l₁ => rw [Action.bind_of_error hrequire]
      | ok id l₁ =>
        rw [Action.bind_of_ok hrequire, knownClass_eq]
        cases l₁.registry.class? name <;> rfl
    rw [hafter, hclass, hname]
    exact step_requireFile file l

/-- How a request changes a linker. -/
theorem step_serve (l : Linkage) (request : LinkRequest) :
    l.Step (l.entry? request) (l.serve request) := by
  cases request with
  | program image => exact .program image
  | require file =>
    rw [serve, LinkRequest.action, after_discard]
    exact step_requireFile file l
  | find name =>
    rw [serve, LinkRequest.action, after_discard]
    exact step_findClass name l
  | top id =>
    rw [serve, LinkRequest.action, after_discard, entry?]
    unfold after
    rw [topClass_eq]
    cases l.registry.qualifiedIn id Image.topClass with
    | ok name => exact step_findClass name l
    | error e => exact .same
  | supply fetch => exact .supplied fetch

/-- Why a request fails. -/
theorem fails_of_action {request : LinkRequest} (h : request.action l = .error e l') :
    l.Fails e l' := by
  cases request with
  | program image => cases h
  | require file => exact fails_requireFile (Action.error_of_discard h)
  | find name => exact fails_findClass (Action.error_of_discard h)
  | top id =>
    have htop := Action.error_of_discard h
    rw [topClass_eq] at htop
    cases hname : l.registry.qualifiedIn id Image.topClass with
    | ok name =>
      rw [hname] at htop
      exact fails_findClass htop
    | error e' =>
      rw [hname] at htop
      cases htop
      exact .refused _
  | supply fetch => cases h

/-- Entering a module leaves the source alone. -/
theorem source_enter (l : Linkage) (e : Entry) : (l.enter e).registry.source = l.registry.source :=
  Registry.source_enter l.registry _ e.file e.image

/-- Entering a module adds it behind the others. -/
theorem modules_enter (l : Linkage) (e : Entry) :
    (l.enter e).registry.modules =
      l.registry.modules.push ⟨e.file, e.image.constants, l.store.heaps.size, none⟩ :=
  Registry.modules_enter l.registry _ e.file e.image

/-- Its heap stands behind the others, too. -/
theorem heaps_enter (l : Linkage) (e : Entry) :
    (l.enter e).store.heaps =
      l.store.heaps.push ⟨.module, (e.image.heap.map Cell.declared).toArray⟩ := rfl

/-- Entering a module notes its file. -/
theorem file?_enter (l : Linkage) (e : Entry) (file : String) :
    (l.enter e).registry.file? file =
      if e.file = some file then some l.registry.modules.size else l.registry.file? file := by
  obtain ⟨origin, image⟩ := e
  obtain ⟨classes, hregistry⟩ := Registry.exists_foldl_insertClass origin l.registry.modules.size
    image.classes l.registry
  have hfiles := congrArg Registry.files hregistry
  cases origin with
  | none =>
    rw [if_neg (by simp)]
    exact congrArg (List.lookup file) hfiles
  | some origin =>
    have hlookup : (l.enter ⟨some origin, image⟩).registry.file? file =
        ((origin, l.registry.modules.size) :: l.registry.files).lookup file :=
      congrArg (fun files => List.lookup file (_ :: files)) hfiles
    rw [hlookup, List.lookup_cons]
    by_cases heq : file = origin
    · simp [heq]
    · rw [beq_eq_false_iff_ne.mpr heq, if_neg (by simpa using Ne.symm heq)]
      rfl

/-- A failed request for a file that cannot be had. -/
theorem Fails.of_unavailable {reason : Fault} (h : l.Fails e l')
    (hasked : l'.registry.source.requests = file :: l.registry.source.requests)
    (himage : l.registry.source.image file = .error reason) : e = reason ∧ l' = l.asked file := by
  cases h with
  | refused _ => simp at hasked
  | unavailable _ himage' =>
    obtain ⟨rfl, -⟩ := List.cons.inj hasked
    rw [himage] at himage'
    cases himage'
    exact ⟨rfl, rfl⟩
  | missing name _ himage' =>
    rw [source_enter] at hasked
    obtain ⟨rfl, -⟩ := List.cons.inj hasked
    rw [himage] at himage'
    cases himage'

/-- What stays as it is whatever is linked later, and what is new about later modules. -/
structure Extends (l l' : Linkage) : Prop where
  /-- A file stays loaded as the same module. -/
  file_kept : ∀ {file : String} {id : ModuleId}, l.registry.file? file = some id →
    l'.registry.file? file = some id
  /-- A module keeps its file, its constants and its heap. -/
  module_kept : ∀ {id : ModuleId} {m : LoadedModule}, l.registry.modules[id]? = some m →
    l'.registry.modules[id]? = some m
  /-- Heaps stay as they are. -/
  heap_kept : ∀ {id : HeapId} {h : Heap}, l.store.heaps[id]? = some h →
    l'.store.heaps[id]? = some h
  /-- The heap of a new module was not there before, and now it is. -/
  heap_fresh : ∀ {id : ModuleId} {m : LoadedModule}, l'.registry.modules[id]? = some m →
    l.registry.modules[id]? = none →
      l.store.heaps.size ≤ m.heap ∧ l'.store.kind? m.heap = some .module
  /-- New modules do not share a heap. -/
  heap_own : ∀ {id id' : ModuleId} {m m' : LoadedModule}, l'.registry.modules[id]? = some m →
    l'.registry.modules[id']? = some m' → l.registry.modules[id]? = none →
    l.registry.modules[id']? = none → m.heap = m'.heap → id = id'

/-- Linking by not changing anything but the source. -/
theorem extends_of_eq (hmodules : l'.registry.modules = l.registry.modules)
    (hfiles : l'.registry.files = l.registry.files) (hstore : l'.store = l.store) :
    l.Extends l' where
  file_kept h := by rwa [Registry.file?, hfiles]
  module_kept h := by rwa [hmodules]
  heap_kept h := by rwa [hstore]
  heap_fresh h hnone := by
    rw [hmodules, hnone] at h
    cases h
  heap_own h _ hnone _ _ := by
    rw [hmodules, hnone] at h
    cases h

namespace Extends

variable {l'' : Linkage} {id id' : ModuleId} {m m' : LoadedModule}

/-- Heaps do not become fewer. -/
theorem size_le (h : l.Extends l') : l.store.heaps.size ≤ l'.store.heaps.size := by
  by_contra hlt
  have hbound : l'.store.heaps.size < l.store.heaps.size := by omega
  have hkept := h.heap_kept (Array.getElem?_eq_getElem hbound)
  simp at hkept

/-- A heap keeps its kind. -/
theorem kind_kept (h : l.Extends l') {heap : HeapId} {kind : HeapKind}
    (hkind : l.store.kind? heap = some kind) : l'.store.kind? heap = some kind := by
  obtain ⟨cells, hheap, rfl⟩ := Store.kind?_eq_some_iff.mp hkind
  exact Store.kind?_eq_some_iff.mpr ⟨cells, h.heap_kept hheap, rfl⟩

/-- A module that is new in the end was new in the middle or is entered later. -/
theorem module_cases (h₂ : l'.Extends l'') (hm : l''.registry.modules[id]? = some m) :
    l'.registry.modules[id]? = some m ∨ l'.registry.modules[id]? = none := by
  cases hmiddle : l'.registry.modules[id]? with
  | none => exact .inr rfl
  | some m₁ =>
    rw [h₂.module_kept hmiddle] at hm
    exact .inl hm

/-- The heap of a module that is new in the middle differs from that of one entered later. -/
theorem heap_ne (h₁ : l.Extends l') (h₂ : l'.Extends l'') (hm : l'.registry.modules[id]? = some m)
    (hnew : l.registry.modules[id]? = none) (hm' : l''.registry.modules[id']? = some m')
    (hlater : l'.registry.modules[id']? = none) : m.heap ≠ m'.heap := by
  obtain ⟨cells, hheap, -⟩ := Store.kind?_eq_some_iff.mp (h₁.heap_fresh hm hnew).2
  have hlt : m.heap < l'.store.heaps.size := (Array.getElem?_eq_some_iff.mp hheap).1
  exact Nat.ne_of_lt (hlt.trans_le (h₂.heap_fresh hm' hlater).1)

/-- What later links add does not change what earlier ones kept. -/
theorem trans (h₁ : l.Extends l') (h₂ : l'.Extends l'') : l.Extends l'' where
  file_kept h := h₂.file_kept (h₁.file_kept h)
  module_kept h := h₂.module_kept (h₁.module_kept h)
  heap_kept h := h₂.heap_kept (h₁.heap_kept h)
  heap_fresh hm hnew := by
    rcases h₂.module_cases hm with hmiddle | hlater
    · obtain ⟨hfresh, hkind⟩ := h₁.heap_fresh hmiddle hnew
      exact ⟨hfresh, h₂.kind_kept hkind⟩
    · obtain ⟨hfresh, hkind⟩ := h₂.heap_fresh hm hlater
      exact ⟨h₁.size_le.trans hfresh, hkind⟩
  heap_own hm hm' hnew hnew' hheap := by
    rcases h₂.module_cases hm with hmiddle | hlater
    · rcases h₂.module_cases hm' with hmiddle' | hlater'
      · exact h₁.heap_own hmiddle hmiddle' hnew hnew' hheap
      · exact absurd hheap (heap_ne h₁ h₂ hmiddle hnew hm' hlater')
    · rcases h₂.module_cases hm' with hmiddle' | hlater'
      · exact absurd hheap.symm (heap_ne h₁ h₂ hmiddle' hnew' hm hlater)
      · exact h₂.heap_own hm hm' hlater hlater' hheap

end Extends

/-- A module that is there after another one was entered is that one or was there before. -/
theorem module_of_enter {entry : Entry} {id : ModuleId} {m : LoadedModule}
    (h : (l.enter entry).registry.modules[id]? = some m) :
    l.registry.modules[id]? = some m ∨
      id = l.registry.modules.size ∧
        m = ⟨entry.file, entry.image.constants, l.store.heaps.size, none⟩ := by
  rw [modules_enter, Array.getElem?_push] at h
  split at h
  · rename_i hid
    exact .inr ⟨hid, (Option.some.inj h).symm⟩
  · exact .inl h

/-- Entering a module whose file is not loaded yet. -/
theorem extends_enter (entry : Entry)
    (hfile : ∀ file, entry.file = some file → l.registry.file? file = none) :
    l.Extends (l.enter entry) where
  file_kept {file id} h := by
    rw [file?_enter, if_neg]
    · exact h
    · intro hsame
      rw [hfile file hsame] at h
      cases h
  module_kept {id m} h := by
    have hlt : id < l.registry.modules.size := (Array.getElem?_eq_some_iff.mp h).1
    rw [modules_enter, Array.getElem?_push, if_neg (Nat.ne_of_lt hlt), h]
  heap_kept {id heap} h := by
    have hlt : id < l.store.heaps.size := (Array.getElem?_eq_some_iff.mp h).1
    rw [heaps_enter, Array.getElem?_push, if_neg (Nat.ne_of_lt hlt), h]
  heap_fresh h hnew := by
    rcases module_of_enter h with hold | ⟨-, rfl⟩
    · rw [hnew] at hold
      cases hold
    · exact ⟨le_rfl, (Store.kind?_alloc l.store .module _ _).trans (if_pos rfl)⟩
  heap_own h h' hnew hnew' _ := by
    rcases module_of_enter h with hold | ⟨rfl, -⟩
    · rw [hnew] at hold
      cases hold
    · rcases module_of_enter h' with hold | ⟨rfl, -⟩
      · rw [hnew'] at hold
        cases hold
      · rfl

/-- One step keeps what is there. -/
theorem Step.extends (h : l.Step entry l') : l.Extends l' := by
  cases h with
  | same => exact extends_of_eq rfl rfl rfl
  | supplied fetch => exact extends_of_eq rfl rfl rfl
  | asked _ _ => exact extends_of_eq rfl rfl rfl
  | @loaded file image hfile himage =>
    have hasked : l.Extends (l.asked file) := extends_of_eq rfl rfl rfl
    refine hasked.trans (extends_enter _ ?_)
    rintro _ ⟨⟩
    exact hfile
  | program image => exact extends_enter _ (by simp)

/-- Any number of requests keeps what is there. -/
theorem extends_serveAll (l : Linkage) (requests : List LinkRequest) :
    l.Extends (l.serveAll requests) := by
  induction requests generalizing l with
  | nil => exact extends_of_eq rfl rfl rfl
  | cons request others ih => exact (l.step_serve request).extends.trans (ih (l.serve request))

/-- A file has just been given or entered as a module. -/
inductive LoadedAs (l : Linkage) (file : String) (id : ModuleId) : Prop where
  /-- It was required, and the module was given. -/
  | required {before : Linkage} : requireFile file before = .ok id l → l.LoadedAs file id
  /-- It was entered, whatever was asked for. -/
  | entered {before : Linkage} {request : LinkRequest} {image : Image} :
      before.entry? request = some ⟨some file, image⟩ → l = before.serve request →
      id = before.registry.modules.size → l.LoadedAs file id

/-- It is noted as that module. -/
theorem LoadedAs.file?_eq {id : ModuleId} (h : l.LoadedAs file id) :
    l.registry.file? file = some id := by
  cases h with
  | @required before h =>
    rcases requireFile_cases file before with ⟨_, hfile, hok⟩ | ⟨_, -, -, hok⟩ | ⟨_, -, -, herror⟩
    · rw [hok] at h
      cases h
      exact hfile
    · rw [hok] at h
      cases h
      rw [file?_enter, if_pos rfl]
      rfl
    · rw [herror] at h
      cases h
  | @entered before request image hentry hserve hid =>
    have hstep := before.step_serve request
    rw [hentry, ← hserve] at hstep
    cases hstep with
    | loaded _ _ =>
      rw [file?_enter, if_pos rfl, hid]
      rfl

/-- Whatever is asked of a linker, and however the contents of its source change in between: a file
that was given or entered as a module is given as that module ever after, without a question to the
source and without a change; a request that fails because a file is missing or does not decode
leaves classes, modules, files and store as they were; and modules and heaps stay what they are,
while every later module has a heap of its own that was not there before. -/
theorem linking_is_once_atomic_and_monotone (l : Linkage) (requests : List LinkRequest) :
    (∀ file id, l.LoadedAs file id →
      requireFile file (l.serveAll requests) = .ok id (l.serveAll requests)) ∧
    (∀ (request : LinkRequest) e l' file reason, request.action l = .error e l' →
      l'.registry.source.requests = file :: l.registry.source.requests →
      l.registry.source.image file = .error reason →
      e = reason ∧ l'.registry.classes = l.registry.classes ∧
        l'.registry.modules = l.registry.modules ∧ l'.registry.files = l.registry.files ∧
        l'.store = l.store) ∧
    l.Extends (l.serveAll requests) := by
  have hextends := l.extends_serveAll requests
  refine ⟨fun file id h => ?_, fun request e l' file reason hfails hasked himage => ?_, hextends⟩
  · exact requireFile_of_loaded (hextends.file_kept h.file?_eq)
  · obtain ⟨rfl, rfl⟩ := (fails_of_action hfails).of_unavailable hasked himage
    exact ⟨rfl, rfl, rfl, rfl, rfl⟩

/-- A module that declares one class. -/
def library : Image where
  constants := #[.long 7]
  heap := [[Tag.untyped]]
  classes := [⟨"Foo", [⟨"a", [Tag.long]⟩, ⟨"b", [Tag.string]⟩], []⟩]

/-- A linker whose source has that module, and a file that is none. -/
def shelf : Linkage :=
  ⟨Registry.empty (Source.ofFiles [("lib", library.encode), ("torn", [0])]), Store.empty 16⟩

/-- Looking for the class loads the file. After that, it is given as the same module though another
file is asked for in vain, a program is installed and the source is emptied. -/
theorem lib_stays_loaded :
    let found := shelf.serve (.find "~lib~Foo")
    let later := found.serveAll [.require "torn", .program library, .supply Source.empty.fetch]
    found.LoadedAs "lib" 0 ∧ requireFile "lib" later = .ok 0 later ∧
      (∃ e l', (LinkRequest.require "torn").action shelf = .error e l' ∧ l'.store = shelf.store) ∧
      ∃ m, later.registry.modules[0]? = some m ∧ m.file = some "lib" := by
  intro found later
  have hentry : shelf.entry? (.find "~lib~Foo") = some ⟨some "lib", library⟩ := by decide +kernel
  have hloaded : found.LoadedAs "lib" 0 := .entered hentry rfl rfl
  obtain ⟨honce, -, hextends⟩ := linking_is_once_atomic_and_monotone found
    [.require "torn", .program library, .supply Source.empty.fetch]
  refine ⟨hloaded, honce "lib" 0 hloaded, ?_, ?_⟩
  · have htorn : (shelf.registry.source.image "torn").toOption = none := by decide +kernel
    cases himage : shelf.registry.source.image "torn" with
    | ok image =>
      rw [himage] at htorn
      cases htorn
    | error reason =>
      have hnew : requireFile "torn" shelf = _ := requireFile_of_new rfl
      rw [himage] at hnew
      have hfails : (LinkRequest.require "torn").action shelf =
          .error reason (shelf.asked "torn") := by
        rw [LinkRequest.action, Action.discard_eq, hnew]
      obtain ⟨-, hatomic, -⟩ := linking_is_once_atomic_and_monotone shelf []
      obtain ⟨-, -, -, -, hstore⟩ := hatomic _ _ _ "torn" reason hfails rfl himage
      exact ⟨reason, _, hfails, hstore⟩
  · have hfound : found.registry.modules[0]?.map LoadedModule.file = some (some "lib") := by
      decide +kernel
    obtain ⟨m, hm, hfile⟩ := Option.map_eq_some_iff.mp hfound
    exact ⟨m, hextends.module_kept hm, hfile⟩

end Linkage

end SlotMachine
