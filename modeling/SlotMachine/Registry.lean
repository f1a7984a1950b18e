import SlotMachine.Image.Decode
import SlotMachine.Store.Reference

/-!
# Linking

Classes are known by their qualified names. Classes of the program keep their declared names; those
of a module loaded from a file are known as `~file~class`, and asking for such a name loads the file
unless it is loaded already. When two declarations have the same qualified name the later one wins.
-/

namespace SlotMachine

/-- Where the bytes of modules come from. -/
structure Source where
  /-- The bytes of the module stored under a file name. -/
  fetch : String → Except Fault (List UInt8)
  /-- The files that were asked for, latest first. -/
  requests : List String

namespace Source

/-- The source that has no files. -/
def empty : Source := ⟨fun file => .error (.io file "no such module"), []⟩

/-- How many times a file was asked for. -/
def requestCount (s : Source) (file : String) : Nat :=
  s.requests.count file

/-- The source in which a file has new contents. -/
def insert (s : Source) (file : String) (bytes : List UInt8) : Source :=
  { s with fetch := fun f => if f = file then .ok bytes else s.fetch f }

/-- The source that holds the given files. -/
def ofFiles (files : List (String × List UInt8)) : Source :=
  files.foldl (fun s (file, bytes) => s.insert file bytes) empty

end Source

/-- The number of a loaded module. -/
abbrev ModuleId := Nat

/-- A module inside a machine. -/
structure LoadedModule where
  /-- The file it came from; none for a program. -/
  file : Option String
  /-- Its constant pool. -/
  constants : Array Value
  /-- The heap that all its methods share. -/
  heap : HeapId
  /-- The instance of its top-level class, once there is one. -/
  topInstance : Option HeapId
  deriving DecidableEq, Inhabited

/-- A class inside a machine. -/
structure Class where
  /-- The qualified name. -/
  name : String
  /-- The module that declares it. -/
  module : ModuleId
  /-- The members in layout order. -/
  members : List Member
  /-- The methods in declaration order. -/
  methods : List Function
  deriving DecidableEq, Inhabited

namespace Class

/-- The position of a member. Of two members with one name the later one counts. -/
def memberOffset? (c : Class) (name : String) : Option Nat :=
  (c.members.zipIdx.reverse.find? fun (m, _) => m.name == name).map Prod.snd

/-- The method with a name. Of two methods with one name the later one counts. -/
def method? (c : Class) (name : String) : Option Function :=
  c.methods.reverse.find? fun f => f.name == name

/-- The cells of a new instance: the class name, then the members. -/
def template (c : Class) : Array Cell :=
  #[{ Cell.declared [Tag.string] with value := .text c.name }] ++
    (c.members.map fun m => Cell.declared m.tags).toArray

end Class

/-- Whether a class name carries the mark of a qualified one. -/
def isQualifiedName (name : String) : Bool :=
  name.toList.head? == some '~'

/-- The name under which a class declared in a module is known. -/
def qualifiedName (file : Option String) (name : String) : String :=
  match file with
  | some file => if isQualifiedName name then name else "~" ++ file ++ "~" ++ name
  | none => name

/-- The file and the class of a name of the form `~file~class`, neither of which may be empty. -/
def splitClassName (name : String) : Except Fault (String × String) :=
  match name.toList with
  | '~' :: rest =>
    let file := rest.takeWhile (· != '~')
    match rest.dropWhile (· != '~') with
    | _ :: cls =>
      if file = [] ∨ cls = [] then .error (.invalidClassName name)
      else .ok (String.ofList file, String.ofList cls)
    | [] => .error (.invalidClassName name)
  | _ => .error (.invalidClassName name)

/-- All classes and modules of a machine. -/
structure Registry where
  /-- The classes by qualified name, one entry for each name. -/
  classes : List (String × Class)
  /-- The modules, numbered from 0. -/
  modules : Array LoadedModule
  /-- The modules that were loaded from files. -/
  files : List (String × ModuleId)
  /-- Where further modules come from. -/
  source : Source

namespace Registry

/-- The registry without classes and modules. -/
def empty (source : Source) : Registry := ⟨[], #[], [], source⟩

/-- The class known under a qualified name. -/
def class? (r : Registry) (name : String) : Option Class :=
  r.classes.lookup name

/-- Make a class known under its name, in place of one known so far. -/
def insertClass (r : Registry) (c : Class) : Registry :=
  { r with classes := (c.name, c) :: r.classes.filter fun (name, _) => name != c.name }

/-- How many classes are known. -/
def classCount (r : Registry) : Nat :=
  r.classes.length

/-- The module loaded from a file. -/
def file? (r : Registry) (file : String) : Option ModuleId :=
  r.files.lookup file

/-- Whether a file is loaded. -/
def isLoaded (r : Registry) (file : String) : Bool :=
  (r.file? file).isSome

/-- The module with the given number. -/
def module (r : Registry) (id : ModuleId) : Except Fault LoadedModule :=
  match r.modules[id]? with
  | some m => .ok m
  | none => .error (.classNotFound ("<module " ++ toString id ++ ">"))

/-- The name under which a class declared in a loaded module is known. -/
def qualifiedIn (r : Registry) (id : ModuleId) (name : String) : Except Fault String :=
  (r.module id).map fun m => qualifiedName m.file name

/-- Note the instance of a module's top-level class. -/
def setTopInstance (r : Registry) (id : ModuleId) (instanceHeap : HeapId) : Registry :=
  { r with modules := r.modules.modify id fun m =>
      { m with topInstance := some instanceHeap } }

/-- Enter a module whose heap has been allocated. -/
def enter (r : Registry) (heap : HeapId) (file : Option String) (image : Image) :
    ModuleId × Registry :=
  let id := r.modules.size
  let r := image.classes.foldl
    (fun r decl => r.insertClass ⟨qualifiedName file decl.name, id, decl.members, decl.methods⟩) r
  let files := match file with
    | some file => (file, id) :: r.files
    | none => r.files
  (id, { r with files, modules := r.modules.push ⟨file, image.constants, heap, none⟩ })

end Registry

/-- What linking works on. -/
structure Linkage where
  /-- The classes and modules. -/
  registry : Registry
  /-- The heaps. -/
  store : Store

/-- An action that links. Registry and store survive a fault. -/
abbrev LinkM (α : Type) := EStateM Fault Linkage α

namespace LinkM

/-- Install a module: allocate its heap from the declared tags and enter its classes. -/
def install (file : Option String) (image : Image) : LinkM ModuleId := fun ⟨registry, store⟩ =>
  let (heap, store) := store.alloc .module (image.heap.map Cell.declared).toArray
  let (id, registry) := registry.enter heap file image
  .ok id ⟨registry, store⟩

/-- Ask the source for a file. -/
def fetch (file : String) : LinkM (List UInt8) := fun l =>
  let source := l.registry.source
  let l := { l with registry.source := { source with requests := file :: source.requests } }
  match source.fetch file with
  | .ok bytes => .ok bytes l
  | .error e => .error e l

/-- The module of a file, which is loaded unless it is loaded already. -/
def requireFile (file : String) : LinkM ModuleId := do
  match (← get).registry.file? file with
  | some id => pure id
  | none =>
    let bytes ← fetch file
    match Image.decode bytes with
    | .ok image => install (some file) image
    | .error e => throw e

/-- The class known under a qualified name, whose file is loaded if that is needed. -/
def findClass (name : String) : LinkM Class := do
  match (← get).registry.class? name with
  | some c => pure c
  | none =>
    if isQualifiedName name then
      match splitClassName name with
      | .ok (file, _) => let _ ← requireFile file
      | .error e => throw e
    match (← get).registry.class? name with
    | some c => pure c
    | none => throw (.classNotFound name)

/-- The top-level class of a module. -/
def topClass (id : ModuleId) : LinkM Class := do
  match (← get).registry.qualifiedIn id Image.topClass with
  | .ok name => findClass name
  | .error e => throw e

end LinkM

end SlotMachine
