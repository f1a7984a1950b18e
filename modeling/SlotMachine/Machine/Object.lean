import SlotMachine.Machine.Call

/-!
# Allocation, elements and members

The instructions that allocate arrays and instances, reach array elements and bind members.
-/

namespace SlotMachine.MachineM

open Instruction

/-- The slot of every module's heap that holds the instance of its top-level class. -/
def topSlot : Nat := 2

/-- Begin to make the instance of a module's top-level class, unless there is one. The instance is
noted before its constructor runs. The result is the instance and where the machine goes on. -/
def topInstance (module : ModuleId) (resume : Resume) : MachineM (HeapId × Flow) := do
  let loaded ← ask fun m => m.registry.module module
  match loaded.topInstance with
  | some object =>
    perform resume
    pure (object, .next)
  | none =>
    let cls ← onLinkage (LinkM.topClass module)
    onStore (StoreM.extend loaded.heap (topSlot + 1))
    let object ← onStore (StoreM.alloc .object cls.template)
    onStore (StoreM.replace ⟨loaded.heap, topSlot⟩
      { Cell.declared [Tag.object] with value := .object object })
    modify fun m => { m with registry := m.registry.setTopInstance module object }
    let flow ← construct cls object resume
    pure (object, flow)

/-- Allocate an array and store its handle. -/
def newArray (target : Slot) (element : ElementKind) (len : Nat) : MachineM Flow := do
  let a ← onStore (StoreM.allocArray element len)
  onStore (StoreM.write target (.array a))
  pure .next

/-- Allocate an instance, store it, and begin its constructor. -/
def newInstance (target : Slot) (cls : Class) (resume : Resume) : MachineM Flow := do
  let object ← onStore (StoreM.alloc .object cls.template)
  onStore (StoreM.write target (.object object))
  construct cls object resume

/-- Bind a slot to the instance of another module's top-level class. The module is loaded and the
instance made if need be. -/
def bindModule (target : Slot) (file : String) : MachineM Flow := do
  let module ← onLinkage (LinkM.requireFile file)
  let loaded ← ask fun m => m.registry.module module
  let (_, flow) ← topInstance module (.bind target ⟨loaded.heap, topSlot⟩)
  pure flow

/-- Whether a name asks for the top-level class of a file. A qualified name must be well-formed. -/
def topLevelFile? (name : String) : Except Fault (Option String) :=
  if isQualifiedName name then
    (splitClassName name).map fun (file, cls) =>
      if cls = Image.topClass then some file else none
  else .ok none

/-- Allocate what a class name asks for: one instance, or an array of them when a size is given. -/
def newNamed (f : Frame) (target : Slot) (size : Nat) (name : String) : MachineM Flow := do
  let qualified ← ask fun m => m.registry.qualifiedIn f.module name
  let cls ← onLinkage (LinkM.findClass qualified)
  if size = 0 then newInstance target cls .proceed
  else newArray target (.instances cls.name) size

/-- The kind of elements that have the type of a slot. -/
def elementsLike (tags : List Tag) : ElementKind :=
  if Cell.outer tags = Tag.untyped then .untyped else .tagged tags

/-- Allocate an array whose elements have the type of a slot. -/
def newLike (target typeSlot : Slot) (size : Nat) : MachineM Flow := do
  let c ← ask fun m => m.store.originCell typeSlot
  newArray target (elementsLike c.tags) size

/-- Allocate. Type operand 0 asks for an untyped array, a slot with a class name for instances of
the class, and any other slot for an array of elements of its type. -/
def new (f : Frame) (i : Instruction) : MachineM Flow := do
  let operands ← ask fun _ => i.exactly 3
  let target := f.slot (nth 0 operands)
  let size := (← onStore (StoreM.readUInt64 (f.slot (nth 1 operands)))).toNat
  if nth 2 operands = 0 then newArray target .untyped size
  else
    let typeSlot := f.slot (nth 2 operands)
    let v ← ask fun m => m.store.value typeSlot
    match v with
    | .text name =>
      match ← ask fun _ => topLevelFile? name with
      | some file => bindModule target file
      | none =>
        if name.isEmpty then newLike target typeSlot size
        else newNamed f target size name
    | _ => newLike target typeSlot size

/-- Bind a slot to an array element. An element that is an instance is made when it is first
reached. -/
def array (f : Frame) (i : Instruction) : MachineM Flow := do
  let operands ← ask fun _ => i.exactly 3
  let result := f.slot (nth 0 operands)
  let a ← ask fun m => m.store.array (f.slot (nth 1 operands))
  let index ← onStore (StoreM.readLong (f.slot (nth 2 operands)))
  match ← onStore (StoreM.reachElement a index) with
  | .ready slot =>
    perform (.bind result slot)
    pure .next
  | .unbuilt slot className =>
    let cls ← onLinkage (LinkM.findClass className)
    newInstance slot cls (.bind result slot)

/-- Bind a slot to a member of an instance. -/
def loadMember (f : Frame) (i : Instruction) : MachineM Flow := do
  let operands ← ask fun _ => i.exactly 3
  let object ← receiver f (nth 1 operands)
  let member ← ask fun m => m.store.text (f.slot (nth 2 operands))
  let className ← ask fun m => m.store.text ⟨object, 0⟩
  let cls ← onLinkage (LinkM.findClass className)
  match cls.memberOffset? member with
  | none => throw (.memberNotFound className member)
  | some offset =>
    perform (.bind (f.slot (nth 0 operands)) ⟨object, 1 + offset⟩)
    pure .next

end SlotMachine.MachineM
