import SlotMachine.Cell
import SlotMachine.Fault

/-!
# The store

Everything a machine touches lies in one store: a list of heaps, each a list of cells. Module
heaps, array storage and class instances are all heaps, and heaps are never removed.

Questions are functions from a store to `Except Fault`; changes are actions in `StoreM`, in which
the store survives a fault.
-/

namespace SlotMachine

/-- What the elements of array storage are. -/
inductive ElementKind where
  /-- Untyped cells. -/
  | untyped
  /-- Cells declared with these tags. -/
  | tagged (tags : List Tag)
  /-- Instances of this class, constructed when they are first reached. -/
  | instances (cls : String)
  deriving DecidableEq, Inhabited

/-- What a heap is used for. -/
inductive HeapKind where
  /-- The heap of a module. -/
  | module
  /-- Array storage: the element count, then the elements. -/
  | array (element : ElementKind)
  /-- A class instance: the class name, then the members. -/
  | object
  /-- Cells of the machine itself. -/
  | scratch
  deriving DecidableEq, Inhabited

/-- One heap. -/
structure Heap where
  /-- What it is used for. -/
  kind : HeapKind
  /-- Its cells. -/
  cells : Array Cell
  deriving DecidableEq, Inhabited

/-- All heaps of a machine. -/
structure Store where
  /-- The heaps, numbered from 0. -/
  heaps : Array Heap
  /-- The warnings recorded since they were last taken, oldest first. -/
  warnings : Array Warning
  /-- The largest number of elements an array may have. -/
  maxLen : Nat
  deriving DecidableEq, Inhabited

/-- An action that changes a store. The store survives a fault. -/
abbrev StoreM (α : Type) := EStateM Fault Store α

namespace Store

/-- A store without heaps. -/
def empty (maxLen : Nat) : Store := ⟨#[], #[], maxLen⟩

/-- The heap with the given number. -/
def heap (s : Store) (id : HeapId) : Except Fault Heap :=
  match s.heaps[id]? with
  | some h => .ok h
  | none => .error (.slotOutOfRange id 0 0)

/-- How many cells a heap has. -/
def heapSize (s : Store) (id : HeapId) : Except Fault Nat :=
  (s.heap id).map fun h => h.cells.size

/-- The cell at a slot; references are not followed. -/
def cell (s : Store) (slot : Slot) : Except Fault Cell :=
  match s.heap slot.heap with
  | .error e => .error e
  | .ok h =>
    match h.cells[slot.index]? with
    | some c => .ok c
    | none => .error (.slotOutOfRange slot.heap slot.index h.cells.size)

/-- Change the cells of a heap. Nothing happens when there is no such heap. -/
def modifyHeap (s : Store) (id : HeapId) (f : Array Cell → Array Cell) : Store :=
  { s with heaps := s.heaps.modify id fun h => { h with cells := f h.cells } }

/-- Replace the cell at a slot. Nothing happens when there is no such slot. -/
def setCell (s : Store) (slot : Slot) (c : Cell) : Store :=
  s.modifyHeap slot.heap fun cells => cells.setIfInBounds slot.index c

/-- Add a heap and return its number. -/
def alloc (s : Store) (kind : HeapKind) (cells : Array Cell) : HeapId × Store :=
  (s.heaps.size, { s with heaps := s.heaps.push ⟨kind, cells⟩ })

/-- Record a warning. -/
def warn (s : Store) (w : Warning) : Store :=
  { s with warnings := s.warnings.push w }

/-- Take the recorded warnings out of the store. -/
def takeWarnings (s : Store) : List Warning × Store :=
  (s.warnings.toList, { s with warnings := #[] })

end Store

namespace StoreM

/-- Ask a question about the present store. -/
@[inline]
def ask {α : Type} (question : Store → Except Fault α) : StoreM α := fun s =>
  match question s with
  | .ok a => .ok a s
  | .error e => .error e s

/-- Add a heap and return its number. -/
def alloc (kind : HeapKind) (cells : Array Cell) : StoreM HeapId := fun s =>
  let (id, s) := s.alloc kind cells
  .ok id s

/-- Record a warning. -/
def warn (w : Warning) : StoreM Unit :=
  modify fun s => s.warn w

/-- Replace the cell at a slot. -/
def replace (slot : Slot) (c : Cell) : StoreM Unit := do
  let _ ← ask fun s => s.cell slot
  modify fun s => s.setCell slot c

/-- Add a cell at the end of a heap and return its slot. -/
def push (id : HeapId) (c : Cell) : StoreM Slot := do
  let len ← ask fun s => s.heapSize id
  modify fun s => s.modifyHeap id fun cells => cells.push c
  pure ⟨id, len⟩

/-- Add untyped cells to a heap until it has the given length. -/
def extend (id : HeapId) (len : Nat) : StoreM Unit := do
  let present ← ask fun s => s.heapSize id
  modify fun s => s.modifyHeap id fun cells => cells ++ Array.replicate (len - present) Cell.free

end StoreM

end SlotMachine
