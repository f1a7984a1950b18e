import SlotMachine.Store.Reference

/-!
# Arrays

Array storage is a heap whose cell 0 counts the elements in the following cells. Reaching past the
count raises it; reaching past the last cell adds cells, about an eighth more than asked for. The
storage may thus have more cells than elements.
-/

namespace SlotMachine

/-- An element that has been reached. -/
inductive Element where
  /-- The element is ready. -/
  | ready (slot : Slot)
  /-- The element is reached for the first time and an instance of the class has to be put there. -/
  | unbuilt (slot : Slot) (cls : String)
  deriving DecidableEq

namespace ElementKind

/-- A new element. Instances stay unestablished until they are reached. -/
def fresh : ElementKind → Cell
  | untyped => Cell.free
  | tagged tags => Cell.declared tags
  | instances _ => Cell.blank

/-- The cell of an element without a type when it is reached. -/
def established : ElementKind → Cell
  | untyped => Cell.free
  | tagged tags => Cell.declared tags
  | instances _ => Cell.declared [Tag.object]

/-- The outcome of reaching an element without a type. -/
def reached : ElementKind → Slot → Element
  | instances cls, slot => .unbuilt slot cls
  | _, slot => .ready slot

end ElementKind

namespace ArrayHandle

/-- The position of element `index` in the storage. It must neither overflow nor lie before the
first element. -/
def position (a : ArrayHandle) (index : Int64) : Except Fault Nat :=
  let p := a.offset.toInt + index.toInt
  if 0 ≤ p ∧ p ≤ Int64.maxValue.toInt then .ok p.toNat else .error (.invalidIndex index)

end ArrayHandle

namespace Store

/-- The number of elements in array storage. -/
def elementCount (s : Store) (storage : HeapId) : Except Fault Nat :=
  match s.cell ⟨storage, 0⟩ with
  | .error e => .error e
  | .ok c =>
    match c.value with
    | .uint64 n => .ok n.toNat
    | v => .error (.typeMismatch "array length" "uint64" v.typeName)

/-- The slot of an element, if the array has that many. -/
def element? (s : Store) (a : ArrayHandle) (index : Int64) : Except Fault (Option Slot) := do
  let position ← a.position index
  let len ← s.elementCount a.storage
  pure (if len ≤ position then none else some ⟨a.storage, position + 1⟩)

/-- An array may have at most as many elements as the store allows. -/
def checkCount (s : Store) (requested : Nat) : Except Fault Unit :=
  if s.maxLen < requested then .error (.allocationLimit .array requested s.maxLen) else .ok ()

/-- What the elements of array storage are. -/
def elementKind (s : Store) (storage : HeapId) : Except Fault ElementKind :=
  match s.heap storage with
  | .error e => .error e
  | .ok h =>
    match h.kind with
    | .array element => .ok element
    | _ => .error (.typeMismatch "array access" "array storage" "heap")

/-- The cell at a slot that is taken to be there. If it is not, the machine breaks down. -/
def expectedCell (s : Store) (slot : Slot) : Except Fault Cell :=
  match s.heap slot.heap with
  | .error e => .error e
  | .ok h =>
    match h.cells[slot.index]? with
    | some c => .ok c
    | none => .error (.crash (.outOfBounds h.cells.size slot.index))

end Store

/-- The cell that counts the elements. -/
def arrayHeader (len : Nat) : Cell :=
  { Cell.declared [Tag.uint64] with value := .uint64 (UInt64.ofNat len) }

/-- How many elements the storage has room for when it grows to hold `wanted` elements. -/
def grownCapacity (maxLen wanted : Nat) : Nat :=
  min (wanted + wanted / 8) maxLen

/-- Bring cells to a given number, adding fresh ones or dropping the last ones. -/
def resizeCells (cells : Array Cell) (size : Nat) (fresh : Cell) : Array Cell :=
  if cells.size ≤ size then cells ++ Array.replicate (size - cells.size) fresh
  else cells.extract 0 size

namespace StoreM

/-- Allocate array storage. -/
def allocArray (element : ElementKind) (len : Nat) : StoreM ArrayHandle := do
  ask fun s => s.checkCount len
  let storage ← alloc (.array element) (#[arrayHeader len] ++ Array.replicate len element.fresh)
  pure ⟨storage, 0⟩

/-- Make room for `wanted` elements in array storage, as far as the limit allows, and raise the count
to that. -/
def growArray (storage : HeapId) (element : ElementKind) (len wanted : Nat) : StoreM Unit := do
  let size ← ask fun s => s.heapSize storage
  let capacity := grownCapacity (← get).maxLen wanted
  if size - 1 < wanted then
    modify fun s => s.modifyHeap storage fun cells =>
      resizeCells cells (capacity + 1) element.fresh
  if len < wanted then
    modify fun s => s.modifyHeap storage fun cells =>
      cells.modify 0 fun c => { c with value := .uint64 (UInt64.ofNat wanted) }

/-- Give an element a type if it has none yet. The element is taken to be there. -/
def establish (element : ElementKind) (slot : Slot) : StoreM Element := do
  let c ← ask fun s => s.expectedCell slot
  if c.isEstablished then pure (.ready slot)
  else do
    replace slot element.established
    pure (element.reached slot)

/-- Reach an element, growing the storage when needed. The limit is checked only for elements beyond
the count. -/
def reachElement (a : ArrayHandle) (index : Int64) : StoreM Element := do
  let position ← ask fun _ => a.position index
  let wanted := position + 1
  let len ← ask fun s => s.elementCount a.storage
  if len < wanted then ask fun s => s.checkCount wanted
  let element ← ask fun s => s.elementKind a.storage
  growArray a.storage element len wanted
  establish element ⟨a.storage, wanted⟩

end StoreM

end SlotMachine
