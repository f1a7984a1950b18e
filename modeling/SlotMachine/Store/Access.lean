import SlotMachine.Number
import SlotMachine.Store.Reference

/-!
# Typed access

Writes go to the end of the mutable references. An undeclared cell takes on the type of what it
receives; a declared numeric cell converts numbers into its kind and warns when that loses
information; any other change of a declared type is a fault. Typed reads convert numbers in the
same way.
-/

namespace SlotMachine.StoreM

/-- Warn when a conversion lost information. -/
def warnIfLossy (lossy : Bool) (source target : Tag) : StoreM Unit :=
  if lossy then warn (.lossyConversion source target) else pure ()

/-- Write a value that is not a reference. -/
def writeValue (slot : Slot) (v : Value) : StoreM Unit := do
  let target ← ask fun s => s.writable slot
  let c ← ask fun s => s.cell target
  if !c.fixed then replace target (Cell.holding v)
  else if c.tag = v.tag then replace target { c with value := v }
  else
    match if c.tag.isNumeric then v.convert? c.tag else none with
    | some (converted, lossy) => do
      warnIfLossy lossy v.tag c.tag
      replace target { c with value := converted }
    | none => throw (.typeMismatch "store" c.tag.name v.typeName)

/-- Write a value. Writing a reference binds the slot itself. -/
def write (slot : Slot) (v : Value) : StoreM Unit :=
  match v with
  | .ref target => bindRef slot target
  | v => writeValue slot v

/-- Read a number as the numeric kind of a tag. -/
def readNumber (slot : Slot) (kind : Tag) (operation : String) : StoreM Value := do
  let v ← ask fun s => s.value slot
  match v.convert? kind with
  | some (converted, lossy) => do
    warnIfLossy lossy v.tag kind
    pure converted
  | none => throw (.typeMismatch operation "number" v.typeName)

/-- Read a number as a signed 8-bit integer. -/
def readByte (slot : Slot) : StoreM Int8 := do
  match ← readNumber slot Tag.byte "read byte" with
  | .byte n => pure n
  | v => throw (.typeMismatch "read byte" "byte" v.typeName)

/-- Read a number as a signed 64-bit integer. -/
def readLong (slot : Slot) : StoreM Int64 := do
  match ← readNumber slot Tag.long "read long" with
  | .long n => pure n
  | v => throw (.typeMismatch "read long" "long" v.typeName)

/-- Read a number as a double. -/
def readDouble (slot : Slot) : StoreM Double := do
  match ← readNumber slot Tag.double "read double" with
  | .double d => pure d
  | v => throw (.typeMismatch "read double" "double" v.typeName)

/-- Read a number as an unsigned 64-bit integer. -/
def readUInt64 (slot : Slot) : StoreM UInt64 := do
  match ← readNumber slot Tag.uint64 "read uint64" with
  | .uint64 n => pure n
  | v => throw (.typeMismatch "read uint64" "uint64" v.typeName)

end SlotMachine.StoreM

namespace SlotMachine.Store

/-- The text that a slot holds. -/
def text (s : Store) (slot : Slot) : Except Fault String :=
  match s.value slot with
  | .ok (.text t) => .ok t
  | .ok v => .error (.typeMismatch "read string" "string" v.typeName)
  | .error e => .error e

/-- The array handle that a slot holds. -/
def array (s : Store) (slot : Slot) : Except Fault ArrayHandle :=
  match s.value slot with
  | .ok (.array a) => .ok a
  | .ok v => .error (.typeMismatch "read array" "array" v.typeName)
  | .error e => .error e

/-- The class instance that a slot holds. -/
def object (s : Store) (slot : Slot) : Except Fault HeapId :=
  match s.value slot with
  | .ok (.object h) => .ok h
  | .ok v => .error (.typeMismatch "read object" "object" v.typeName)
  | .error e => .error e

end SlotMachine.Store
