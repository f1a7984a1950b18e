import SlotMachine.Store.Access
import SlotMachine.Store.Array

/-!
# Native functions

Functions of the host that programs call by name, and the sink to which they print. A native
function sees the store and the sink; it cannot call back into the program.
-/

namespace SlotMachine

/-- Where programs print. A sink may refuse writes or flushes, and gives a reason when it does. -/
structure Sink where
  /-- What has been written. -/
  written : String
  /-- Why writes fail, if they do. -/
  writeRefusal : Option String
  /-- Why flushes fail, if they do. -/
  flushRefusal : Option String
  deriving DecidableEq, Inhabited

namespace Sink

/-- A sink that takes everything. -/
def empty : Sink := ⟨"", none, none⟩

/-- The fault of a sink that refuses. -/
def refused (reason : String) : Fault := .io "output" reason

/-- Push what has been written on to its destination. -/
def flush (sink : Sink) : Except Fault Unit :=
  match sink.flushRefusal with
  | some reason => .error (refused reason)
  | none => .ok ()

end Sink

/-- What native functions work on. -/
structure World where
  /-- The heaps. -/
  store : Store
  /-- Where text goes. -/
  sink : Sink

/-- An action of a native function. Store and sink survive a fault. -/
abbrev WorldM (α : Type) := EStateM Fault World α

namespace WorldM

/-- Change the store. -/
@[inline]
def onStore {α : Type} (action : StoreM α) : WorldM α := fun ⟨store, sink⟩ =>
  match action store with
  | .ok a store => .ok a ⟨store, sink⟩
  | .error e store => .error e ⟨store, sink⟩

/-- Ask a question about the store. -/
@[inline]
def ask {α : Type} (question : Store → Except Fault α) : WorldM α :=
  onStore (StoreM.ask question)

/-- Write a text and flush the sink. An empty text writes nothing, so that a sink which refuses
writes lets it pass. -/
def write (s : String) : WorldM Unit := fun ⟨store, ⟨written, writeRefusal, flushRefusal⟩⟩ =>
  match if s.isEmpty then none else writeRefusal with
  | some reason => .error (Sink.refused reason) ⟨store, ⟨written, writeRefusal, flushRefusal⟩⟩
  | none =>
    let sink : Sink := ⟨written ++ s, writeRefusal, flushRefusal⟩
    match sink.flush with
    | .ok () => .ok () ⟨store, sink⟩
    | .error e => .error e ⟨store, sink⟩

end WorldM

/-- A native function. -/
structure Native where
  /-- How many arguments it takes besides the return slot; any number if negative. -/
  arity : Int
  /-- What it does, given the number of active calls and the slots of the call. The first slot is
  the return slot. -/
  run : Nat → List Slot → WorldM Unit

namespace Native

/-- A call must hand over the return slot and as many arguments as the function takes. -/
def checkArity (name : String) (f : Native) (slots : Nat) : Except Fault Unit :=
  if f.arity < 0 ∨ (slots : Int) = f.arity + 1 then .ok ()
  else .error (.arityMismatch name (f.arity + 1).toNat slots)

/-- The text of a value that can be printed: a number or a text. -/
def printable (name : String) (v : Value) : Except Fault String :=
  match v with
  | .byte _ | .long _ | .double _ | .uint64 _ | .text _ => .ok v.display
  | v => .error (.native name ("cannot print " ++ v.typeName))

/-- The name of `print`. -/
def printName : String := "__builtin_print"

/-- Print a number or text and return the number of bytes. -/
def print (result argument : Slot) : WorldM Unit := do
  let v ← WorldM.ask fun s => s.value argument
  let text ← WorldM.ask fun _ => printable printName v
  WorldM.write text
  WorldM.onStore (StoreM.write result (.long (Int64.ofNat text.utf8ByteSize)))

/-- The name of `printAll`. -/
def printAllName : String := "__builtin_vaprint"

/-- Print the elements from `index` on, at most `count` of them, and return the number of bytes,
those already written included. Empty elements print nothing. -/
def printElements (a : ArrayHandle) : (count index written : Nat) → WorldM Nat
  | 0, _, written => pure written
  | count + 1, index, written => do
    match ← WorldM.ask fun s => s.element? a (Int64.ofNat index) with
    | none => pure written
    | some slot =>
      let v ← WorldM.ask fun s => s.value slot
      match v with
      | .nothing => printElements a count (index + 1) written
      | v =>
        let text ← WorldM.ask fun _ => printable printAllName v
        WorldM.write text
        printElements a count (index + 1) (written + text.utf8ByteSize)

/-- How many elements there seem to be from a handle on in an array of a length. The length is taken
for a signed number, and the difference must be one too. -/
def remaining (len : Nat) (offset : Int64) : Except Fault Nat :=
  let difference := (Int64.ofNat len).toInt - offset.toInt
  if Int64.minValue.toInt ≤ difference ∧ difference ≤ Int64.maxValue.toInt then
    .ok difference.toNat
  else .error (.crash .subtraction)

/-- Print every element of an array and return the number of bytes. The elements are only read. -/
def printAll (result argument : Slot) : WorldM Unit := do
  let a ← WorldM.ask fun s => s.array argument
  let len ← WorldM.ask fun s => s.elementCount a.storage
  let count ← WorldM.ask fun _ => remaining len a.offset
  let written ← printElements a count 0 0
  WorldM.onStore (StoreM.write result (.long (Int64.ofNat written)))

/-- The name of `abs`. -/
def absName : String := "__builtin_abs"

/-- The absolute value. The smallest integer of a signed kind becomes one of a wider kind. -/
def absValue : Value → Except Fault Value
  | .byte n =>
    if n = Int8.minValue then .ok (.long 128) else .ok (.byte (if n < 0 then -n else n))
  | .long n =>
    if n = Int64.minValue then .ok (.uint64 9223372036854775808)
    else .ok (.long (if n < 0 then -n else n))
  | .double d => .ok (.double d.abs)
  | .uint64 n => .ok (.uint64 n)
  | v => .error (.typeMismatch absName "number" v.typeName)

/-- Store the absolute value of a number. -/
def abs (result argument : Slot) : WorldM Unit := do
  let v ← WorldM.ask fun s => s.value argument
  let magnitude ← WorldM.ask fun _ => absValue v
  WorldM.onStore (StoreM.write result magnitude)

/-- A native function of one argument. -/
def unary (f : Slot → Slot → WorldM Unit) : Native where
  arity := 1
  run := fun _ slots =>
    match slots with
    | result :: argument :: _ => f result argument
    | _ => pure ()

end Native

/-- The native functions by name, one entry for each name. -/
abbrev NativeTable := List (String × Native)

namespace NativeTable

/-- The native function with a name. -/
def find? (t : NativeTable) (name : String) : Option Native :=
  t.lookup name

/-- Add a native function under a name that is not taken. -/
def register (t : NativeTable) (name : String) (f : Native) : Except Refusal NativeTable :=
  match t.find? name with
  | some _ => .error (.nativeTaken name)
  | none => .ok ((name, f) :: t)

/-- The native functions that every machine has. -/
def standard : NativeTable :=
  [(Native.printName, Native.unary Native.print),
    (Native.printAllName, Native.unary Native.printAll),
    (Native.absName, Native.unary Native.abs)]

end NativeTable

end SlotMachine
