import SlotMachine.Opcode
import SlotMachine.Cell
import SlotMachine.Fault

/-!
# Module images

A module image holds a constant pool, the type tags of its heap and class declarations. Images are
built in memory by the operations of this file, read from bytes by `Image.decode` and written by
`Image.encode`.
-/

namespace SlotMachine

/-- One instruction. -/
structure Instruction where
  /-- What it does. -/
  opcode : Opcode
  /-- What it works on; mostly slots of the module's heap. -/
  operands : List UInt64
  deriving DecidableEq, Inhabited

/-- A method or free function. -/
structure Function where
  /-- The name by which it is called. -/
  name : String
  /-- Whether the last parameter collects all further arguments. -/
  variadic : Bool
  /-- Parameter slots in the module's heap; the first receives the return value. -/
  params : List UInt64
  /-- The body. -/
  code : Array Instruction
  deriving DecidableEq, Inhabited

/-- A declared member of a class. -/
structure Member where
  /-- The name by which it is loaded. -/
  name : String
  /-- The declared type. -/
  tags : List Tag
  deriving DecidableEq, Inhabited

/-- A declared class. -/
structure ClassDecl where
  /-- The name inside its module. -/
  name : String
  /-- The members in layout order. -/
  members : List Member
  /-- The methods. -/
  methods : List Function
  deriving DecidableEq, Inhabited

/-- A module outside any machine. -/
structure Image where
  /-- The constant pool. -/
  constants : Array Value
  /-- The type tags of each cell of the module's heap. -/
  heap : List (List Tag)
  /-- The declared classes. -/
  classes : List ClassDecl
  deriving DecidableEq, Inhabited

namespace Instruction

/-- A call of a free function: the slot of the name, then the slots handed over. -/
def invoke (name : UInt64) (slots : List UInt64) : Instruction :=
  ⟨.invoke, name :: UInt64.ofNat slots.length :: slots⟩

/-- A call of a method: the slot of the receiver, of the name, then the slots handed over. -/
def invokeMethod (receiver name : UInt64) (slots : List UInt64) : Instruction :=
  ⟨.invokeMethod, receiver :: name :: UInt64.ofNat slots.length :: slots⟩

end Instruction

namespace Function

/-- Add an instruction at the end of the body. -/
def emit (f : Function) (i : Instruction) : Function :=
  { f with code := f.code.push i }

/-- How many parameters take one argument each; the last one of a variadic function takes all
further arguments. -/
def namedCount (f : Function) : Nat :=
  if f.variadic then f.params.length - 1 else f.params.length

/-- Whether the function can be called with this many arguments. -/
def accepts (f : Function) (args : Nat) : Bool :=
  if f.variadic then f.namedCount ≤ args else args == f.namedCount

/-- The index that the next instruction gets. -/
def nextIndex (f : Function) : Nat :=
  f.code.size

end Function

/-- The first method declared under a name. -/
def ClassDecl.method? (c : ClassDecl) (name : String) : Option Function :=
  c.methods.find? fun f => f.name == name

namespace Image

/-- The image that declares nothing. -/
def empty : Image := ⟨#[], [], []⟩

/-- The class that holds a program's free functions. -/
def topClass : String := ".!__start"

/-- The method with which a program starts. -/
def entryMethod : String := "!__start"

/-- The method that runs after an instance is allocated. -/
def constructor : String := "@constructor"

/-- The first class declared under a name. -/
def class? (m : Image) (name : String) : Option ClassDecl :=
  m.classes.find? fun c => c.name == name

/-- Equality that compares double constants as numbers. -/
def sameAs (a b : Image) : Bool :=
  a.constants.size == b.constants.size &&
    (a.constants.toList.zip b.constants.toList).all (fun (x, y) => x.sameAs y) &&
    a.heap == b.heap && a.classes == b.classes

/-- Whether a value may stand in a constant pool. -/
def isPoolable : Value → Bool
  | .byte _ | .long _ | .double _ | .uint64 _ | .text _ => true
  | _ => false

/-- The index of a constant, which is added at the end of the pool unless it is there already. -/
def intern (m : Image) (v : Value) : Except Refusal (Nat × Image) :=
  if isPoolable v then
    match m.constants.toList.findIdx? (· == v) with
    | some index => .ok (index, m)
    | none => .ok (m.constants.size, { m with constants := m.constants.push v })
  else .error (.unpoolable v.typeName)

/-- Add a heap cell with the given tags and return its index. -/
def addSlot (m : Image) (tags : List Tag) : Nat × Image :=
  (m.heap.length, { m with heap := m.heap ++ [tags] })

/-- Add a class declaration. -/
def addClass (m : Image) (c : ClassDecl) : Image :=
  { m with classes := m.classes ++ [c] }

end Image

end SlotMachine
