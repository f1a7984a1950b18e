import SlotMachine.Tag
import SlotMachine.Double.Decimal

/-!
# Values

What a cell can hold: numbers of four kinds, texts, array handles, references to other slots,
class instances and raw host handles. Equality of values is equality of their contents, doubles by
bits; `Value.sameAs` compares doubles as numbers instead.
-/

namespace SlotMachine

/-- The number of a heap in its store. -/
abbrev HeapId := Nat

/-- The address of one cell. -/
structure Slot where
  /-- The heap that holds the cell. -/
  heap : HeapId
  /-- The position of the cell in its heap. -/
  index : Nat
  deriving DecidableEq, Inhabited

/-- A handle into array storage. Element `i` lies in cell `1 + offset + i` of the storage heap,
whose cell 0 holds the element count. -/
structure ArrayHandle where
  /-- The heap that holds the elements. -/
  storage : HeapId
  /-- How far the handle points past the first element; it may be negative. -/
  offset : Int64
  deriving DecidableEq, Inhabited

/-- The contents of a cell. -/
inductive Value where
  /-- No contents. -/
  | nothing
  /-- A signed 8-bit integer. -/
  | byte (n : Int8)
  /-- A signed 64-bit integer. -/
  | long (n : Int64)
  /-- A double precision number. -/
  | double (d : Double)
  /-- An unsigned 64-bit integer. -/
  | uint64 (n : UInt64)
  /-- A text. -/
  | text (s : String)
  /-- A handle into array storage. -/
  | array (a : ArrayHandle)
  /-- A reference, const or not, to another slot. -/
  | ref (target : Slot)
  /-- A class instance; its heap holds the class name and then the members. -/
  | object (heap : HeapId)
  /-- A raw host handle. -/
  | handle (raw : UInt64)
  deriving DecidableEq, Inhabited

namespace Value

/-- The outer tag of a value. -/
def tag : Value → Tag
  | nothing => Tag.untyped
  | byte _ => Tag.byte
  | long _ => Tag.long
  | double _ => Tag.double
  | uint64 _ => Tag.uint64
  | text _ => Tag.string
  | array _ => Tag.array
  | ref _ => Tag.ref
  | object _ => Tag.object
  | handle _ => Tag.origin

/-- The tags that an undeclared cell takes on when it receives the value. -/
def tags : Value → List Tag
  | array _ => [Tag.array, Tag.untyped]
  | ref _ => [Tag.ref, Tag.untyped]
  | v => [v.tag]

/-- The value with which a cell declared with this outer tag starts. -/
def zero (t : Tag) : Value :=
  if t = Tag.byte then byte 0
  else if t = Tag.long then long 0
  else if t = Tag.double then double Double.zero
  else if t = Tag.uint64 then uint64 0
  else if t = Tag.string then text ""
  else nothing

/-- Whether the value is a number. -/
def isNumeric (v : Value) : Bool :=
  v.tag.isNumeric

/-- Whether the value counts as true in a condition: it is a number other than zero. -/
def isTruthy : Value → Bool
  | byte n => n != 0
  | long n => n != 0
  | double d => !d.isZero
  | uint64 n => n != 0
  | _ => false

/-- The name of the value's type. -/
def typeName (v : Value) : String :=
  v.tag.name

/-- Doubles are written with this many decimals. -/
def decimals : Nat := 15

/-- The text of a value, as it is printed and listed. -/
def display : Value → String
  | nothing => "none"
  | byte n => toString n.toInt
  | long n => toString n.toInt
  | double d => d.toFixed decimals
  | uint64 n => toString n.toNat
  | text s => s
  | array a => "<array " ++ toString a.storage ++ "+" ++ toString a.offset.toInt ++ ">"
  | ref s => "<ref " ++ toString s.heap ++ ":" ++ toString s.index ++ ">"
  | object h => "<object " ++ toString h ++ ">"
  | handle raw => "<origin 0x" ++ Text.hexNat raw.toNat ++ ">"

/-- Equality that compares doubles as numbers: both zeros agree, a NaN differs from itself. -/
def sameAs : Value → Value → Bool
  | double a, double b => a.sameNumber b
  | a, b => a == b

end Value

end SlotMachine
