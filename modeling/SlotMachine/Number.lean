import SlotMachine.Value
import SlotMachine.Text.Blank

/-!
# Numeric conversion

Every number can be converted into every numeric kind. The conversion reports whether information
was lost: integers are reduced to the width of the target, doubles are truncated and held within
its range, and integers become the nearest double.
-/

namespace SlotMachine

/-- A number apart from the width it is stored in. -/
inductive Number where
  /-- An integer of any integer kind. -/
  | integer (i : Int)
  /-- A double. -/
  | real (d : Double)
  deriving DecidableEq

namespace Number

/-- Convert an integer of a narrow kind back to check what a conversion kept. A double counts as
kept when the double nearest to the result is the same number. -/
def loses (result : Int) : Number → Bool
  | integer i => result != i
  | real d => !(Double.ofInt result).sameNumber d

/-- The signed 8-bit integer of a number. -/
def toByte : Number → Int8
  | integer i => Int8.ofInt i
  | real d => Int8.ofInt (d.saturate Int8.minValue.toInt Int8.maxValue.toInt)

/-- The signed 64-bit integer of a number. -/
def toLong : Number → Int64
  | integer i => Int64.ofInt i
  | real d => Int64.ofInt (d.saturate Int64.minValue.toInt Int64.maxValue.toInt)

/-- The unsigned 64-bit integer of a number. -/
def toUInt64 : Number → UInt64
  | integer i => UInt64.ofInt i
  | real d => UInt64.ofInt (d.saturate 0 (UInt64.size - 1 : Nat))

/-- The double of a number, and whether an integer lost digits. -/
def toDouble : Number → Double × Bool
  | integer i => let d := Double.ofInt i; (d, d.truncate != i)
  | real d => (d, false)

/-- Convert into the numeric kind of a tag, with a flag that tells whether information was lost. -/
def convert? (n : Number) (kind : Tag) : Option (Value × Bool) :=
  if kind = Tag.byte then
    some (.byte n.toByte, n.loses n.toByte.toInt)
  else if kind = Tag.long then
    some (.long n.toLong, n.loses n.toLong.toInt)
  else if kind = Tag.uint64 then
    some (.uint64 n.toUInt64, n.loses n.toUInt64.toNat)
  else if kind = Tag.double then
    some (.double n.toDouble.1, n.toDouble.2)
  else none

end Number

namespace Value

/-- The integer of an integer kind. -/
def integer? : Value → Option Int
  | byte n => some n.toInt
  | long n => some n.toInt
  | uint64 n => some n.toNat
  | _ => none

/-- The number a value holds. -/
def number? : Value → Option Number
  | double d => some (.real d)
  | v => v.integer?.map .integer

/-- Convert a number into the numeric kind of a tag, with a flag that tells whether information was
lost. There is no result when either side is not numeric. -/
def convert? (v : Value) (kind : Tag) : Option (Value × Bool) :=
  v.number?.bind fun n => n.convert? kind

/-- The double that stands for a number in mixed comparisons. -/
def approximate (v : Value) : Double :=
  match v.number? with
  | some n => n.toDouble.1
  | none => Double.nan

/-- Read a numeral as a value of the numeric kind of a tag. A signed kind takes either sign, the
unsigned kind only a plus, and the number has to lie in the range of the kind. -/
def read? (cs : List Char) (kind : Tag) : Option Value :=
  if kind = Tag.byte then
    (Text.readInteger UInt64.size cs).bind fun i =>
      if Int8.minValue.toInt ≤ i ∧ i ≤ Int8.maxValue.toInt then some (.byte (Int8.ofInt i))
      else none
  else if kind = Tag.long then
    (Text.readInteger UInt64.size cs).bind fun i =>
      if Int64.minValue.toInt ≤ i ∧ i ≤ Int64.maxValue.toInt then some (.long (Int64.ofInt i))
      else none
  else if kind = Tag.uint64 then
    if cs.head? = some '-' then none
    else (Text.readInteger UInt64.size cs).bind fun i =>
      if i < (UInt64.size : Nat) then some (.uint64 (UInt64.ofInt i)) else none
  else if kind = Tag.double then
    (Double.read? cs).map .double
  else none

end Value

end SlotMachine
