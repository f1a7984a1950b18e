import SlotMachine.Fault
import SlotMachine.Number
import SlotMachine.Text.Utf8

/-!
# Operations on values

Mixed numbers are promoted to the higher kind in the order byte, long, double, uint64. Sums,
differences, products, shifts and bitwise results are reduced to the width of the kind, except that
results of two bytes that leave the range of a byte become longs. A quotient is an integer when the
division is exact and a double otherwise.
-/

namespace SlotMachine

/-- An operation on two values. -/
inductive BinaryOp where
  /-- Sum. -/
  | add
  /-- Difference. -/
  | sub
  /-- Product. -/
  | mul
  /-- Quotient. -/
  | div
  /-- Remainder. -/
  | rem
  /-- Shift to the left. -/
  | shl
  /-- Shift to the right. -/
  | shr
  /-- Bitwise and. -/
  | and
  /-- Bitwise or. -/
  | or
  /-- Bitwise exclusive or. -/
  | xor
  deriving DecidableEq

namespace BinaryOp

/-- The operation that an opcode stands for. -/
def ofOpcode? : Opcode → Option BinaryOp
  | .add => some add
  | .sub => some sub
  | .mul => some mul
  | .div => some div
  | .rem => some rem
  | .shl => some shl
  | .shr => some shr
  | .and => some and
  | .or => some or
  | .xor => some xor
  | _ => none

/-- The name of the operation in messages. -/
def name : BinaryOp → String
  | add => "addition"
  | sub => "subtraction"
  | mul => "multiplication"
  | div => "division"
  | rem => "remainder"
  | shl => "shift left"
  | shr => "shift right"
  | and => "bitwise and"
  | or => "bitwise or"
  | xor => "bitwise xor"

end BinaryOp

namespace Operation

/-- A byte when it fits, a long otherwise. -/
def narrow (n : Int64) : Value :=
  if -128 ≤ n.toInt ∧ n.toInt ≤ 127 then .byte (Int8.ofInt n.toInt) else .long n

/-- The quotient of two integers as a double. -/
def inexactQuotient (a b : Int) : Value :=
  .double ((Double.ofInt a).div (Double.ofInt b))

/-- The operation on signed 64-bit integers. The smallest integer divided by minus one leaves the
range and becomes a double. -/
def long (op : BinaryOp) (a b : Int64) : Except Fault Value :=
  match op with
  | .add => .ok (.long (a + b))
  | .sub => .ok (.long (a - b))
  | .mul => .ok (.long (a * b))
  | .div =>
    if b = 0 then .error .divisionByZero
    else if a % b ≠ 0 ∨ (a = Int64.minValue ∧ b = -1) then
      .ok (inexactQuotient a.toInt b.toInt)
    else .ok (.long (a / b))
  | .rem => if b = 0 then .error .divisionByZero else .ok (.long (a % b))
  | .shl => .ok (.long (a <<< b))
  | .shr => .ok (.long (a >>> b))
  | .and => .ok (.long (a &&& b))
  | .or => .ok (.long (a ||| b))
  | .xor => .ok (.long (a ^^^ b))

/-- The operation on unsigned 64-bit integers. -/
def uint64 (op : BinaryOp) (a b : UInt64) : Except Fault Value :=
  match op with
  | .add => .ok (.uint64 (a + b))
  | .sub => .ok (.uint64 (a - b))
  | .mul => .ok (.uint64 (a * b))
  | .div =>
    if b = 0 then .error .divisionByZero
    else if a % b ≠ 0 then .ok (inexactQuotient a.toNat b.toNat)
    else .ok (.uint64 (a / b))
  | .rem => if b = 0 then .error .divisionByZero else .ok (.uint64 (a % b))
  | .shl => .ok (.uint64 (a <<< b))
  | .shr => .ok (.uint64 (a >>> b))
  | .and => .ok (.uint64 (a &&& b))
  | .or => .ok (.uint64 (a ||| b))
  | .xor => .ok (.uint64 (a ^^^ b))

/-- The operation on doubles; shifts and bitwise operations have none. -/
def double (op : BinaryOp) (a b : Double) : Except Fault Value :=
  match op with
  | .add => .ok (.double (a.add b))
  | .sub => .ok (.double (a.sub b))
  | .mul => .ok (.double (a.mul b))
  | .div => .ok (.double (a.div b))
  | .rem => .ok (.double (a.rem b))
  | _ => .error (.typeMismatch op.name "integer" "double")

/-- The operands do not fit the operation. -/
def mismatch (op : BinaryOp) (left right : Value) : Fault :=
  .typeMismatch op.name "compatible operands" (left.typeName ++ " and " ++ right.typeName)

/-- The higher of two numeric kinds. -/
def wider (left right : Tag) : Tag :=
  match left.rank?, right.rank? with
  | some a, some b => if b ≤ a then left else right
  | _, _ => right

/-- Bring two numbers to their wider kind. -/
def promote? (left right : Value) : Option (Value × Value) := do
  let kind := wider left.tag right.tag
  let (l, _) ← left.convert? kind
  let (r, _) ← right.convert? kind
  pure (l, r)

/-- The operation on two numbers. -/
def numeric (op : BinaryOp) (left right : Value) : Except Fault Value :=
  match promote? left right with
  | some (.byte a, .byte b) =>
    (long op (Int64.ofInt a.toInt) (Int64.ofInt b.toInt)).map fun v =>
      match v with
      | .long n => narrow n
      | v => v
  | some (.long a, .long b) => long op a b
  | some (.uint64 a, .uint64 b) => uint64 op a b
  | some (.double a, .double b) => double op a b
  | _ => .error (mismatch op left right)

/-- A text written a number of times in a row. -/
def repeatText (maxLen : Nat) (s : String) (count : Nat) : Except Fault Value :=
  let requested := min (s.utf8ByteSize * count) (UInt64.size - 1)
  if maxLen < requested then .error (.allocationLimit .text requested maxLen)
  else if s.utf8ByteSize = 0 then .ok (.text "")
  else .ok (.text (String.join (List.replicate count s)))

/-- An array handle moved by a number of elements. -/
def moveHandle (a : ArrayHandle) (distance : Int) : Value :=
  .array { a with offset := a.offset + Int64.ofInt distance }

/-- The result of an operation on two values. Besides numbers, texts can be joined and repeated,
array handles moved, and handles into the same storage subtracted. A repeated text may have at most
`maxLen` bytes. -/
def binary (op : BinaryOp) (left right : Value) (maxLen : Nat) : Except Fault Value :=
  if left.isNumeric && right.isNumeric then numeric op left right
  else
    match op, left, right with
    | .add, .text a, .text b => .ok (.text (a ++ b))
    | .mul, .text s, n | .mul, n, .text s =>
      match n.integer? with
      | some (.ofNat count) => repeatText maxLen s count
      | _ => .error (mismatch op left right)
    | .add, .array a, n | .add, n, .array a =>
      match n.integer? with
      | some i => .ok (moveHandle a i)
      | none => .error (mismatch op left right)
    | .sub, .array a, .array b =>
      if a.storage = b.storage then .ok (.long (a.offset - b.offset))
      else .error (mismatch op left right)
    | .sub, .array a, n =>
      match n.integer? with
      | some i => .ok (moveHandle a (-i))
      | none => .error (mismatch op left right)
    | _, _, _ => .error (mismatch op left right)

/-- The negated number. A byte whose negation is no byte becomes a long. -/
def neg : Value → Except Fault Value
  | .byte n => .ok (narrow (-Int64.ofInt n.toInt))
  | .long n => .ok (.long (-n))
  | .double d => .ok (.double d.neg)
  | .uint64 n => .ok (.uint64 (-n))
  | v => .error (.typeMismatch "negation" "number" v.typeName)

/-- Whether a comparison holds between two values. Integers of any kinds are compared exactly, a
double with the double nearest to the other number; nothing but "not equal" holds of a NaN. -/
def compare (op : Comparison) (left right : Value) : Except Fault Bool :=
  let mismatch : Fault := .typeMismatch ("comparison " ++ op.symbol) "matching operand types"
    (left.typeName ++ " " ++ op.symbol ++ " " ++ right.typeName)
  match left.integer?, right.integer? with
  | some a, some b => .ok (op.holds (Ord.compare a b))
  | _, _ =>
    if left.isNumeric && right.isNumeric then
      match left.approximate.compare? right.approximate with
      | some ordering => .ok (op.holds ordering)
      | none => .ok (op == .ne)
    else
      match left, right with
      | .text a, .text b => .ok (op.holds (Text.compareBytes a b))
      | .array a, .array b =>
        match op with
        | .eq => .ok (a == b)
        | .ne => .ok (a != b)
        | _ => .error (.typeMismatch ("comparison " ++ op.symbol) "number or string" "array")
      | _, _ => .error mismatch

end Operation

end SlotMachine
