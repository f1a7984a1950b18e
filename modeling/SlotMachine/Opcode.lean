/-!
# Opcodes

An instruction is one opcode byte followed by operands. Most opcodes take a fixed number of
operands; the two calls carry an explicit count of the slots that follow.
-/

namespace SlotMachine

/-- What an instruction does. -/
inductive Opcode where
  /-- Nothing. -/
  | nop
  /-- Nothing but a warning; kept for older programs. -/
  | load
  /-- Nothing but a warning; kept for older programs. -/
  | store
  /-- Allocate an array or instance: pointer, size, type. -/
  | new
  /-- Bind a slot to an array element: result, array, index. -/
  | array
  /-- Nothing but a warning; kept for older programs. -/
  | ptr
  /-- Sum. -/
  | add
  /-- Difference. -/
  | sub
  /-- Product. -/
  | mul
  /-- Quotient. -/
  | div
  /-- Remainder. -/
  | rem
  /-- Negation. -/
  | neg
  /-- Shift to the left. -/
  | shl
  /-- Shift to the right. -/
  | shr
  /-- Make the result an alias of the operand's origin. -/
  | refer
  /-- Continue at one of two instructions: condition, then, otherwise. -/
  | branch
  /-- Bitwise and. -/
  | and
  /-- Bitwise or. -/
  | or
  /-- Bitwise exclusive or. -/
  | xor
  /-- Compare: result, comparison code, left, right. -/
  | cmp
  /-- Call a free function: name, count, slots. -/
  | invoke
  /-- Copy a value. -/
  | copy
  /-- Continue at the instruction whose index a slot holds. -/
  | jump
  /-- Load a constant: result, index in the pool. -/
  | loadConst
  /-- Cast into the declared type of the result. -/
  | convert
  /-- Make the result a const alias. -/
  | freeze
  /-- Call a method: receiver, name, count, slots. -/
  | invokeMethod
  /-- Bind a slot to a member: result, instance, name. -/
  | loadMember
  /-- Nothing; reserved. -/
  | wide
  deriving DecidableEq, Inhabited

/-- How many operands follow an opcode. -/
inductive Arity where
  /-- Exactly this many. -/
  | fixed (count : Nat)
  /-- This many, the last of which counts the further ones. -/
  | counted (leading : Nat)
  deriving DecidableEq

namespace Opcode

/-- Every opcode. -/
def all : List Opcode :=
  [nop, load, store, new, array, ptr, add, sub, mul, div, rem, neg, shl, shr, refer, branch,
    and, or, xor, cmp, invoke, copy, jump, loadConst, convert, freeze, invokeMethod, loadMember,
    wide]

/-- The byte that stands for the opcode in a module. -/
def code : Opcode → UInt8
  | nop => 0x00
  | load => 0x01
  | store => 0x02
  | new => 0x03
  | array => 0x04
  | ptr => 0x05
  | add => 0x06
  | sub => 0x07
  | mul => 0x08
  | div => 0x09
  | rem => 0x0A
  | neg => 0x0B
  | shl => 0x0C
  | shr => 0x0D
  | refer => 0x0E
  | branch => 0x0F
  | and => 0x10
  | or => 0x11
  | xor => 0x12
  | cmp => 0x13
  | invoke => 0x14
  | copy => 0x15
  | jump => 0x16
  | loadConst => 0x17
  | convert => 0x18
  | freeze => 0x19
  | invokeMethod => 0x1A
  | loadMember => 0x1B
  | wide => 0xFF

/-- The opcode that a byte stands for. -/
def ofCode? (b : UInt8) : Option Opcode :=
  all.find? fun op => op.code == b

/-- The operands that the opcode demands. -/
def arity : Opcode → Arity
  | nop | wide => .fixed 0
  | jump => .fixed 1
  | load | store | ptr | neg | refer | copy | loadConst | convert | freeze => .fixed 2
  | new | array | add | sub | mul | div | rem | shl | shr | and | or | xor | branch
  | loadMember => .fixed 3
  | cmp => .fixed 4
  | invoke => .counted 2
  | invokeMethod => .counted 3

/-- The name of the opcode in listings and messages. -/
def mnemonic : Opcode → String
  | nop => "NOP"
  | load => "LOAD"
  | store => "STORE"
  | new => "NEW"
  | array => "ARRAY"
  | ptr => "PTR"
  | add => "ADD"
  | sub => "SUB"
  | mul => "MUL"
  | div => "DIV"
  | rem => "REM"
  | neg => "NEG"
  | shl => "SHL"
  | shr => "SHR"
  | refer => "REFER"
  | branch => "IF"
  | and => "AND"
  | or => "OR"
  | xor => "XOR"
  | cmp => "CMP"
  | invoke => "INVOKE"
  | copy => "EQUAL"
  | jump => "GOTO"
  | loadConst => "LOAD_CONST"
  | convert => "CONVERT"
  | freeze => "CONST"
  | invokeMethod => "INVOKE_METHOD"
  | loadMember => "LOAD_MEMBER"
  | wide => "WIDE"

/-- The opcode with a given name. -/
def ofMnemonic? (s : String) : Option Opcode :=
  all.find? fun op => op.mnemonic == s

end Opcode

/-- The relation that a comparison instruction tests. -/
inductive Comparison where
  /-- Equal. -/
  | eq
  /-- Not equal. -/
  | ne
  /-- Greater. -/
  | gt
  /-- Greater or equal. -/
  | ge
  /-- Less. -/
  | lt
  /-- Less or equal. -/
  | le
  deriving DecidableEq

namespace Comparison

/-- The comparison that an operand selects. -/
def ofCode? (code : UInt64) : Option Comparison :=
  [eq, ne, gt, ge, lt, le][code.toNat]?

/-- The usual sign. -/
def symbol : Comparison → String
  | eq => "=="
  | ne => "!="
  | gt => ">"
  | ge => ">="
  | lt => "<"
  | le => "<="

/-- Whether the comparison holds between two things of which the order is known. -/
def holds : Comparison → Ordering → Bool
  | eq, o => o == .eq
  | ne, o => o != .eq
  | gt, o => o == .gt
  | ge, o => o != .lt
  | lt, o => o == .lt
  | le, o => o != .gt

end Comparison

end SlotMachine
