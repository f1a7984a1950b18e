import SlotMachine.Image
import SlotMachine.Text.Utf8
import SlotMachine.Uleb

/-!
# Writing module images

A module starts with four magic bytes and four version bytes. Then come the counted constants, the
counted heap tags, and the classes up to the end. Fixed-width constants are big-endian; a text
carries its length in bytes, one more than the text itself has, and a closing zero byte.
-/

namespace SlotMachine

namespace Image

/-- The first four bytes of every module. -/
def magic : List UInt8 := [0x41, 0x51, 0x42, 0x43]

/-- The version that follows the magic bytes. -/
def version : List UInt8 := [0x00, 0x00, 0x00, 0x03]

/-- The byte in front of the parameters of a variadic method. -/
def variadicMarker : UInt8 := 0xFF

/-- The eight bytes of a word, most significant first. -/
def bigEndian (n : UInt64) : List UInt8 :=
  ([56, 48, 40, 32, 24, 16, 8, 0] : List UInt64).map fun shift => (n >>> shift).toUInt8

/-- A name and its closing zero byte. -/
def encodeName (s : String) : List UInt8 :=
  Text.utf8 s ++ [0]

/-- A count and what is counted. -/
def encodeCounted {α : Type} (encodeItem : α → List UInt8) (items : List α) : List UInt8 :=
  Uleb.encode items.length ++ items.flatMap encodeItem

/-- An operand or parameter. -/
def encodeWord (n : UInt64) : List UInt8 :=
  Uleb.encode n.toNat

/-- A constant: its tag and its payload. Values without a byte form are written as their tag. -/
def encodeConstant (v : Value) : List UInt8 :=
  v.tag :: match v with
    | .byte n => [n.toUInt8]
    | .long n => bigEndian n.toUInt64
    | .double d => bigEndian d.bits
    | .uint64 n => bigEndian n
    | .text s => Uleb.encode ((Text.utf8 s).length + 1) ++ encodeName s
    | _ => []

/-- An instruction: its opcode byte and its operands. -/
def encodeInstruction (i : Instruction) : List UInt8 :=
  i.opcode.code :: i.operands.flatMap encodeWord

/-- A method: name, marker if variadic, parameters, code. -/
def encodeFunction (f : Function) : List UInt8 :=
  encodeName f.name ++ (if f.variadic then [variadicMarker] else []) ++
    encodeCounted encodeWord f.params ++ encodeCounted encodeInstruction f.code.toList

/-- A member: name and tags. -/
def encodeMember (m : Member) : List UInt8 :=
  encodeName m.name ++ m.tags

/-- A class: name, members, methods. -/
def encodeClass (c : ClassDecl) : List UInt8 :=
  encodeName c.name ++ encodeCounted encodeMember c.members ++
    encodeCounted encodeFunction c.methods

/-- The byte form of an image. -/
def encode (m : Image) : List UInt8 :=
  magic ++ version ++ encodeCounted encodeConstant m.constants.toList ++
    encodeCounted id m.heap ++ m.classes.flatMap encodeClass

end Image

end SlotMachine
