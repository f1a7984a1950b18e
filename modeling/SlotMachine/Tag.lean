/-!
# Type tags

The type of a cell is a sequence of tag bytes. A wrapper tag (array, reference, const reference)
is followed by the tags of what it wraps; any other tag ends the sequence.
-/

namespace SlotMachine

/-- One byte of a type. Bytes above `Tag.origin` have no meaning and are named `unknown`. -/
abbrev Tag := UInt8

namespace Tag

/-- The tag of a cell that accepts any value. -/
abbrev untyped : Tag := 0x00

/-- The tag of signed 8-bit integers. -/
abbrev byte : Tag := 0x01

/-- The tag of signed 64-bit integers. -/
abbrev long : Tag := 0x02

/-- The tag of double precision numbers. -/
abbrev double : Tag := 0x03

/-- The tag of unsigned 64-bit integers. -/
abbrev uint64 : Tag := 0x04

/-- The tag of texts. -/
abbrev string : Tag := 0x05

/-- The wrapper tag of array handles. -/
abbrev array : Tag := 0x06

/-- The wrapper tag of references that may be written through. -/
abbrev ref : Tag := 0x07

/-- The wrapper tag of references that may only be read through. -/
abbrev const : Tag := 0x08

/-- The tag of class instances. -/
abbrev object : Tag := 0x09

/-- The tag of raw host handles. -/
abbrev origin : Tag := 0x0A

/-- Whether the tag is followed by the tags of what it wraps. -/
def isWrapper (t : Tag) : Bool :=
  t == array || t == ref || t == const

/-- Whether the tag has a meaning. -/
def isKnown (t : Tag) : Bool :=
  t ≤ origin

/-- Whether cells of this type hold numbers. -/
def isNumeric (t : Tag) : Bool :=
  t == byte || t == long || t == double || t == uint64

/-- Whether cells of this type stand for another slot. -/
def isReference (t : Tag) : Bool :=
  t == ref || t == const

/-- The promotion rank of a numeric tag: byte, long, double, then uint64. -/
def rank? (t : Tag) : Option Nat :=
  if t = byte then some 0
  else if t = long then some 1
  else if t = double then some 2
  else if t = uint64 then some 3
  else none

/-- The name of the type, as it appears in messages and listings. -/
def name (t : Tag) : String :=
  match t with
  | 0x00 => "untyped"
  | 0x01 => "byte"
  | 0x02 => "long"
  | 0x03 => "double"
  | 0x04 => "uint64"
  | 0x05 => "string"
  | 0x06 => "array"
  | 0x07 => "reference"
  | 0x08 => "const"
  | 0x09 => "object"
  | 0x0A => "origin"
  | _ => "unknown"

end Tag

end SlotMachine
