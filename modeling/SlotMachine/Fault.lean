import SlotMachine.Opcode
import SlotMachine.Tag
import SlotMachine.Text.Digits

/-!
# Faults and warnings

A fault ends the operation in which it arises; each constructor is one cause and `Fault.message`
gives its wording. All faults but one are returned to whoever asked for the operation: after a crash
there is nobody to return to. A warning is recorded and the operation goes on.
-/

namespace SlotMachine

/-- What is wrong with the bytes of a module at some position. -/
inductive Flaw where
  /-- A byte was needed. -/
  | endOfInput
  /-- This many bytes were needed. -/
  | missingBytes (count : Nat)
  /-- A number that does not end, or does not fit into 64 bits. -/
  | badNumber
  /-- A name without a closing zero byte. -/
  | unterminatedName
  /-- A name that is not UTF-8. -/
  | malformedName
  /-- A text constant that is not UTF-8. -/
  | malformedText
  /-- A variadic method with fewer than two parameters. -/
  | nothingToCollect (method : String)
  deriving DecidableEq

/-- The wording of a flaw. -/
def Flaw.message : Flaw → String
  | endOfInput => "unexpected end of input"
  | missingBytes count => "need " ++ toString count ++ " more bytes"
  | badNumber => "bad ULEB128 value"
  | unterminatedName => "unterminated name"
  | malformedName => "name is not UTF-8"
  | malformedText => "string constant is not UTF-8"
  | nothingToCollect method =>
    "variadic method " ++ method ++ " has no parameter to collect into"

/-- What a program may build only up to a limit. -/
inductive Sized where
  /-- An array, limited in elements. -/
  | array
  /-- A text, limited in bytes. -/
  | text
  deriving DecidableEq

/-- The name of a limited thing. -/
def Sized.name : Sized → String
  | array => "array"
  | text => "string"

/-- How a settings document fails to be read. -/
inductive SettingsFlaw where
  /-- It is not a document of the format. -/
  | grammar
  /-- It is well-formed but a setting has the wrong type, or stands twice. -/
  | content
  /-- It ends too early. -/
  | truncated
  deriving DecidableEq

/-- The wording of a settings flaw. -/
def SettingsFlaw.message : SettingsFlaw → String
  | grammar => "syntax"
  | content => "data"
  | truncated => "eof"

/-- How the machine breaks down where it takes for granted what need not be so. Everything stays as
it is at that moment. That memory runs out is not considered. -/
inductive Crash where
  /-- A cell is taken from an index at which there is none. -/
  | outOfBounds (len index : Nat)
  /-- A difference does not fit into 64 bits. -/
  | subtraction
  /-- A sum does not fit into 64 bits. -/
  | addition
  deriving DecidableEq

/-- The wording of a crash. -/
def Crash.message : Crash → String
  | outOfBounds len index =>
    "index out of bounds: the len is " ++ toString len ++ " but the index is " ++ toString index
  | subtraction => "attempt to subtract with overflow"
  | addition => "attempt to add with overflow"

/-- Why an operation could not go on. -/
inductive Fault where
  /-- A module does not start with the right four bytes. -/
  | badMagic (found : List UInt8)
  /-- A module has another version. -/
  | unsupportedVersion (found : List UInt8)
  /-- The bytes of a module end early or make no sense. -/
  | malformed (offset : Nat) (flaw : Flaw)
  /-- A type tag without meaning. -/
  | unknownTag (tag : Tag)
  /-- An opcode byte without meaning. -/
  | unknownOpcode (code : UInt8)
  /-- A slot beyond the end of its heap, or in no heap at all. -/
  | slotOutOfRange (heap index len : Nat)
  /-- A constant beyond the end of the pool. -/
  | constantOutOfRange (index : Nat)
  /-- A reference that was never bound. -/
  | unboundReference (index : Nat)
  /-- A chain of references that does not end. -/
  | referenceCycle (index : Nat)
  /-- A write through a const slot, or a second binding of one. -/
  | constViolation (index : Nat)
  /-- A slot declared as a value that should become a reference. -/
  | notAReference (index : Nat)
  /-- A reference bound to a value of another type than declared. -/
  | referenceTypeMismatch (declared got : Tag)
  /-- Operands of a type that the operation does not take. -/
  | typeMismatch (operation expected got : String)
  /-- An integer division by zero. -/
  | divisionByZero
  /-- A class that no module declares. -/
  | classNotFound (name : String)
  /-- A free function that neither the host nor the program has. -/
  | functionNotFound (name : String)
  /-- A method that the class does not declare. -/
  | methodNotFound (cls method : String)
  /-- A member that the class does not declare. -/
  | memberNotFound (cls member : String)
  /-- A class name that does not have the form `~file~class`. -/
  | invalidClassName (name : String)
  /-- A call with the wrong number of slots. -/
  | arityMismatch (callee : String) (expected got : Nat)
  /-- The receiver is used where there is none. -/
  | noReceiver
  /-- A jump past the end of the code. -/
  | invalidJump (target len : Nat)
  /-- An array index that lies before the first element, or overflows. -/
  | invalidIndex (index : Int64)
  /-- An array or text above the limit. -/
  | allocationLimit (what : Sized) (requested limit : Nat)
  /-- An instruction with the wrong number of operands. -/
  | operandCount (opcode : Opcode) (expected got : Nat)
  /-- Too many calls inside each other. -/
  | callDepthExceeded (depth : Nat)
  /-- A step without an active call. -/
  | stackUnderflow
  /-- No program has been loaded. -/
  | notLoaded
  /-- Something outside the machine could not be read or written. -/
  | io (name cause : String)
  /-- The settings could not be read. -/
  | settings (flaw : SettingsFlaw)
  /-- A native function failed. -/
  | native (name message : String)
  /-- The machine has broken down; the operation does not return. -/
  | crash (cause : Crash)
  deriving DecidableEq

namespace Fault

/-- A list of bytes in brackets, each as two hexadecimal digits. -/
def byteList (bytes : List UInt8) : String :=
  "[" ++ String.intercalate ", " (bytes.map Text.hexByte) ++ "]"

/-- The wording of a fault. -/
def message : Fault → String
  | badMagic found => "bad module magic: " ++ byteList found
  | unsupportedVersion found => "unsupported module version: " ++ byteList found
  | malformed offset flaw =>
    "malformed module at byte " ++ toString offset ++ ": " ++ flaw.message
  | unknownTag tag => "unknown type tag 0x" ++ Text.hexByte tag
  | unknownOpcode code => "unknown opcode 0x" ++ Text.hexByte code
  | slotOutOfRange heap index len =>
    "slot " ++ toString index ++ " is out of range (heap " ++ toString heap ++ " holds " ++
      toString len ++ ")"
  | constantOutOfRange index => "constant " ++ toString index ++ " is out of range"
  | unboundReference index => "reference at slot " ++ toString index ++ " is unbound"
  | referenceCycle index =>
    "reference chain starting at slot " ++ toString index ++ " does not terminate"
  | constViolation index => "slot " ++ toString index ++ " is const"
  | notAReference index =>
    "slot " ++ toString index ++ " is declared as a value and cannot hold a reference"
  | referenceTypeMismatch declared got =>
    "cannot change reference type: declared 0x" ++ Text.hexByte declared ++ ", got 0x" ++
      Text.hexByte got
  | typeMismatch operation expected got =>
    "type error in " ++ operation ++ ": expected " ++ expected ++ ", got " ++ got
  | divisionByZero => "division by zero"
  | classNotFound name => "class not found: " ++ name
  | functionNotFound name => "function not found: " ++ name
  | methodNotFound cls method => "method not found: " ++ cls ++ "." ++ method
  | memberNotFound cls member => "member not found: " ++ cls ++ "." ++ member
  | invalidClassName name => "invalid qualified class name: " ++ name
  | arityMismatch callee expected got =>
    callee ++ " expects " ++ toString expected ++ " argument slots, got " ++ toString got
  | noReceiver => "no receiver in the current frame"
  | invalidJump target len =>
    "jump target " ++ toString target ++ " is out of range (" ++ toString len ++
      " instructions)"
  | invalidIndex index => "array index " ++ toString index.toInt ++ " is out of range"
  | allocationLimit what requested limit =>
    what.name ++ " of length " ++ toString requested ++ " exceeds the limit of " ++
      toString limit
  | operandCount opcode expected got =>
    opcode.mnemonic ++ " expects " ++ toString expected ++ " operands, got " ++ toString got
  | callDepthExceeded depth => "call depth exceeded (" ++ toString depth ++ " frames)"
  | stackUnderflow => "call stack is empty"
  | notLoaded => "no module loaded"
  | io name cause => "cannot load module " ++ name ++ ": " ++ cause
  | settings flaw => "invalid configuration: " ++ flaw.message
  | native name message => "builtin " ++ name ++ " failed: " ++ message
  | crash cause => cause.message

/-- Whether the fault arises from getting at a module rather than from running it. -/
def isLoadFault : Fault → Bool
  | badMagic _ | unsupportedVersion _ | malformed _ _ | unknownTag _ | unknownOpcode _
  | io _ _ => true
  | _ => false

/-- Whether the machine has broken down, so that nothing is returned. -/
def isCrash : Fault → Bool
  | crash _ => true
  | _ => false

end Fault

/-- A condition that is recorded while the program goes on. -/
inductive Warning where
  /-- A number was converted into a kind that cannot represent it. -/
  | lossyConversion (source target : Tag)
  /-- An instruction of older programs was skipped. -/
  | deprecatedOpcode (opcode : Opcode)
  deriving DecidableEq

/-- The wording of a warning. -/
def Warning.message : Warning → String
  | lossyConversion source target =>
    "lossy conversion from 0x" ++ Text.hexByte source ++ " to 0x" ++ Text.hexByte target
  | deprecatedOpcode opcode => "deprecated opcode " ++ opcode.mnemonic

/-- A request that breaks the rules of the host interface. Nothing changes when it is refused. -/
inductive Refusal where
  /-- The constant pool holds numbers and texts only. -/
  | unpoolable (typeName : String)
  /-- A native function of this name exists already. -/
  | nativeTaken (name : String)
  deriving DecidableEq

/-- The wording of a refusal. -/
def Refusal.message : Refusal → String
  | unpoolable typeName => typeName ++ " values cannot be pooled"
  | nativeTaken name => "Built-in function '" ++ name ++ "' already registered"

end SlotMachine
