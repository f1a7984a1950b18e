import SlotMachine.Image.Cursor
import SlotMachine.Image.Encode

/-!
# Reading module images

The counterpart of `Image.encode`. A count in the bytes may claim anything: reading stops at the
first item that is not there.
-/

namespace SlotMachine

namespace Read

/-- The number that eight bytes denote, most significant first. -/
def bigEndian (bytes : List UInt8) : UInt64 :=
  bytes.foldl (fun n b => (n <<< 8) ||| b.toUInt64) 0

/-- An eight-byte number. -/
def fixedWord : Read UInt64 := do
  pure (bigEndian (← take 8))

/-- The payload of a text constant. One closing zero byte does not belong to the text. -/
def text : Read String := do
  let length ← word
  let raw ← take length.toNat
  let bytes := if raw.getLast? = some 0 then raw.dropLast else raw
  match Text.ofUtf8? bytes with
  | some s => pure s
  | none => flawed .malformedText

/-- A constant: its tag and its payload. -/
def constant : Read Value := do
  let t ← byte
  if t = Tag.byte then
    let b ← byte
    pure (.byte b.toInt8)
  else if t = Tag.long then
    let n ← fixedWord
    pure (.long n.toInt64)
  else if t = Tag.double then
    let n ← fixedWord
    pure (.double ⟨n⟩)
  else if t = Tag.uint64 then
    let n ← fixedWord
    pure (.uint64 n)
  else if t = Tag.string then
    let s ← text
    pure (.text s)
  else throw (.unknownTag t)

/-- The tags at the front of the bytes: wrapper tags go on, any other tag ends the sequence. -/
def tagsFrom (position : Nat) : List UInt8 → EStateM.Result Fault Cursor (List Tag)
  | [] => .error (.malformed position .endOfInput) ⟨position, []⟩
  | t :: rest =>
    if ¬ Tag.isKnown t then .error (.unknownTag t) ⟨position + 1, rest⟩
    else if Tag.isWrapper t then
      match tagsFrom (position + 1) rest with
      | .ok tags c => .ok (t :: tags) c
      | .error e c => .error e c
    else .ok [t] ⟨position + 1, rest⟩

/-- A sequence of type tags. -/
def tags : Read (List Tag) := fun c =>
  tagsFrom c.position c.rest

/-- An instruction: its opcode byte and the operands that the opcode demands. -/
def instruction : Read Instruction := do
  let code ← byte
  match Opcode.ofCode? code with
  | none => throw (.unknownOpcode code)
  | some opcode =>
    match opcode.arity with
    | .fixed count =>
      let operands ← times word count
      pure ⟨opcode, operands⟩
    | .counted leading =>
      let operands ← times word leading
      let further ← times word ((operands.getLast?.getD 0).toNat)
      pure ⟨opcode, operands ++ further⟩

/-- Drop one leading point of a method name. -/
def methodName (s : String) : String :=
  match s.toList with
  | '.' :: rest => String.ofList rest
  | _ => s

/-- A method. -/
def function : Read Function := do
  let name := methodName (← name)
  let variadic := (← peek) == some Image.variadicMarker
  if variadic then
    let _ ← byte
  let params ← counted word
  if variadic && params.length < 2 then
    flawed (.nothingToCollect name)
  let code ← counted instruction
  pure ⟨name, variadic, params, code.toArray⟩

/-- A member. -/
def member : Read Member := do
  let name ← name
  let tags ← tags
  pure ⟨name, tags⟩

/-- A class. -/
def classDecl : Read ClassDecl := do
  let name ← name
  let members ← counted member
  let methods ← counted function
  pure ⟨name, members, methods⟩

/-- The classes up to the end of the input. Every class takes at least one byte, so as many classes
as bytes are enough. -/
def classes : Nat → Read (List ClassDecl)
  | 0 => pure []
  | n + 1 => do
    if (← get).atEnd then pure []
    else
      let first ← classDecl
      let others ← classes n
      pure (first :: others)

/-- The magic and version bytes. -/
def header : Read Unit := do
  let magic ← take 4
  if magic ≠ Image.magic then throw (.badMagic magic)
  let version ← take 4
  if version ≠ Image.version then throw (.unsupportedVersion version)

/-- A whole module, up to the end of the input. -/
def image : Read Image := do
  header
  let constants ← counted constant
  let heap ← counted tags
  let classes ← classes (← get).rest.length
  pure ⟨constants.toArray, heap, classes⟩

end Read

/-- The image that the bytes of a module denote. -/
def Image.decode (bytes : List UInt8) : Except Fault Image :=
  match Read.image (Cursor.ofBytes bytes) with
  | .ok m _ => .ok m
  | .error e _ => .error e

end SlotMachine
