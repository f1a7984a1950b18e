import SlotMachine.Fault
import SlotMachine.Text.Utf8
import SlotMachine.Uleb

/-!
# Reading bytes

A cursor is a position and the bytes that are left. A failing read of a single item leaves the
cursor where it was; every other read stops at the item that failed.
-/

namespace SlotMachine

/-- A place in the bytes of a module. -/
structure Cursor where
  /-- How many bytes have been read. -/
  position : Nat
  /-- The bytes that have not been read. -/
  rest : List UInt8
  deriving DecidableEq, Inhabited

/-- An action that reads from a cursor. The cursor survives a fault. -/
abbrev Read (α : Type) := EStateM Fault Cursor α

namespace Cursor

/-- The cursor at the start of the bytes. -/
def ofBytes (bytes : List UInt8) : Cursor := ⟨0, bytes⟩

/-- Whether all bytes have been read. -/
def atEnd (c : Cursor) : Bool :=
  c.rest.isEmpty

/-- The cursor after the next bytes. -/
def skip (c : Cursor) (count : Nat) : Cursor :=
  ⟨c.position + count, c.rest.drop count⟩

end Cursor

namespace Read

/-- Fail at the present position. -/
def flawed {α : Type} (flaw : Flaw) : Read α := fun c =>
  .error (.malformed c.position flaw) c

/-- The next byte. -/
def byte : Read UInt8 := fun c =>
  match c.rest with
  | [] => flawed .endOfInput c
  | b :: rest => .ok b ⟨c.position + 1, rest⟩

/-- The next byte, which is not consumed. -/
def peek : Read (Option UInt8) := fun c =>
  .ok c.rest.head? c

/-- The next bytes, exactly as many as asked for. -/
def take (count : Nat) : Read (List UInt8) := fun c =>
  let chunk := c.rest.take count
  if chunk.length = count then .ok chunk (c.skip count) else flawed (.missingBytes count) c

/-- A variable-length number. -/
def word : Read UInt64 := fun c =>
  match Uleb.decode c.rest with
  | some (n, used) => .ok (UInt64.ofNat n) (c.skip used)
  | none => flawed .badNumber c

/-- A name: text up to a zero byte. -/
def name : Read String := fun c =>
  let bytes := c.rest.takeWhile (· != 0)
  if bytes.length = c.rest.length then flawed .unterminatedName c
  else
    match Text.ofUtf8? bytes with
    | some s => .ok s (c.skip (bytes.length + 1))
    | none => flawed .malformedName c

/-- Read a number of items in a row. -/
def times {α : Type} (item : Read α) : Nat → Read (List α)
  | 0 => pure []
  | n + 1 => do
    let first ← item
    let others ← times item n
    pure (first :: others)

/-- Read a count and that many items. -/
def counted {α : Type} (item : Read α) : Read (List α) := do
  let count ← word
  times item count.toNat

end Read

end SlotMachine
