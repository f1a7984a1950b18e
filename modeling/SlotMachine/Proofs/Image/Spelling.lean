import SlotMachine.Proofs.Image.Legible

/-!
# How a module is spelled

The same module can be written in several ways: a number can be padded with zero digits, a text can
do without its closing zero byte, and the name of a method can have a point in front. The spelled
reader reads as the reader does and notes how each number, text and method name was written.
-/

namespace SlotMachine

/-- A part of a module that can be written in several ways, as it was written. -/
inductive Spelling where
  /-- The bytes of a number. -/
  | number (bytes : List UInt8)
  /-- The counted bytes of a text. -/
  | text (bytes : List UInt8)
  /-- The name of a method. -/
  | method (name : String)
  deriving DecidableEq

/-- No number ends in a zero digit that it could do without, every text has its closing zero byte, and
no method name begins with a point. -/
def Spelling.IsCanonical : Spelling → Prop
  | .number bytes => bytes.length ≤ 1 ∨ bytes.getLast? ≠ some 0
  | .text bytes => bytes.getLast? = some 0
  | .method name => name.toList.head? ≠ some '.'

instance : DecidablePred Spelling.IsCanonical
  | .number bytes => inferInstanceAs (Decidable (bytes.length ≤ 1 ∨ bytes.getLast? ≠ some 0))
  | .text bytes => inferInstanceAs (Decidable (bytes.getLast? = some 0))
  | .method name => inferInstanceAs (Decidable (name.toList.head? ≠ some '.'))

/-- A place in the bytes of a module, and what was noted on the way there. -/
structure Desk where
  /-- The place. -/
  cursor : Cursor
  /-- The notes, in order. -/
  notes : List Spelling
  deriving DecidableEq

/-- An action that reads from a cursor and takes notes. -/
abbrev Spell (α : Type) := EStateM Fault Desk α

namespace Spell

variable {α β : Type}

/-- Read without taking notes. -/
def read (item : Read α) : Spell α := fun d =>
  match item d.cursor with
  | .ok a c => .ok a ⟨c, d.notes⟩
  | .error e c => .error e ⟨c, d.notes⟩

/-- Take a note. -/
def note (s : Spelling) : Spell Unit :=
  modify fun d => ⟨d.cursor, d.notes ++ [s]⟩

/-- A variable-length number. Its bytes are noted. -/
def word : Spell UInt64 := do
  let before := (← get).cursor
  let n ← read Read.word
  let after := (← get).cursor
  note (.number (before.rest.take (after.position - before.position)))
  pure n

/-- Read a number of items in a row. -/
def times (item : Spell α) : Nat → Spell (List α)
  | 0 => pure []
  | n + 1 => do
    let first ← item
    let others ← times item n
    pure (first :: others)

/-- Read a count and that many items. -/
def counted (item : Spell α) : Spell (List α) := do
  let count ← word
  times item count.toNat

/-- The payload of a text constant. Its counted bytes are noted. -/
def text : Spell String := do
  let length ← word
  let raw ← read (Read.take length.toNat)
  note (.text raw)
  let bytes := if raw.getLast? = some 0 then raw.dropLast else raw
  match Text.ofUtf8? bytes with
  | some s => pure s
  | none => read (Read.flawed .malformedText)

/-- A constant: its tag and its payload. -/
def constant : Spell Value := do
  let t ← read Read.byte
  if t = Tag.byte then
    let b ← read Read.byte
    pure (.byte b.toInt8)
  else if t = Tag.long then
    let n ← read Read.fixedWord
    pure (.long n.toInt64)
  else if t = Tag.double then
    let n ← read Read.fixedWord
    pure (.double ⟨n⟩)
  else if t = Tag.uint64 then
    let n ← read Read.fixedWord
    pure (.uint64 n)
  else if t = Tag.string then
    let s ← text
    pure (.text s)
  else throw (.unknownTag t)

/-- An instruction: its opcode byte and the operands that the opcode demands. -/
def instruction : Spell Instruction := do
  let code ← read Read.byte
  match Opcode.ofCode? code with
  | none => throw (.unknownOpcode code)
  | some opcode =>
    match opcode.arity with
    | .fixed count =>
      let operands ← times word count
      pure ⟨opcode, operands⟩
    | .counted leading =>
      let operands ← times word leading
      let further ← times word ((operands.getLast?.getD 0).toNat)
      pure ⟨opcode, operands ++ further⟩

/-- What follows the name and the marker of a method. -/
def functionRest (name : String) (variadic : Bool) : Spell Function := do
  let params ← counted word
  if variadic && params.length < 2 then
    read (Read.flawed (.nothingToCollect name))
  let code ← counted instruction
  pure ⟨name, variadic, params, code.toArray⟩

/-- The name of a method. It is noted with the point that is dropped from it. -/
def methodName : Spell String := do
  let raw ← read Read.name
  note (.method raw)
  pure (Read.methodName raw)

/-- A method. -/
def function : Spell Function := do
  let name ← methodName
  let next ← read Read.peek
  if next == some Image.variadicMarker then
    let _ ← read Read.byte
    functionRest name true
  else functionRest name false

/-- A member. -/
def member : Spell Member := do
  let name ← read Read.name
  let tags ← read Read.tags
  pure ⟨name, tags⟩

/-- A class. -/
def classDecl : Spell ClassDecl := do
  let name ← read Read.name
  let members ← counted member
  let methods ← counted function
  pure ⟨name, members, methods⟩

/-- The classes up to the end of the input. -/
def classes : Nat → Spell (List ClassDecl)
  | 0 => pure []
  | n + 1 => do
    if (← get).cursor.atEnd then pure []
    else
      let first ← classDecl
      let others ← classes n
      pure (first :: others)

/-- A whole module, up to the end of the input. -/
def image : Spell Image := do
  read Read.header
  let constants ← counted constant
  let heap ← counted (read Read.tags)
  let classes ← classes (← get).cursor.rest.length
  pure ⟨constants.toArray, heap, classes⟩

section Following

/-- Apart from the notes, the spelled reader does what the reader does. -/
def Follows (x : Spell α) (item : Read α) : Prop :=
  ∀ d, (match x d with
    | .ok a d' => EStateM.Result.ok a d'.cursor
    | .error e d' => .error e d'.cursor) = item d.cursor

variable {x : Spell α} {item : Read α}

/-- If the reader succeeds, so does the spelled reader. -/
theorem Follows.exists_of_ok (h : Follows x item) {d : Desk} {a : α} {c : Cursor}
    (hitem : item d.cursor = .ok a c) : ∃ notes, x d = .ok a ⟨c, notes⟩ := by
  have hd := h d
  rw [hitem] at hd
  cases hx : x d with
  | ok b d' =>
    rw [hx] at hd
    cases hd
    exact ⟨d'.notes, rfl⟩
  | error e d' =>
    rw [hx] at hd
    cases hd

theorem Follows.bind {f : α → Spell β} {next : α → Read β} (h : Follows x item)
    (hf : ∀ a, Follows (f a) (next a)) : Follows (x >>= f) (item >>= next) := by
  intro d
  have hd := h d
  cases hx : x d with
  | ok a d' =>
    rw [hx] at hd
    rw [Action.bind_of_ok hx, Action.bind_of_ok hd.symm]
    exact hf a d'
  | error e d' =>
    rw [hx] at hd
    rw [Action.bind_of_error hx, Action.bind_of_error hd.symm]

theorem follows_pure (a : α) : Follows (pure a) (pure a) := fun _ => rfl

theorem follows_throw (e : Fault) : Follows (throw e : Spell α) (throw e) := fun _ => rfl

theorem follows_read (item : Read α) : Follows (read item) item := by
  intro d
  unfold read
  cases item d.cursor <;> rfl

/-- A note makes no difference to what is read afterwards. -/
theorem Follows.note (h : Follows x item) (s : Spelling) : Follows (note s >>= fun _ => x) item :=
  fun d => h ⟨d.cursor, d.notes ++ [s]⟩

/-- A number is read with the note of the bytes it took. -/
theorem word_of_ok {d : Desk} {n : UInt64} {c : Cursor} (h : Read.word d.cursor = .ok n c) :
    word d = .ok n ⟨c, d.notes ++ [.number
      (d.cursor.rest.take (c.position - d.cursor.position))]⟩ := by
  have hread : read Read.word d = .ok n ⟨c, d.notes⟩ := by rw [read, h]
  have hget : (get : Spell Desk) d = .ok d d := rfl
  rw [word, Action.bind_of_ok hget, Action.bind_of_ok hread]
  rfl

theorem word_of_error {d : Desk} {e : Fault} {c : Cursor} (h : Read.word d.cursor = .error e c) :
    word d = .error e ⟨c, d.notes⟩ := by
  have hread : read Read.word d = .error e ⟨c, d.notes⟩ := by rw [read, h]
  have hget : (get : Spell Desk) d = .ok d d := rfl
  rw [word, Action.bind_of_ok hget, Action.bind_of_error hread]

theorem follows_word : Follows word Read.word := by
  intro d
  cases hword : Read.word d.cursor with
  | ok n c => rw [word_of_ok hword]
  | error e c => rw [word_of_error hword]

theorem follows_times (h : Follows x item) (n : Nat) : Follows (times x n) (Read.times item n) := by
  induction n with
  | zero => exact follows_pure []
  | succ n ih => exact h.bind fun _ => ih.bind fun _ => follows_pure _

theorem follows_counted (h : Follows x item) : Follows (counted x) (Read.counted item) :=
  follows_word.bind fun count => follows_times h count.toNat

theorem follows_text : Follows text Read.text := by
  apply follows_word.bind
  intro length
  apply (follows_read (Read.take length.toNat)).bind
  intro raw
  apply Follows.note
  dsimp only
  cases Text.ofUtf8? (if raw.getLast? = some 0 then raw.dropLast else raw) with
  | some s => exact follows_pure s
  | none => exact follows_read (Read.flawed .malformedText)

theorem follows_constant : Follows constant Read.constant := by
  apply (follows_read Read.byte).bind
  intro t
  repeat' split
  · exact (follows_read _).bind fun _ => follows_pure _
  · exact (follows_read _).bind fun _ => follows_pure _
  · exact (follows_read _).bind fun _ => follows_pure _
  · exact (follows_read _).bind fun _ => follows_pure _
  · exact follows_text.bind fun _ => follows_pure _
  · exact follows_throw _

theorem follows_instruction : Follows instruction Read.instruction := by
  apply (follows_read Read.byte).bind
  intro code
  cases Opcode.ofCode? code with
  | none => exact follows_throw (.unknownOpcode code)
  | some opcode =>
    dsimp only
    cases opcode.arity with
    | fixed count => exact (follows_times follows_word count).bind fun _ => follows_pure _
    | counted leading =>
      exact (follows_times follows_word leading).bind fun _ =>
        (follows_times follows_word _).bind fun _ => follows_pure _

theorem follows_functionRest (name : String) (variadic : Bool) :
    Follows (functionRest name variadic) (Read.functionRest name variadic) := by
  apply (follows_counted follows_word).bind
  intro params
  dsimp only
  split
  · exact (follows_read _).bind fun _ =>
      (follows_counted follows_instruction).bind fun _ => follows_pure _
  · exact (follows_counted follows_instruction).bind fun _ => follows_pure _

theorem follows_function : Follows function Read.function := by
  have hname : Follows methodName (do
      let raw ← Read.name
      pure (Read.methodName raw)) :=
    (follows_read Read.name).bind fun raw => (follows_pure (Read.methodName raw)).note (.method raw)
  have hsplit : Read.function = (do
      let name ← (do
        let raw ← Read.name
        pure (Read.methodName raw))
      let next ← Read.peek
      if next == some Image.variadicMarker then
        let _ ← Read.byte
        Read.functionRest name (next == some Image.variadicMarker)
      else Read.functionRest name (next == some Image.variadicMarker)) := by
    rw [Read.function_eq]
    simp only [bind_assoc, pure_bind]
  rw [hsplit]
  apply hname.bind
  intro name
  apply (follows_read Read.peek).bind
  intro next
  cases next == some Image.variadicMarker with
  | true => exact (follows_read Read.byte).bind fun _ => follows_functionRest name true
  | false => exact follows_functionRest name false

theorem follows_member : Follows member Read.member :=
  (follows_read _).bind fun _ => (follows_read _).bind fun _ => follows_pure _

theorem follows_classDecl : Follows classDecl Read.classDecl :=
  (follows_read _).bind fun _ => (follows_counted follows_member).bind fun _ =>
    (follows_counted follows_function).bind fun _ => follows_pure _

theorem follows_classes (n : Nat) : Follows (classes n) (Read.classes n) := by
  induction n with
  | zero => exact follows_pure []
  | succ n ih =>
    have hrest : Follows (do
        let first ← classDecl
        let others ← classes n
        pure (first :: others)) (do
        let first ← Read.classDecl
        let others ← Read.classes n
        pure (first :: others)) :=
      follows_classDecl.bind fun _ => ih.bind fun _ => follows_pure _
    intro d
    have hget : (get : Spell Desk) d = .ok d d := rfl
    have hget' : (get : Read Cursor) d.cursor = .ok d.cursor d.cursor := rfl
    rw [classes, Read.classes, Action.bind_of_ok hget, Action.bind_of_ok hget']
    by_cases hend : d.cursor.atEnd = true
    · rw [if_pos hend, if_pos hend]
      exact follows_pure [] d
    · rw [if_neg hend, if_neg hend]
      exact hrest d

/-- The spelled reader reads the same modules. -/
theorem follows_image : Follows image Read.image := by
  apply (follows_read Read.header).bind
  intro _
  apply (follows_counted follows_constant).bind
  intro constants
  apply (follows_counted (follows_read Read.tags)).bind
  intro heap d
  have hrest := (follows_classes d.cursor.rest.length).bind fun classes =>
    follows_pure (⟨constants.toArray, heap, classes⟩ : Image)
  exact hrest d

end Following

end Spell

/-- The image that the bytes of a module denote, and how it is spelled there. -/
def Image.spelled (bytes : List UInt8) : Except Fault (Image × List Spelling) :=
  match Spell.image ⟨Cursor.ofBytes bytes, []⟩ with
  | .ok m d => .ok (m, d.notes)
  | .error e _ => .error e

end SlotMachine
