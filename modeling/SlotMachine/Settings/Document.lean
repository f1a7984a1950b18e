import SlotMachine.Settings
import SlotMachine.Settings.Json

/-!
# Settings documents

Settings are read from a JSON object, or from an array of the settings in order. What is missing
keeps its standard value, unknown keys are skipped, and a setting must not stand twice.
-/

namespace SlotMachine.Settings

/-- The settings that a document has given so far. -/
structure Given where
  /-- The module directory. -/
  moduleDir : Option String
  /-- The call depth. -/
  maxCallDepth : Option Nat
  /-- The object length. -/
  maxObjectLen : Option Nat
  deriving DecidableEq

/-- Nothing given. -/
def Given.empty : Given := ⟨none, none, none⟩

/-- The settings, with standard values for what is not given. -/
def Given.settings (g : Given) : Settings where
  moduleDir := g.moduleDir.getD standard.moduleDir
  maxCallDepth := g.maxCallDepth.getD standard.maxCallDepth
  maxObjectLen := g.maxObjectLen.getD standard.maxObjectLen

/-- Read the value of a setting that has not been given yet. -/
def once {α : Type} (given : Option α) (read : Scan α) : Scan (Option α) := do
  if given.isSome then throw .content
  Scan.colon
  return some (← read)

/-- Read the value of a key. -/
def readEntry (g : Given) (key : String) : Scan Given := do
  if key = "module_dir" then
    return { g with moduleDir := ← once g.moduleDir Scan.expectString }
  else if key = "max_call_depth" then
    return { g with maxCallDepth := ← once g.maxCallDepth Scan.expectNatural }
  else if key = "max_object_len" then
    return { g with maxObjectLen := ← once g.maxObjectLen Scan.expectNatural }
  else
    Scan.colon
    Scan.skipValue
    return g

/-- Read the entries of an object up to its end. -/
def readEntries : Nat → Bool → Given → Scan Given
  | 0, _, _ => throw .truncated
  | fuel + 1, first, g => do
    match ← Scan.token with
    | none => throw .truncated
    | some b =>
      if b = Scan.Bracket.curly.closer then
        Scan.skip
        return g
      if !first then
        if b = Scan.code ',' then Scan.skip else throw .grammar
      Scan.openKey
      let key ← Scan.string
      let g ← readEntry g key
      readEntries fuel false g

/-- Read the next item of an array, if there is one. -/
def readItem {α : Type} (first : Bool) (read : Scan α) : Scan (Option α) := do
  match ← Scan.token with
  | none => throw .truncated
  | some b =>
    if b = Scan.Bracket.square.closer then return none
    if !first then
      if b = Scan.code ',' then Scan.skip else throw .grammar
      match ← Scan.token with
      | none => throw .truncated
      | some b => if b = Scan.Bracket.square.closer then throw .grammar
    return some (← read)

/-- Read the end of an array. Anything else there, a fourth item included, breaks the grammar. -/
def closeArray : Scan Unit := do
  match ← Scan.token with
  | none => throw .truncated
  | some b => if b = Scan.Bracket.square.closer then Scan.skip else throw .grammar

/-- Read the settings as an array. -/
def readItems : Scan Given := do
  let moduleDir ← readItem true Scan.expectString
  let maxCallDepth ← readItem false Scan.expectNatural
  let maxObjectLen ← readItem false Scan.expectNatural
  closeArray
  return ⟨moduleDir, maxCallDepth, maxObjectLen⟩

/-- Read a whole document. -/
def readDocument : Scan Settings := do
  let given ←
    match (← Scan.token).bind Scan.Bracket.ofOpener? with
    | some .curly => do
      Scan.skip
      readEntries ((← get).length + 1) true Given.empty
    | some .square => do
      Scan.skip
      readItems
    | none => Scan.wrongType
  if (← Scan.token).isSome then throw .grammar
  return given.settings

/-- The settings that a document describes. -/
def ofDocument (text : String) : Except Fault Settings :=
  match readDocument (Text.utf8 text) with
  | .ok s _ => .ok s
  | .error flaw _ => .error (.settings flaw)

end SlotMachine.Settings
