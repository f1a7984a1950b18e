import SlotMachine.Path

/-!
# Settings

What the host can choose about a machine.
-/

namespace SlotMachine

/-- The settings of one machine. -/
structure Settings where
  /-- The directory from which `~file~class` modules are read. -/
  moduleDir : String
  /-- How many calls may be active at once. -/
  maxCallDepth : Nat
  /-- The largest number of elements of an array, or bytes of a text, that an instruction may
  build. -/
  maxObjectLen : Nat
  deriving DecidableEq, Inhabited

/-- The settings that hold unless the host says otherwise. -/
def Settings.standard : Settings := ⟨".", 1024, 16777216⟩

/-- Whether settings are the standard ones, up to the spelling of the directory. -/
def Settings.isStandard (s : Settings) : Bool :=
  Path.components s.moduleDir == Path.components standard.moduleDir &&
    s.maxCallDepth == standard.maxCallDepth && s.maxObjectLen == standard.maxObjectLen

end SlotMachine
