import SlotMachine.Value

/-!
# Cells

One place of a heap: type tags, whether a declaration fixed them, and a value.
-/

namespace SlotMachine

/-- One place of a heap. -/
structure Cell where
  /-- Type tags; none for an array element that has not been reached yet. -/
  tags : List Tag
  /-- Whether a declaration fixed the type. -/
  fixed : Bool
  /-- The contents. -/
  value : Value
  deriving DecidableEq, Inhabited

namespace Cell

/-- An untyped cell, which accepts anything. -/
def free : Cell := ⟨[Tag.untyped], false, .nothing⟩

/-- A cell whose type has not been established. -/
def blank : Cell := ⟨[], false, .nothing⟩

/-- The outer tag of a tag sequence; an empty one counts as untyped. -/
def outer (tags : List Tag) : Tag :=
  tags.headD Tag.untyped

/-- A cell declared with these tags. Scalars and texts start at zero and empty. -/
def declared (tags : List Tag) : Cell :=
  ⟨tags, outer tags != Tag.untyped, Value.zero (outer tags)⟩

/-- A cell that took on the type of the value it holds. -/
def holding (v : Value) : Cell := ⟨v.tags, false, v⟩

/-- The outer tag. -/
def tag (c : Cell) : Tag :=
  outer c.tags

/-- Whether the cell has a type, be it untyped. -/
def isEstablished (c : Cell) : Bool :=
  !c.tags.isEmpty

/-- Whether the cell stands for another slot. -/
def isReference (c : Cell) : Bool :=
  c.tag.isReference

/-- The tags behind the outer one. -/
def innerTags (c : Cell) : List Tag :=
  c.tags.tail

end Cell

end SlotMachine
