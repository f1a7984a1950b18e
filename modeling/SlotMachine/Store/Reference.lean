import SlotMachine.Store

/-!
# References

A cell with a reference tag stands for the slot it is bound to. Reading follows references to the
cell at their end, the origin. Writing follows them too, but refuses to pass a const one. A chain
that is longer than any sensible program needs counts as a cycle.
-/

namespace SlotMachine

namespace Store

/-- How many slots of a chain of references are looked at. -/
def maxChain : Nat := 4096

/-- Follow references from `current` for at most the given number of slots. The fault of an endless
chain names the slot at which it started. -/
def originWithin (s : Store) (start : Slot) : Nat → Slot → Except Fault Slot
  | 0, _ => .error (.referenceCycle start.index)
  | n + 1, current =>
    match s.cell current with
    | .error e => .error e
    | .ok c =>
      if c.isReference then
        match c.value with
        | .ref next => s.originWithin start n next
        | _ => .error (.unboundReference current.index)
      else .ok current

/-- The slot that holds the value of `slot`. -/
def origin (s : Store) (slot : Slot) : Except Fault Slot :=
  s.originWithin slot maxChain slot

/-- Follow references that may be written through. -/
def writableWithin (s : Store) (start : Slot) : Nat → Slot → Except Fault Slot
  | 0, _ => .error (.referenceCycle start.index)
  | n + 1, current =>
    match s.cell current with
    | .error e => .error e
    | .ok c =>
      if c.tag = Tag.const then .error (.constViolation current.index)
      else if c.tag = Tag.ref then
        match c.value with
        | .ref next => s.writableWithin start n next
        | _ => .error (.unboundReference current.index)
      else .ok current

/-- The slot in which a write to `slot` lands. -/
def writable (s : Store) (slot : Slot) : Except Fault Slot :=
  s.writableWithin slot maxChain slot

/-- The cell at the end of the references. -/
def originCell (s : Store) (slot : Slot) : Except Fault Cell :=
  (s.origin slot).bind s.cell

/-- The value at the end of the references. -/
def value (s : Store) (slot : Slot) : Except Fault Value :=
  (s.originCell slot).map Cell.value

/-- The outer tag of the cell at the end of the references. -/
def originTag (s : Store) (slot : Slot) : Except Fault Tag :=
  (s.originCell slot).map Cell.tag

end Store

/-- How a slot is bound to another one. -/
inductive Binding where
  /-- Writes go through. -/
  | mutable
  /-- Writes are refused. -/
  | const
  deriving DecidableEq

/-- The tag of a slot so bound. -/
def Binding.tag : Binding → Tag
  | mutable => Tag.ref
  | const => Tag.const

namespace StoreM

/-- A reference declared with a type takes only referents of that type, or untyped ones. -/
def checkReferent (declared got : Tag) : Except Fault Unit :=
  if declared = Tag.untyped ∨ got = Tag.untyped ∨ declared = got then .ok ()
  else .error (.referenceTypeMismatch declared got)

/-- The tags that a cell has once it is bound. A declared reference keeps its tags, except that a
mutable one bound as const becomes const; a bound const slot is never bound again; an undeclared
cell becomes a reference to anything. -/
def boundTags (slot : Slot) (c : Cell) (binding : Binding) (referent : Tag) :
    Except Fault (List Tag) :=
  if c.tag = Tag.const ∧ (binding = .mutable ∨ c.value.tag = Tag.ref) then
    .error (.constViolation slot.index)
  else if c.isReference then
    (checkReferent (Cell.outer c.innerTags) referent).map fun _ =>
      match binding with
      | .const => Tag.const :: c.innerTags
      | .mutable => c.tags
  else if c.fixed then .error (.notAReference slot.index)
  else .ok [binding.tag, Tag.untyped]

/-- Bind `slot` to `target`. The binding is refused when the chain from `target` ends at `slot`
itself. -/
def bind (slot target : Slot) (binding : Binding) : StoreM Unit := do
  if slot = target then throw (.referenceCycle slot.index)
  let referent ← ask fun s => s.origin target
  if referent = slot then throw (.referenceCycle slot.index)
  let referentCell ← ask fun s => s.cell referent
  let c ← ask fun s => s.cell slot
  let tags ← ask fun _ => boundTags slot c binding referentCell.tag
  replace slot ⟨tags, c.fixed, .ref target⟩

/-- Bind `slot` as a mutable reference. -/
def bindRef (slot target : Slot) : StoreM Unit :=
  bind slot target .mutable

/-- Bind `slot` as a const reference. -/
def bindConst (slot target : Slot) : StoreM Unit :=
  bind slot target .const

end StoreM

end SlotMachine
