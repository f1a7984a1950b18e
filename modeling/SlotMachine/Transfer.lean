import SlotMachine.Image
import SlotMachine.Store.Access
import SlotMachine.Store.Array

/-!
# Moving values between slots

Copies, casts and the binding of arguments to parameters. A formal parameter declared as a
reference becomes an alias of the caller's slot; any other one receives a copy of the value.
-/

namespace SlotMachine.StoreM

/-- Copy the value of `source` into `target`. Arrays and instances are shared, and copying nothing
does nothing. -/
def copy (target source : Slot) : StoreM Unit := do
  let v ← ask fun s => s.value source
  match v with
  | .nothing => pure ()
  | .ref _ | .handle _ => throw (.typeMismatch "copy" "value" v.typeName)
  | v => write target v

/-- The value that a cast into the declared type of a cell writes: numbers become texts and texts
become numbers, with white space around a numeral ignored. -/
def castTo (declared : Tag) (v : Value) : Except Fault Value :=
  match v with
  | .text s =>
    if declared.isNumeric then
      let numeral := Text.trim s.toList
      match Value.read? numeral declared with
      | some n => .ok n
      | none =>
        .error (.typeMismatch "convert" declared.name ("\"" ++ String.ofList numeral ++ "\""))
    else .ok v
  | v => if declared = Tag.string ∧ v.isNumeric then .ok (.text v.display) else .ok v

/-- Cast the value of `source` into the declared type of `target`. -/
def cast (target source : Slot) : StoreM Unit := do
  let v ← ask fun s => s.value source
  let landing ← ask fun s => s.writable target
  let c ← ask fun s => s.cell landing
  if c.fixed then do
    let converted ← ask fun _ => castTo c.tag v
    write target converted
  else copy target source

/-- The tags that a formal parameter takes as an alias. Declared references and const cells are
aliases; a reference to a const reference becomes that const reference. -/
def aliasTags? (formal : Cell) : Option (List Tag) :=
  match formal.tags with
  | t :: inner =>
    if t = Tag.ref ∧ formal.fixed then
      if Cell.outer inner = Tag.const then some inner else some formal.tags
    else if t = Tag.const then some formal.tags
    else none
  | [] => none

/-- Make an undeclared cell forget what it held. -/
def clearUnlessFixed (slot : Slot) : StoreM Unit := do
  let c ← ask fun s => s.cell slot
  if c.fixed then pure () else replace slot Cell.free

/-- Bind one formal parameter to the caller's slot. -/
def passArgument (formal actual : Slot) : StoreM Unit := do
  if formal = actual then pure ()
  else
    let c ← ask fun s => s.cell formal
    match aliasTags? c with
    | some tags => replace formal ⟨tags, true, .ref actual⟩
    | none => do
      clearUnlessFixed formal
      copy formal actual

/-- Bind the parameters in order. -/
def passArguments : List (Slot × Slot) → StoreM Unit
  | [] => pure ()
  | (formal, actual) :: others => do
    passArgument formal actual
    passArguments others

/-- Copy the given slots into the elements of an array, starting with element `index`. -/
def fillArray (a : ArrayHandle) (index : Nat) : List Slot → StoreM Unit
  | [] => pure ()
  | actual :: others => do
    match ← reachElement a (Int64.ofNat index) with
    | .ready element => copy element actual
    | .unbuilt _ _ => pure ()
    fillArray a (index + 1) others

/-- Collect the further arguments into a new array. -/
def collectRest (formal : Slot) (actuals : List Slot) : StoreM Unit := do
  let a ← allocArray .untyped actuals.length
  fillArray a 0 actuals
  clearUnlessFixed formal
  write formal (.array a)

/-- Bind the arguments of a call. A variadic function takes any number of arguments from its last
parameter on. -/
def pass (heap : HeapId) (f : Function) (args : List Slot) : StoreM Unit := do
  let formals : List Slot := f.params.map fun index => ⟨heap, index.toNat⟩
  if !f.accepts args.length then
    throw (.arityMismatch f.name f.params.length args.length)
  passArguments ((formals.zip args).take f.namedCount)
  if f.variadic then
    match formals.getLast? with
    | some formal => collectRest formal (args.drop f.namedCount)
    | none => pure ()

end SlotMachine.StoreM
