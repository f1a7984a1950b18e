import SlotMachine.Main
import SlotMachine.Proofs.Action
import SlotMachine.Proofs.Image.Bytes
import SlotMachine.Proofs.Image.Reading
import SlotMachine.Proofs.Image.Legible
import SlotMachine.Proofs.Image.RoundTrip
import SlotMachine.Proofs.Store.Cells
import SlotMachine.Proofs.Store.Walk
import SlotMachine.Proofs.Store.Binding
import SlotMachine.Proofs.Discipline
import SlotMachine.Proofs.Store.Sound
import SlotMachine.Proofs.Store.Access
import SlotMachine.Proofs.Store.Elements
import SlotMachine.Proofs.Store.Passing
import SlotMachine.Proofs.Linkage
import SlotMachine.Proofs.Operation
import SlotMachine.Proofs.Native
import SlotMachine.Proofs.Machine.Sound
import SlotMachine.Proofs.Machine.Simple
import SlotMachine.Proofs.Machine.Calls
import SlotMachine.Proofs.Machine.Objects
import SlotMachine.Proofs.Machine.Run
import SlotMachine.Proofs.Session
import SlotMachine.Proofs.Integrity
import SlotMachine.Proofs.Store.Constancy
import SlotMachine.Proofs.Store.Handover
import SlotMachine.Proofs.Store.Collecting
import SlotMachine.Proofs.Arguments
import SlotMachine.Proofs.Aliasing
import SlotMachine.Proofs.Faults
import SlotMachine.Proofs.Image.Faults
import SlotMachine.Proofs.Image.Truncation
import SlotMachine.Proofs.Image.Spelling
import SlotMachine.Proofs.Image.Canonical
import SlotMachine.Proofs.Machine.Faults
import SlotMachine.Proofs.Machine.Frames
import SlotMachine.Proofs.Machine.Turns
import SlotMachine.Proofs.CallStack
import SlotMachine.Proofs.Operands
import SlotMachine.Proofs.Store.Atomicity
import SlotMachine.Proofs.Machine.Locality
import SlotMachine.Proofs.Linkage.Requests
import SlotMachine.Proofs.Linkage.Names
import SlotMachine.Proofs.Linkage.Lookup
import SlotMachine.Proofs.Machine.Moves
import SlotMachine.Proofs.Machine.Progress
import SlotMachine.Proofs.Machine.Instances
import SlotMachine.Proofs.Starting
import SlotMachine.Proofs.Homes
import SlotMachine.Proofs.Construction
import SlotMachine.Proofs.Receivers
import SlotMachine.Proofs.Store.Referring
import SlotMachine.Proofs.Store.ArrayUse
import SlotMachine.Proofs.Texts
import SlotMachine.Proofs.LoadFaults
import SlotMachine.Proofs.ReturnedValues
import SlotMachine.Proofs.Integers
import SlotMachine.Proofs.Double
import SlotMachine.Proofs.Conversion
import SlotMachine.Proofs.Printing
import SlotMachine.Proofs.Handles
import SlotMachine.Proofs.Comparison
import SlotMachine.Proofs.Numerals
import SlotMachine.Proofs.Casting
import SlotMachine.Proofs.Image.Interning
import SlotMachine.Proofs.Image.Weight
import SlotMachine.Proofs.Linkage.Loading
import SlotMachine.Proofs.Store.Nested
import SlotMachine.Proofs.Store.Following
import SlotMachine.Proofs.Image.Numeral
import SlotMachine.Proofs.Image.Stepping
