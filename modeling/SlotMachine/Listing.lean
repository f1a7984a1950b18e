import SlotMachine.Image
import SlotMachine.Text.Blank
import SlotMachine.Text.Quoted

/-!
# Listings

The readable form of a module image: constants, heap, then each class with its members and the
code of its methods.
-/

namespace SlotMachine.Listing

/-- A value as a listing shows it: texts are quoted. -/
def value : Value → String
  | .text s => Text.quoted s
  | v => v.display

/-- A type as the names of its tags. -/
def tags (ts : List Tag) : String :=
  String.intercalate " " (ts.map Tag.name)

/-- A text followed by spaces up to the given width. -/
def column (width : Nat) (s : String) : String :=
  s ++ String.ofList (List.replicate (width - s.length) ' ')

/-- What a listing says about an instruction beyond its operands: the constant that is loaded, or
the comparison that is made. -/
def note (constants : Array Value) (i : Instruction) : String :=
  match i.opcode, i.operands with
  | .loadConst, [_, index] =>
    "  ; " ++ ((constants[index.toNat]?.map value).getD "???")
  | .cmp, _ :: code :: _ =>
    match Comparison.ofCode? code with
    | some op => "  ; " ++ op.symbol
    | none => ""
  | _, _ => ""

/-- One instruction: name, operands, note. -/
def instruction (constants : Array Value) (i : Instruction) : String :=
  let operands := String.intercalate " " (i.operands.map fun n => toString n.toNat)
  let line := i.opcode.mnemonic ++ "  " ++ operands ++ note constants i
  String.ofList (Text.trimRight line.toList)

/-- A list of numbers in brackets. -/
def numbers (ns : List UInt64) : String :=
  "[" ++ String.intercalate ", " (ns.map fun n => toString n.toNat) ++ "]"

/-- The lines of a method, numbered by instruction. -/
def function (constants : Array Value) (f : Function) : String :=
  let heading := "\n--- " ++ f.name ++ (if f.variadic then " (variadic)" else "") ++
    " params=" ++ numbers f.params ++ " ---\n"
  let lines := f.code.toList.zipIdx.map fun (i, index) =>
    Text.padded 4 index ++ "  " ++ instruction constants i ++ "\n"
  heading ++ String.join lines

/-- A heading between two bars. -/
def heading (s : String) : String :=
  "========== " ++ s ++ " ==========\n"

/-- The lines of a class. -/
def classDecl (constants : Array Value) (c : ClassDecl) : String :=
  let members := c.members.zipIdx.map fun (m, index) =>
    "  member " ++ toString index ++ " " ++ m.name ++ " " ++ tags m.tags ++ "\n"
  "\n" ++ heading ("Class: " ++ c.name) ++ String.join members ++
    String.join (c.methods.map (function constants))

/-- The listing of an image. -/
def image (m : Image) : String :=
  let constants := m.constants.toList.zipIdx.map fun (v, index) =>
    "  K[" ++ toString index ++ "] " ++ column 7 v.typeName ++ " " ++ value v ++ "\n"
  let cells := m.heap.zipIdx.map fun (ts, index) =>
    "  [" ++ toString index ++ "] " ++ tags ts ++ "\n"
  heading ("Constants (" ++ toString m.constants.size ++ ")") ++ String.join constants ++ "\n" ++
    heading ("Heap (" ++ toString m.heap.length ++ " slots)") ++ String.join cells ++
    String.join (m.classes.map (classDecl m.constants))

end SlotMachine.Listing
