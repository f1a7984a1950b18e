import SlotMachine.Machine.Simple
import SlotMachine.Proofs.Numerals

/-!
# Casts between integers and texts

A cast writes into a declared slot what the value becomes in the declared type. A text becomes the
integer of which it is a numeral, or the cast is refused; an integer becomes the text that displays
it. So an integer cast into a text and back is what it was.
-/

namespace SlotMachine

namespace Store

variable {s : Store} {slot other landing between : Slot} {c c' : Cell} {t t' : Tag} {v w : Value}

/-- Writes to the slot land in a cell that is declared with the type. -/
structure DeclaredAs (s : Store) (slot landing : Slot) (c : Cell) (t : Tag) : Prop where
  /-- Where they land. -/
  writable_eq : s.writable slot = .ok landing
  /-- The cell there. -/
  cell_eq : s.cell landing = .ok c
  /-- A declaration has fixed its type. -/
  fixed_eq : c.fixed = true
  /-- This is the type. -/
  tag_eq : c.tag = t

namespace DeclaredAs

/-- The cell is no reference. -/
theorem isReference_eq (h : s.DeclaredAs slot landing c t) : c.isReference = false := by
  obtain ⟨c₀, hc₀, hplain⟩ := cell_of_writableWithin h.writable_eq
  obtain rfl : c = c₀ := Except.ok.inj (h.cell_eq.symm.trans hc₀)
  exact hplain

/-- The cell can be given a new value. -/
theorem cell_set (h : s.DeclaredAs slot landing c t) (w : Value) :
    (s.setCell landing { c with value := w }).cell landing = .ok { c with value := w } := by
  rw [cell_setCell h.cell_eq, if_pos rfl]

/-- The new value misleads no walk. -/
theorem sameRoads (h : s.DeclaredAs slot landing c t) (w : Value) :
    s.SameRoads (s.setCell landing { c with value := w }) :=
  (differsOnlyAt_setCell h.cell_eq _).sameRoads h.cell_eq (h.cell_set w) h.isReference_eq
    h.isReference_eq

/-- The new value is read through the slot. -/
theorem value_set (h : s.DeclaredAs slot landing c t) (w : Value) :
    (s.setCell landing { c with value := w }).value slot = .ok w := by
  have horigin : s.origin slot = .ok landing := originWithin_of_writableWithin slot h.writable_eq
  exact value_of_origin (((h.sameRoads w).origin_eq slot).trans horigin) (h.cell_set w)

/-- A slot declared with another type is as it was. -/
theorem set_other (h : s.DeclaredAs slot landing c t) (hother : s.DeclaredAs other between c' t')
    (hne : t ≠ t') (w : Value) :
    (s.setCell between { c' with value := w }).DeclaredAs slot landing c t where
  writable_eq := ((hother.sameRoads w).writable_eq slot).trans h.writable_eq
  cell_eq := by
    have hapart : landing ≠ between := by
      rintro rfl
      obtain rfl : c = c' := Except.ok.inj (h.cell_eq.symm.trans hother.cell_eq)
      exact hne (h.tag_eq.symm.trans hother.tag_eq)
    rw [cell_setCell hother.cell_eq, if_neg hapart, h.cell_eq]
  fixed_eq := h.fixed_eq
  tag_eq := h.tag_eq

end DeclaredAs

end Store

namespace StoreM

open Store

variable {s : Store} {target source landing : Slot} {c : Cell} {kind : IntegerKind} {v w : Value}
  {i : Int} {t : Tag} {text : String}

/-- A cell declared with the type of a value takes the value as it is. -/
theorem write_own (h : s.DeclaredAs target landing c t) (hw : w.tag = t) :
    write target w s = .ok () (s.setCell landing { c with value := w }) := by
  have hnoRef : ∀ aim, w ≠ .ref aim := by
    rintro aim rfl
    have hplain := h.isReference_eq
    rw [Cell.isReference, h.tag_eq, ← hw] at hplain
    cases hplain
  rw [write_eq_writeValue hnoRef, writeValue, ask_bind_of_ok h.writable_eq,
    ask_bind_of_ok h.cell_eq, if_neg (by simp [h.fixed_eq]), if_pos (h.tag_eq.trans hw.symm),
    replace_of_cell h.cell_eq]

/-- A cast into a declared slot that makes a value of the type stores it. -/
theorem cast_of_castTo (hv : s.value source = .ok v) (h : s.DeclaredAs target landing c t)
    (hcast : castTo t v = .ok w) (hw : w.tag = t) :
    cast target source s = .ok () (s.setCell landing { c with value := w }) := by
  rw [cast, ask_bind_of_ok hv, ask_bind_of_ok h.writable_eq, ask_bind_of_ok h.cell_eq,
    if_pos h.fixed_eq, h.tag_eq, ask_bind_of_ok hcast, write_own h hw]

/-- A cast that makes nothing of a value is refused and changes nothing. -/
theorem cast_of_castTo_error {e : Fault} (hv : s.value source = .ok v)
    (h : s.DeclaredAs target landing c t) (hcast : castTo t v = .error e) :
    cast target source s = .error e s := by
  rw [cast, ask_bind_of_ok hv, ask_bind_of_ok h.writable_eq, ask_bind_of_ok h.cell_eq,
    if_pos h.fixed_eq, h.tag_eq, ask_bind_of_error hcast]

/-- The fault of casting a text that is no numeral of the declared type. -/
def notNumeral (declared : Tag) (text : String) : Fault :=
  .typeMismatch "convert" declared.name ("\"" ++ String.ofList (Text.trim text.toList) ++ "\"")

/-- What an integer kind makes of a text. -/
theorem castTo_text (kind : IntegerKind) (text : String) :
    castTo kind.tag (.text text) =
      match Value.read? (Text.trim text.toList) kind.tag with
      | some n => .ok n
      | none => .error (notNumeral kind.tag text) := by
  have hnumeric : kind.tag.isNumeric = true := by cases kind <;> rfl
  simp only [castTo, hnumeric, if_true]
  rfl

/-- A numeral is cast into its integer. -/
theorem castTo_of_reads (h : kind.Reads text i) :
    ∃ v, v.IsInteger kind i ∧ castTo kind.tag (.text text) = .ok v := by
  have hv := IntegerKind.isInteger_value_of_mem h.least_le h.le_greatest
  refine ⟨_, hv, ?_⟩
  rw [castTo_text, Value.read?_trim_eq_some_iff.mpr ⟨i, h, hv⟩]

/-- No other text is cast into an integer. -/
theorem castTo_of_not_reads (h : ∀ i, ¬ kind.Reads text i) :
    castTo kind.tag (.text text) = .error (notNumeral kind.tag text) := by
  rw [castTo_text, Value.read?_trim_eq_none_iff.mpr h]

/-- An integer is cast into the text that displays it. -/
theorem castTo_integer (h : v.IsInteger kind i) :
    castTo Tag.string v = .ok (.text (toString i)) := by
  cases h <;> rfl

end StoreM

namespace Simple

open Store StoreM

variable {f : Frame} {s : Store} {result : UInt64} {landing : Slot} {c : Cell} {kind : IntegerKind}

/-- The instruction casts the value of the second slot into the first and goes on. -/
theorem execute_convert (registry : Registry) (f : Frame) (result operand : UInt64) (s : Store) :
    execute registry f ⟨.convert, [result, operand]⟩ s =
      (cast (f.slot result) (f.slot operand) >>= fun _ => pure .next) s := by
  have hoperands : Instruction.exactly ⟨.convert, [result, operand]⟩ 2 =
      .ok #v[result, operand] := rfl
  change onSlots f ⟨.convert, [result, operand]⟩ cast s = _
  rw [onSlots, ask_bind_of_ok hoperands]
  rfl

/-- The instruction that casts a text into a slot declared with an integer kind ends well exactly if
the text is a numeral of an integer of the kind. It then stores this integer and changes nothing
else, the warnings included; otherwise it fails with a type fault and changes nothing at all. An
integer of the kind that is cast into a slot declared as a text, and from there into the slot
declared with the kind, is what it was. -/
theorem convert_texts_and_integers (registry : Registry)
    (htarget : s.DeclaredAs (f.slot result) landing c kind.tag) :
    (∀ operand text, s.value (f.slot operand) = .ok (.text text) →
      (∀ i, kind.Reads text i → ∃ v, v.IsInteger kind i ∧
        execute registry f ⟨.convert, [result, operand]⟩ s =
          .ok .next (s.setCell landing { c with value := v })) ∧
      ((∀ i, ¬ kind.Reads text i) →
        execute registry f ⟨.convert, [result, operand]⟩ s =
          .error (notNumeral kind.tag text) s)) ∧
    ∀ operand v i middle between c', s.value (f.slot operand) = .ok v → v.IsInteger kind i →
      s.DeclaredAs (f.slot middle) between c' Tag.string →
      ∃ s₁ s₂, execute registry f ⟨.convert, [middle, operand]⟩ s = .ok .next s₁ ∧
        s₁.value (f.slot middle) = .ok (.text (toString i)) ∧
        execute registry f ⟨.convert, [result, middle]⟩ s₁ = .ok .next s₂ ∧
        s₂.value (f.slot result) = .ok v ∧ s₂.warnings = s.warnings := by
  constructor
  · intro operand text htext
    refine ⟨fun i hreads => ?_, fun hnone => ?_⟩
    · obtain ⟨v, hv, hcast⟩ := castTo_of_reads hreads
      have hstored := cast_of_castTo htext htarget hcast (IntegerKind.tag_of_isInteger hv)
      refine ⟨v, hv, ?_⟩
      rw [execute_convert, Action.bind_of_ok hstored]
      rfl
    · have hrefused := cast_of_castTo_error htext htarget (castTo_of_not_reads hnone)
      rw [execute_convert, Action.bind_of_error hrefused]
  · intro operand v i middle between c' hvalue hv hmiddle
    have hapart : kind.tag ≠ Tag.string := by cases kind <;> decide
    have hdisplayed := cast_of_castTo hvalue hmiddle (castTo_integer hv) rfl
    have htext := hmiddle.value_set (.text (toString i))
    have htarget' := htarget.set_other hmiddle hapart (.text (toString i))
    have hreads : kind.Reads (toString i) i := by
      rw [← Value.display_of_isInteger hv]
      exact Value.reads_display hv
    obtain ⟨w, hw, hcast⟩ := castTo_of_reads hreads
    obtain rfl : w = v := by rw [← Value.value_of_isInteger hw, Value.value_of_isInteger hv]
    have hrestored := cast_of_castTo htext htarget' hcast (IntegerKind.tag_of_isInteger hw)
    refine ⟨_, _, ?_, htext, ?_, htarget'.value_set w, rfl⟩
    · rw [execute_convert, Action.bind_of_ok hdisplayed]
      rfl
    · rw [execute_convert, Action.bind_of_ok hrestored]
      rfl

/-- A declared long, a text of the least long, a text of a number above all longs, a declared text,
and the least long. -/
def longsAndTexts : Store :=
  ⟨#[⟨.module, #[⟨[Tag.long], true, .long 5⟩, Cell.holding (.text "\t-0009223372036854775808 "),
    Cell.holding (.text "+9223372036854775808"), ⟨[Tag.string], true, .text ""⟩,
    Cell.holding (.long (-9223372036854775808))]⟩], #[], 16⟩

/-- A frame in which they are the first five slots. -/
def besideLongs : Frame := ⟨0, 0, none, ⟨"f", false, [], #[]⟩, 0, none, .proceed⟩

/-- The least long is cast from a text, with zeros in front and white space around it, and it is
cast into a text and back; the number above all longs is refused. -/
theorem convert_longsAndTexts :
    longsAndTexts.DeclaredAs (besideLongs.slot 0) ⟨0, 0⟩ ⟨[Tag.long], true, .long 5⟩ Tag.long ∧
    execute (.empty Source.empty) besideLongs ⟨.convert, [0, 1]⟩ longsAndTexts =
      .ok .next (longsAndTexts.setCell ⟨0, 0⟩ ⟨[Tag.long], true, .long (-9223372036854775808)⟩) ∧
    execute (.empty Source.empty) besideLongs ⟨.convert, [0, 2]⟩ longsAndTexts =
      .error (notNumeral Tag.long "+9223372036854775808") longsAndTexts ∧
    ∃ s₁ s₂,
      execute (.empty Source.empty) besideLongs ⟨.convert, [3, 4]⟩ longsAndTexts = .ok .next s₁ ∧
      s₁.value ⟨0, 3⟩ = .ok (.text "-9223372036854775808") ∧
      execute (.empty Source.empty) besideLongs ⟨.convert, [0, 3]⟩ s₁ = .ok .next s₂ ∧
      s₂.value ⟨0, 0⟩ = .ok (.long (-9223372036854775808)) ∧ s₂.warnings = #[] := by
  have htarget : longsAndTexts.DeclaredAs (besideLongs.slot 0) ⟨0, 0⟩
      ⟨[Tag.long], true, .long 5⟩ IntegerKind.long.tag := ⟨rfl, rfl, rfl, rfl⟩
  have hmiddle : longsAndTexts.DeclaredAs (besideLongs.slot 3) ⟨0, 3⟩
      ⟨[Tag.string], true, .text ""⟩ Tag.string := ⟨rfl, rfl, rfl, rfl⟩
  have hleast : (Value.long (-9223372036854775808)).IsInteger .long (-9223372036854775808) :=
    .long (-9223372036854775808)
  obtain ⟨hread, hback⟩ := convert_texts_and_integers (.empty Source.empty) htarget
  refine ⟨htarget, ?_, ?_, hback 4 _ _ 3 _ _ rfl hleast hmiddle⟩
  · have hnumeral : Value.read? (Text.trim "\t-0009223372036854775808 ".toList)
        IntegerKind.long.tag = some (.long (-9223372036854775808)) := by decide +kernel
    obtain ⟨i, hreads, hi⟩ := Value.read?_trim_eq_some_iff.mp hnumeral
    obtain ⟨v, hv, hstored⟩ := (hread 1 _ rfl).1 i hreads
    rwa [← Value.value_of_isInteger hv, Value.value_of_isInteger hi] at hstored
  · have hnone : Value.read? (Text.trim "+9223372036854775808".toList) IntegerKind.long.tag =
        none := by decide +kernel
    exact (hread 2 _ rfl).2 (Value.read?_trim_eq_none_iff.mp hnone)

end Simple

end SlotMachine
