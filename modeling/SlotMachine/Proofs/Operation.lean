import SlotMachine.Operation
import SlotMachine.Proofs.Store.Access
import Mathlib.Tactic.Common

/-!
# What operations make of handles

The result of an operation on two values is a number, a text, or a handle into the array storage of
one of the operands. No operation makes up a handle, so results may be stored wherever the operands
may.
-/

namespace SlotMachine.Operation

open Store

variable {s : Store} {op : BinaryOp} {v left right : Value} {maxLen : Nat}

/-- A narrowed integer is a number. -/
theorem isNumeric_narrow (n : Int64) : (narrow n).isNumeric = true := by
  unfold narrow
  split <;> rfl

/-- An operation on signed integers gives a number. -/
theorem isNumeric_of_long {a b : Int64} (h : long op a b = .ok v) : v.isNumeric = true := by
  cases op <;> simp only [long] at h
  case div =>
    split at h
    · cases h
    · split at h <;> cases h <;> rfl
  case rem => split at h <;> cases h; rfl
  all_goals cases h; rfl

/-- An operation on unsigned integers gives a number. -/
theorem isNumeric_of_uint64 {a b : UInt64} (h : uint64 op a b = .ok v) : v.isNumeric = true := by
  cases op <;> simp only [uint64] at h
  case div =>
    split at h
    · cases h
    · split at h <;> cases h <;> rfl
  case rem => split at h <;> cases h; rfl
  all_goals cases h; rfl

/-- An operation on doubles gives a number. -/
theorem isNumeric_of_double {a b : Double} (h : double op a b = .ok v) : v.isNumeric = true := by
  cases op <;> simp only [double] at h <;> cases h <;> rfl

/-- An operation on numbers gives a number. -/
theorem isNumeric_of_numeric (h : numeric op left right = .ok v) : v.isNumeric = true := by
  unfold numeric at h
  split at h
  · rename_i a b _
    cases hlong : long op (Int64.ofInt a.toInt) (Int64.ofInt b.toInt) with
    | error e => simp only [hlong, Except.map, reduceCtorEq] at h
    | ok w =>
      have hw := isNumeric_of_long hlong
      simp only [hlong, Except.map, Except.ok.injEq] at h
      subst h
      split
      · exact isNumeric_narrow _
      · exact hw
  · exact isNumeric_of_long h
  · exact isNumeric_of_uint64 h
  · exact isNumeric_of_double h
  · cases h

/-- A repeated text is a text. -/
theorem vouches_repeatText {text : String} {count : Nat}
    (h : repeatText maxLen text count = .ok v) : s.Vouches v := by
  unfold repeatText at h
  dsimp only at h
  split at h
  · cases h
  · split at h <;> cases h <;> trivial

/-- The result of an operation names no heap that its operands do not name. -/
theorem vouches_binary (hleft : s.Vouches left) (hright : s.Vouches right)
    (h : binary op left right maxLen = .ok v) : s.Vouches v := by
  unfold binary at h
  split at h
  · exact vouches_of_isNumeric (isNumeric_of_numeric h)
  · split at h
    · cases h
      trivial
    · split at h
      · exact vouches_repeatText h
      · cases h
    · split at h
      · exact vouches_repeatText h
      · cases h
    · split at h <;> cases h
      exact hleft
    · split at h <;> cases h
      exact hright
    · split at h <;> cases h
      trivial
    · split at h <;> cases h
      exact hleft
    · cases h

/-- A negated number is a number. -/
theorem isNumeric_of_neg (h : neg left = .ok v) : v.isNumeric = true := by
  cases left <;> simp only [neg] at h <;> cases h
  · exact isNumeric_narrow _
  all_goals rfl

/-- So it names no heap. -/
theorem vouches_neg (h : neg left = .ok v) : s.Vouches v :=
  vouches_of_isNumeric (isNumeric_of_neg h)

end SlotMachine.Operation
