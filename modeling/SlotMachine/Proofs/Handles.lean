import SlotMachine.Proofs.Integers
import SlotMachine.Proofs.Printing
import SlotMachine.Proofs.Store.Growth

/-!
# Array handles

Adding an integer to an array handle, or subtracting one from it, moves the handle by as many
elements. Offsets are reduced to 64 bits on the way, so that moves can be undone and made in any
order, and every handle into an array can be made from every other one. As long as nothing is
reduced, moving a handle is the same as moving the index of the element that is asked for.

A handle that leads before the first element has no element at index 0. Printing an array through
it is refused as well, except where the distance from the handle to the end of the array does not
fit into 64 bits: there the machine breaks down.
-/

namespace SlotMachine

namespace ArrayHandle

/-- The handle moved by an integer. -/
def moved (a : ArrayHandle) (distance : Int) : ArrayHandle :=
  { a with offset := a.offset + Int64.ofInt distance }

/-- The handle can be moved so far without a reduction of its offset. -/
def MovesExactly (a : ArrayHandle) (distance : Int) : Prop :=
  -9223372036854775808 ≤ a.offset.toInt + distance ∧
    a.offset.toInt + distance ≤ 9223372036854775807

variable {a b : ArrayHandle} {i j : Int} {index shifted : Int64}

/-- Moves add up. -/
theorem moved_moved (a : ArrayHandle) (i j : Int) : (a.moved i).moved j = a.moved (i + j) := by
  simp only [moved, Int64.ofInt_add, Int64.add_assoc]

/-- No move. -/
theorem moved_zero (a : ArrayHandle) : a.moved 0 = a := by
  have hzero : Int64.ofInt 0 = 0 := rfl
  rw [moved, hzero, Int64.add_zero]

/-- How far a handle was moved can be told from the offsets. -/
theorem offset_moved_sub (a : ArrayHandle) (i : Int) :
    (a.moved i).offset - a.offset = Int64.ofInt i := by
  rw [moved, Int64.add_comm, Int64.add_sub_cancel]

/-- Every handle into an array is another one moved. -/
theorem moved_offset_sub (h : b.storage = a.storage) :
    b.moved (a.offset - b.offset).toInt = a := by
  rw [moved, Int64.ofInt_toInt, Int64.add_comm, Int64.sub_add_cancel, h]

/-- An offset that is not reduced. -/
theorem toInt_offset_moved (h : a.MovesExactly i) :
    (a.moved i).offset.toInt = a.offset.toInt + i := by
  obtain ⟨hlow, hhigh⟩ := h
  have hsize : Int64.size = 18446744073709551616 := rfl
  rw [moved, Int64.toInt_add, Int64.toInt_ofInt, Int.add_bmod_bmod, hsize]
  exact Int.bmod_eq_of_le (by omega) (by omega)

/-- An index either leads to a position or is refused. -/
theorem position_cases (a : ArrayHandle) (index : Int64) :
    (∃ p : Nat, a.offset.toInt + index.toInt = p ∧ p < 2 ^ 63) ∨
      a.offset.toInt + index.toInt < 0 ∨ 2 ^ 63 ≤ a.offset.toInt + index.toInt := by
  by_cases hlow : 0 ≤ a.offset.toInt + index.toInt
  · obtain ⟨p, hp⟩ := Int.eq_ofNat_of_zero_le hlow
    by_cases hhigh : p < 2 ^ 63
    · exact .inl ⟨p, hp, hhigh⟩
    · exact .inr (.inr (by omega))
  · exact .inr (.inl (by omega))

/-- Moving the handle is moving the index. -/
theorem position_moved (hmove : a.MovesExactly i) (hshifted : shifted.toInt = i + index.toInt) :
    (∃ p, (a.moved i).position index = .ok p ∧ a.position shifted = .ok p) ∨
      (a.moved i).position index = .error (.invalidIndex index) ∧
        a.position shifted = .error (.invalidIndex shifted) := by
  have hsum : (a.moved i).offset.toInt + index.toInt = a.offset.toInt + shifted.toInt := by
    rw [toInt_offset_moved hmove, hshifted, Int.add_assoc]
  rcases a.position_cases shifted with ⟨p, hp, hsmall⟩ | houtside
  · exact .inl ⟨p, position_eq_ok (hsum.trans hp) hsmall, position_eq_ok hp hsmall⟩
  · have hmoved := houtside
    rw [← hsum] at hmoved
    exact .inr ⟨position_eq_error hmoved, position_eq_error houtside⟩

end ArrayHandle

namespace Fault

/-- The faults are the same, or both refuse an index. -/
inductive Alike : Fault → Fault → Prop
  /-- The same fault. -/
  | same (e : Fault) : Alike e e
  /-- Two refused indices. -/
  | indices (index index' : Int64) : Alike (.invalidIndex index) (.invalidIndex index')

end Fault

/-- Two questions have the same answer, or are refused alike. -/
inductive AnsweredAlike {α : Type} : Except Fault α → Except Fault α → Prop
  /-- The same answer. -/
  | ok (a : α) : AnsweredAlike (.ok a) (.ok a)
  /-- Refused alike. -/
  | error {e e' : Fault} : e.Alike e' → AnsweredAlike (.error e) (.error e')

/-- Two actions end in the same store, with the same result or with faults that are alike. -/
inductive EndsAlike {α : Type} : EStateM.Result Fault Store α → EStateM.Result Fault Store α → Prop
  /-- The same result. -/
  | ok (a : α) (s : Store) : EndsAlike (.ok a s) (.ok a s)
  /-- Failed alike. -/
  | error {e e' : Fault} (s : Store) : e.Alike e' → EndsAlike (.error e s) (.error e' s)

namespace Store

variable {a : ArrayHandle} {i : Int} {index shifted : Int64}

/-- An answer is like itself. -/
theorem answeredAlike_refl {α : Type} (answer : Except Fault α) : AnsweredAlike answer answer := by
  cases answer with
  | ok x => exact .ok x
  | error e => exact .error (.same e)

/-- An end is like itself. -/
theorem endsAlike_refl {α : Type} (result : EStateM.Result Fault Store α) :
    EndsAlike result result := by
  cases result with
  | ok x s => exact .ok x s
  | error e s => exact .error s (.same e)

/-- An index that is refused is refused whatever is asked. -/
theorem element?_of_invalid (s : Store) (h : a.position index = .error (.invalidIndex index)) :
    s.element? a index = .error (.invalidIndex index) := by
  rw [element?, h]
  rfl

/-- Looking at an element through a moved handle. -/
theorem element?_moved (s : Store) (hmove : a.MovesExactly i)
    (hshifted : shifted.toInt = i + index.toInt) :
    AnsweredAlike (s.element? (a.moved i) index) (s.element? a shifted) := by
  rcases ArrayHandle.position_moved hmove hshifted with ⟨p, hp, hp'⟩ | ⟨hp, hp'⟩
  · have hsame : s.element? (a.moved i) index = s.element? a shifted := by
      rw [element?, element?, hp, hp']
      rfl
    rw [hsame]
    exact answeredAlike_refl _
  · rw [element?_of_invalid s hp, element?_of_invalid s hp']
    exact .error (.indices index shifted)

end Store

namespace StoreM

variable {a : ArrayHandle} {i : Int} {index shifted : Int64}

/-- An index that is refused is not reached. -/
theorem reachElement_of_invalid (s : Store)
    (h : a.position index = .error (.invalidIndex index)) :
    reachElement a index s = .error (.invalidIndex index) s :=
  ask_bind_of_error h

/-- Reaching an element through a moved handle. -/
theorem reachElement_moved (s : Store) (hmove : a.MovesExactly i)
    (hshifted : shifted.toInt = i + index.toInt) :
    EndsAlike (reachElement (a.moved i) index s) (reachElement a shifted s) := by
  rcases ArrayHandle.position_moved hmove hshifted with ⟨p, hp, hp'⟩ | ⟨hp, hp'⟩
  · have hmoved (f : Nat → StoreM Element) :
        (ask (fun _ => (a.moved i).position index) >>= f) s = f p s := ask_bind_of_ok hp
    have hplain (f : Nat → StoreM Element) :
        (ask (fun _ => a.position shifted) >>= f) s = f p s := ask_bind_of_ok hp'
    have hsame : reachElement (a.moved i) index s = reachElement a shifted s := by
      unfold reachElement
      rw [hmoved, hplain]
      rfl
    rw [hsame]
    exact Store.endsAlike_refl _
  · rw [reachElement_of_invalid s hp, reachElement_of_invalid s hp']
    exact .error s (.indices index shifted)

end StoreM

namespace Operation

variable {n : Value} {kind : IntegerKind} {i : Int}

/-- Adding an integer to a handle moves it, from either side. -/
theorem add_handle (hn : n.IsInteger kind i) (a : ArrayHandle) (maxLen : Nat) :
    binary .add (.array a) n maxLen = .ok (.array (a.moved i)) ∧
      binary .add n (.array a) maxLen = .ok (.array (a.moved i)) := by
  cases hn <;> exact ⟨rfl, rfl⟩

/-- Subtracting one moves it back. -/
theorem sub_handle (hn : n.IsInteger kind i) (a : ArrayHandle) (maxLen : Nat) :
    binary .sub (.array a) n maxLen = .ok (.array (a.moved (-i))) := by
  cases hn <;> rfl

/-- Subtracting a handle tells how far the other one was moved. -/
theorem sub_handles (a : ArrayHandle) (i : Int) (maxLen : Nat) :
    binary .sub (.array (a.moved i)) (.array a) maxLen = .ok (.long (Int64.ofInt i)) := by
  rw [← a.offset_moved_sub i]
  exact if_pos rfl

/-- Every handle into an array can be made from every other one, by adding a long as well as by
subtracting one. -/
theorem handle_made {a b : ArrayHandle} (h : b.storage = a.storage) (maxLen : Nat) :
    (∃ n, binary .add (.array b) (.long n) maxLen = .ok (.array a)) ∧
      ∃ n, binary .sub (.array b) (.long n) maxLen = .ok (.array a) := by
  refine ⟨⟨a.offset - b.offset, ?_⟩, ⟨b.offset - a.offset, ?_⟩⟩
  · rw [(add_handle (.long _) b maxLen).1, ArrayHandle.moved_offset_sub h]
  · have hopposite : b.moved (-(b.offset - a.offset).toInt) = a := by
      rw [ArrayHandle.moved, Int64.ofInt_neg, Int64.ofInt_toInt, Int64.neg_sub, Int64.add_comm,
        Int64.sub_add_cancel, h]
    rw [sub_handle (.long _) b maxLen, hopposite]

/-- An integer is moved by its residue. -/
theorem toInt_ofInt_emod (i : Int) :
    (Int64.ofInt i).toInt % 18446744073709551616 = i % 18446744073709551616 := by
  rw [Int64.toInt_ofInt]
  exact Int.bmod_emod

/-- Handles are moved by integers of any kind as integers are added: from either side, back again,
in any order, and the distance between two handles is what was added, as a long. Where neither the
offset nor the index is reduced, the elements of the moved handle are those of the handle itself at
the moved index, whether they are looked at or reached. -/
theorem moves_and_elements_agree {m n : Value} {k l : IntegerKind} {i j : Int}
    (hm : m.IsInteger k i) (hn : n.IsInteger l j) (a : ArrayHandle) (maxLen : Nat) :
    ∃ b : ArrayHandle,
      binary .add (.array a) n maxLen = .ok (.array b) ∧
      binary .add n (.array a) maxLen = .ok (.array b) ∧
      binary .sub (.array b) n maxLen = .ok (.array a) ∧
      (∃ c d, binary .add (.array a) m maxLen = .ok (.array c) ∧
        binary .add (.array c) n maxLen = .ok (.array d) ∧
        binary .add (.array b) m maxLen = .ok (.array d)) ∧
      (∃ d, binary .sub (.array b) (.array a) maxLen = .ok (.long d) ∧
        d.toInt % 18446744073709551616 = j % 18446744073709551616) ∧
      ∀ (s : Store) (index shifted : Int64), a.MovesExactly j → shifted.toInt = j + index.toInt →
        AnsweredAlike (s.element? b index) (s.element? a shifted) ∧
        EndsAlike (StoreM.reachElement b index s) (StoreM.reachElement a shifted s) := by
  obtain ⟨hright, hleft⟩ := add_handle hn a maxLen
  refine ⟨a.moved j, hright, hleft, ?_, ?_, ?_, fun s index shifted hmove hshifted => ?_⟩
  · rw [sub_handle hn, ArrayHandle.moved_moved, Int.add_right_neg, ArrayHandle.moved_zero]
  · refine ⟨a.moved i, a.moved (i + j), (add_handle hm a maxLen).1, ?_, ?_⟩
    · rw [(add_handle hn _ maxLen).1, ArrayHandle.moved_moved]
    · rw [(add_handle hm _ maxLen).1, ArrayHandle.moved_moved, Int.add_comm]
  · exact ⟨Int64.ofInt j, sub_handles a j maxLen, toInt_ofInt_emod j⟩
  · exact ⟨s.element?_moved hmove hshifted, StoreM.reachElement_moved s hmove hshifted⟩

/-- An array of one instance, which has not been made yet. -/
def lonePoint : Store :=
  ⟨#[⟨.array (.instances "Point"), #[arrayHeader 1, Cell.blank]⟩], #[], 8⟩

/-- A handle far before the array is moved by an unsigned integer that is no long to one element
behind the first. The element before that one is reached through it just as through the far handle,
and asks for an instance either way. -/
theorem moves_and_elements_lonePoint :
    (Value.byte (-1)).IsInteger .byte (-1) ∧
    (Value.uint64 9223372036854775808).IsInteger .uint64 9223372036854775808 ∧
    binary .add (.array ⟨0, -9223372036854775807⟩) (.uint64 9223372036854775808) 0 =
      .ok (.array ⟨0, 1⟩) ∧
    ArrayHandle.MovesExactly ⟨0, -9223372036854775807⟩ 9223372036854775808 ∧
    ∃ s', StoreM.reachElement ⟨0, 1⟩ (-1) lonePoint = .ok (.unbuilt ⟨0, 1⟩ "Point") s' ∧
      StoreM.reachElement ⟨0, -9223372036854775807⟩ 9223372036854775807 lonePoint =
        .ok (.unbuilt ⟨0, 1⟩ "Point") s' := by
  have hm : (Value.byte (-1)).IsInteger .byte (-1) := .byte (-1)
  have hn : (Value.uint64 9223372036854775808).IsInteger .uint64 9223372036854775808 :=
    .uint64 9223372036854775808
  have hmove : ArrayHandle.MovesExactly ⟨0, -9223372036854775807⟩ 9223372036854775808 := by
    unfold ArrayHandle.MovesExactly
    decide
  have hadd : binary .add (.array ⟨0, -9223372036854775807⟩) (.uint64 9223372036854775808) 0 =
      .ok (.array ⟨0, 1⟩) := rfl
  obtain ⟨b, hb, -, -, -, -, helements⟩ :=
    moves_and_elements_agree hm hn ⟨0, -9223372036854775807⟩ 0
  obtain rfl : (⟨0, 1⟩ : ArrayHandle) = b := by simpa using hadd.symm.trans hb
  obtain ⟨-, hreach⟩ := helements lonePoint (-1) 9223372036854775807 hmove (by decide)
  have hnear : StoreM.reachElement ⟨0, 1⟩ (-1) lonePoint = .ok (.unbuilt ⟨0, 1⟩ "Point") _ := rfl
  refine ⟨hm, hn, hadd, hmove, _, hnear, ?_⟩
  rw [hnear] at hreach
  generalize StoreM.reachElement ⟨0, -9223372036854775807⟩ 9223372036854775807 lonePoint = far
    at hreach ⊢
  cases hreach
  rfl

end Operation

namespace Store

variable {a : ArrayHandle}

/-- A handle that leads before the first element has no position for index 0. -/
theorem position_of_before (h : a.offset.toInt < 0) : a.position 0 = .error (.invalidIndex 0) := by
  have hzero : (0 : Int64).toInt = 0 := rfl
  exact ArrayHandle.position_eq_error (.inl (by omega))

end Store

namespace Native

open Store WorldM

variable {s : Store} {a : ArrayHandle} {count : Nat}

/-- How many elements seem to be left behind a handle that leads before the first one. It cannot lead
so far that the difference is too small. -/
theorem remaining_of_before (count : Nat) (hbefore : a.offset.toInt < 0) :
    remaining count a.offset =
      if (Int64.ofNat count).toInt - a.offset.toInt < 2 ^ 63 then
        .ok ((Int64.ofNat count).toInt - a.offset.toInt).toNat
      else .error (.crash .subtraction) := by
  have hlen := (Int64.ofNat count).minValue_le_toInt
  have hmin : Int64.minValue.toInt = -9223372036854775808 := rfl
  have hmax : Int64.maxValue.toInt = 9223372036854775807 := rfl
  unfold remaining
  dsimp only
  by_cases hfits : (Int64.ofNat count).toInt - a.offset.toInt < 2 ^ 63
  · rw [if_pos hfits, if_pos (by omega)]
  · rw [if_neg hfits, if_neg (by omega)]

/-- Printing stops at once where index 0 is refused. -/
theorem printElements_of_before (hbefore : a.offset.toInt < 0) (looked : Nat) (sink : Sink) :
    printElements a (looked + 1) 0 0 ⟨s, sink⟩ = .error (.invalidIndex 0) ⟨s, sink⟩ := by
  rw [printElements]
  exact ask_bind_of_error (s.element?_of_invalid (position_of_before hbefore))

/-- A handle that leads before the first element of an array, as it can be made from any other
handle into the array, has no element at index 0: neither can it be looked at nor reached. Printing
the array through it is refused in the same way and leaves store and sink alone, if the distance
from the handle to the end of the array fits into 64 bits. If it does not, the machine breaks down
before anything is printed or changed. A count that is no signed number is taken for a negative one,
and where that lies before the handle nothing is looked at, and zero bytes are reported. -/
theorem printAll_before_start {s : Store} {a : ArrayHandle} {argument : Slot} {count : Nat}
    (hargument : s.array argument = .ok a) (hcount : s.elementCount a.storage = .ok count)
    (hbefore : a.offset.toInt < 0) :
    (∀ b : ArrayHandle, b.storage = a.storage → ∀ maxLen,
      (∃ n, Operation.binary .add (.array b) (.long n) maxLen = .ok (.array a)) ∧
        ∃ n, Operation.binary .sub (.array b) (.long n) maxLen = .ok (.array a)) ∧
    s.element? a 0 = .error (.invalidIndex 0) ∧
    StoreM.reachElement a 0 s = .error (.invalidIndex 0) s ∧
    let distance : Int := (Int64.ofNat count).toInt - a.offset.toInt
    (count < 2 ^ 63 → 0 < distance ∧ distance = count - a.offset.toInt) ∧
    ∀ (result : Slot) (sink : Sink),
      (0 < distance → distance < 2 ^ 63 →
        printAll result argument ⟨s, sink⟩ = .error (.invalidIndex 0) ⟨s, sink⟩) ∧
      (2 ^ 63 ≤ distance →
        printAll result argument ⟨s, sink⟩ = .error (.crash .subtraction) ⟨s, sink⟩) ∧
      (distance ≤ 0 →
        printAll result argument ⟨s, sink⟩ =
          onStore (StoreM.write result (.long 0)) ⟨s, sink⟩) := by
  have hposition := position_of_before hbefore
  have hremaining := remaining_of_before count hbefore
  refine ⟨fun b hb maxLen => Operation.handle_made hb maxLen, s.element?_of_invalid hposition,
    StoreM.reachElement_of_invalid s hposition, ?_⟩
  intro distance
  refine ⟨fun hsigned => ?_, fun result sink => ⟨?_, ?_, ?_⟩⟩
  · have hlen : (Int64.ofNat count).toInt = count := Int64.toInt_ofNat_of_lt hsigned
    exact ⟨by omega, by omega⟩
  · intro hpositive hfits
    obtain ⟨looked, hlooked⟩ : ∃ looked, distance.toNat = looked + 1 :=
      Nat.exists_eq_succ_of_ne_zero (by omega)
    rw [if_pos hfits, hlooked] at hremaining
    rw [printAll_of_remaining hargument hcount hremaining]
    exact Action.bind_of_error (printElements_of_before hbefore looked sink)
  · intro hover
    rw [if_neg (by omega)] at hremaining
    unfold printAll
    rw [ask_bind_of_ok hargument, ask_bind_of_ok hcount, ask_bind_of_error hremaining]
  · intro hnegative
    have hnone : distance.toNat = 0 := by omega
    rw [if_pos (by omega), hnone] at hremaining
    rw [printAll_of_remaining hargument hcount hremaining]
    rfl

/-- A return slot that is declared as a long and holds a 7, a handle, and an array of two elements
to which it leads. -/
def aimedAt (offset : Int64) : Store :=
  ⟨#[⟨.module, #[⟨[Tag.long], true, .long 7⟩, Cell.holding (.array ⟨1, offset⟩)]⟩,
    ⟨.array .untyped, #[arrayHeader 2, Cell.holding (.long 5), Cell.free]⟩], #[], 16⟩

/-- Printing through a handle to one element before the first is refused. -/
theorem printAll_oneBefore : (aimedAt (-1)).array ⟨0, 1⟩ = .ok ⟨1, -1⟩ ∧
    (aimedAt (-1)).elementCount 1 = .ok 2 ∧ (-1 : Int64).toInt < 0 ∧
    printAll ⟨0, 0⟩ ⟨0, 1⟩ ⟨aimedAt (-1), Sink.empty⟩ =
      .error (.invalidIndex 0) ⟨aimedAt (-1), Sink.empty⟩ := by
  have hargument : (aimedAt (-1)).array ⟨0, 1⟩ = .ok ⟨1, -1⟩ := rfl
  have hcount : (aimedAt (-1)).elementCount 1 = .ok 2 := rfl
  have hbefore : (-1 : Int64).toInt < 0 := by decide
  obtain ⟨-, -, -, -, hprint⟩ := printAll_before_start hargument hcount hbefore
  exact ⟨hargument, hcount, hbefore, (hprint ⟨0, 0⟩ Sink.empty).1 (by decide) (by decide)⟩

/-- Through the handle that leads as far before the first element as a handle can, printing breaks
down before the return slot is written. The element itself is refused. -/
theorem printAll_farthestBefore :
    (aimedAt Int64.minValue).element? ⟨1, Int64.minValue⟩ 0 = .error (.invalidIndex 0) ∧
    printAll ⟨0, 0⟩ ⟨0, 1⟩ ⟨aimedAt Int64.minValue, Sink.empty⟩ =
      .error (.crash .subtraction) ⟨aimedAt Int64.minValue, Sink.empty⟩ :=
  ⟨rfl, rfl⟩

end Native

end SlotMachine
