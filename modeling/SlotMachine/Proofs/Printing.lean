import SlotMachine.Native
import SlotMachine.Proofs.Conversion
import SlotMachine.Proofs.Store.Growth
import SlotMachine.Proofs.Store.Referring

/-!
# Printing arrays

Printing an array writes the texts of the elements from the handle on, one after the other, and
passes over those that are empty. It stops at the first element that has no text. Elements are only
looked at: until the number of bytes is stored at the end, the store stays as it is, so that an
element for which no instance has been made still asks for one when it is reached.
-/

namespace SlotMachine

/-- Numbers and texts can be printed. -/
def Value.Printable (v : Value) : Prop :=
  v.isNumeric = true ∨ ∃ t, v = .text t

/-- The texts of values in a row, without the empty ones. -/
def printedText (values : List Value) : String :=
  String.join ((values.filter (· ≠ .nothing)).map Value.display)

/-- Nothing is printed of nothing. -/
theorem printedText_nil : printedText [] = "" := rfl

/-- An empty element is passed over. -/
theorem printedText_nothing (values : List Value) :
    printedText (.nothing :: values) = printedText values := rfl

/-- Any other element comes before the rest. -/
theorem printedText_cons {v : Value} (hv : v ≠ .nothing) (values : List Value) :
    printedText (v :: values) = v.display ++ printedText values := by
  simp [printedText, hv, String.join_cons]

namespace Store

/-- The value of an element of array storage. -/
def elementValue (s : Store) (storage : HeapId) (position : Nat) : Value :=
  match s.cell ⟨storage, position + 1⟩ with
  | .ok c => c.value
  | .error _ => .nothing

/-- The values of the elements from the handle on. -/
def elementsFrom (s : Store) (a : ArrayHandle) (count : Nat) : List Value :=
  let start := a.offset.toInt.toNat
  (List.range' start (count - start)).map (s.elementValue a.storage)

/-- The handle leads into storage that has a cell for every element that counts, and the elements
from the handle on are no references. -/
structure Lists (s : Store) (a : ArrayHandle) (count : Nat) : Prop where
  /-- The handle does not lead before the first element. -/
  offset_nonneg : 0 ≤ a.offset.toInt
  /-- So many elements count. -/
  counted : s.elementCount a.storage = .ok count
  /-- Every element has an index. -/
  count_lt : count < 9223372036854775808
  /-- There is a cell for every element. -/
  room : ∃ size, s.heapSize a.storage = .ok size ∧ count < size
  /-- The elements are no references. -/
  plain : ∀ (p : Nat) (c : Cell), a.offset.toInt ≤ p → p < count →
    s.cell ⟨a.storage, p + 1⟩ = .ok c → c.isReference = false

/-- The element with an index can be read and has this value. -/
def ShowsAt (s : Store) (a : ArrayHandle) (index : Nat) (v : Value) : Prop :=
  ∃ slot, s.element? a (Int64.ofNat index) = .ok (some slot) ∧ s.value slot = .ok v

/-- The elements from an index on can be read and have these values. -/
def Shows (s : Store) (a : ArrayHandle) (index : Nat) (values : List Value) : Prop :=
  ∀ i v, values[i]? = some v → s.ShowsAt a (index + i) v

variable {s : Store} {a : ArrayHandle} {count index : Nat} {v : Value} {values earlier : List Value}

/-- The first of some elements. -/
theorem Shows.head (h : s.Shows a index (v :: values)) : s.ShowsAt a index v :=
  h 0 v rfl

/-- The others. -/
theorem Shows.tail (h : s.Shows a index (v :: values)) : s.Shows a (index + 1) values := by
  intro i w hi
  have hnext := h (i + 1) w (by simpa using hi)
  rwa [Nat.add_left_comm, Nat.add_comm] at hnext

/-- The first ones. -/
theorem Shows.of_append (h : s.Shows a index (earlier ++ values)) : s.Shows a index earlier := by
  intro i w hi
  have hlt : i < earlier.length := (List.getElem?_eq_some_iff.1 hi).1
  exact h i w (by rw [List.getElem?_append_left hlt, hi])

/-- The one behind the first ones. -/
theorem Shows.next (h : s.Shows a index (earlier ++ v :: values)) :
    s.ShowsAt a (index + earlier.length) v :=
  h earlier.length v (by simp)

/-- There is a cell for every element that counts. -/
theorem Lists.exists_cell (h : s.Lists a count) {p : Nat} (hp : p < count) :
    ∃ c, s.cell ⟨a.storage, p + 1⟩ = .ok c := by
  obtain ⟨size, hsize, hroom⟩ := h.room
  obtain ⟨heap, hheap, rfl⟩ := heapSize_eq_ok_iff.mp hsize
  have hlt : p + 1 < heap.cells.size := by omega
  exact ⟨heap.cells[p + 1], cell_eq_ok_iff.mpr ⟨heap, hheap, Array.getElem?_eq_getElem hlt⟩⟩

/-- The elements that a handle leads to can be read. -/
theorem Lists.shows (h : s.Lists a count) : s.Shows a 0 (s.elementsFrom a count) := by
  intro i v hi
  obtain ⟨start, hstart⟩ := Int.eq_ofNat_of_zero_le h.offset_nonneg
  have hcount := h.count_lt
  rw [elementsFrom, hstart, Int.toNat_natCast, List.getElem?_map, Option.map_eq_some_iff] at hi
  obtain ⟨p, hp, hv⟩ := hi
  obtain ⟨hlt, hp⟩ := List.getElem?_eq_some_iff.1 hp
  rw [List.length_range'] at hlt
  rw [List.getElem_range', Nat.one_mul] at hp
  have hindex : (Int64.ofNat (0 + i)).toInt = (i : Int) := by
    rw [Nat.zero_add]
    exact Int64.toInt_ofNat_of_lt (by omega)
  have hposition : a.position (Int64.ofNat (0 + i)) = .ok p :=
    ArrayHandle.position_eq_ok (by omega) (by omega)
  obtain ⟨c, hc⟩ := h.exists_cell (show p < count by omega)
  have hplain := h.plain p c (by omega) (by omega) hc
  refine ⟨⟨a.storage, p + 1⟩, ?_, ?_⟩
  · rw [element?_eq hposition h.counted, if_pos (by omega)]
  · have hwalk : s.walk 0 ⟨a.storage, p + 1⟩ = some ⟨a.storage, p + 1⟩ := rfl
    have horigin := origin_of_walk (by decide) hwalk hc hplain
    rw [value_of_origin horigin hc, ← hv, elementValue, hc]

/-- The number of elements from the handle on. -/
theorem length_elementsFrom (s : Store) (a : ArrayHandle) (count : Nat) :
    (s.elementsFrom a count).length = count - a.offset.toInt.toNat := by
  rw [elementsFrom, List.length_map, List.length_range']

/-- The slot takes a number: the cell in which writes to it land is undeclared or declared with a
numeric type. -/
def AcceptsNumber (s : Store) (slot : Slot) : Prop :=
  ∃ t c, s.writable slot = .ok t ∧ s.cell t = .ok c ∧ (c.fixed = true → c.tag.isNumeric = true)

end Store

namespace WorldM

variable {α β : Type} {question : Store → Except Fault α} {f : α → WorldM β} {s : Store}
  {sink : Sink}

/-- What follows an answered question. -/
theorem ask_bind_of_ok {x : α} (h : question s = .ok x) :
    (ask question >>= f) ⟨s, sink⟩ = f x ⟨s, sink⟩ :=
  Action.bind_of_ok (by simp [ask, onStore, StoreM.ask, h])

/-- What follows an unanswered question is not run. -/
theorem ask_bind_of_error {e : Fault} (h : question s = .error e) :
    (ask question >>= f) ⟨s, sink⟩ = .error e ⟨s, sink⟩ :=
  Action.bind_of_error (by simp [ask, onStore, StoreM.ask, h])

/-- A sink that takes everything takes a text. -/
theorem write_eq_ok (out text : String) :
    write text ⟨s, out, none, none⟩ = .ok () ⟨s, out ++ text, none, none⟩ := by
  simp [write, Sink.flush]

end WorldM

namespace Native

open Store WorldM

variable {s : Store} {a : ArrayHandle} {count index written : Nat} {v : Value}
  {values : List Value} {out name : String}

/-- What can be printed has its text. -/
theorem printable_eq_ok (hv : v.Printable) : printable name v = .ok v.display := by
  rcases hv with hv | ⟨t, rfl⟩
  · cases v <;> first | rfl | cases hv
  · rfl

/-- What cannot be printed is refused by its type. -/
theorem printable_eq_error (hv : ¬v.Printable) :
    printable name v = .error (.native name ("cannot print " ++ v.typeName)) := by
  cases v with
  | byte _ => exact absurd (.inl rfl) hv
  | long _ => exact absurd (.inl rfl) hv
  | double _ => exact absurd (.inl rfl) hv
  | uint64 _ => exact absurd (.inl rfl) hv
  | text t => exact absurd (.inr ⟨t, rfl⟩) hv
  | _ => rfl

/-- An empty element is passed over. -/
theorem printElements_nothing (h : s.ShowsAt a index .nothing) :
    printElements a (count + 1) index written ⟨s, out, none, none⟩ =
      printElements a count (index + 1) written ⟨s, out, none, none⟩ := by
  obtain ⟨slot, hslot, hvalue⟩ := h
  rw [printElements, ask_bind_of_ok hslot]
  dsimp only
  rw [ask_bind_of_ok hvalue]

/-- An element that is not empty is printed if it can be. -/
theorem printElements_value {sink : Sink} (h : s.ShowsAt a index v) (hv : v ≠ .nothing) :
    printElements a (count + 1) index written ⟨s, sink⟩ =
      (do
        let text ← WorldM.ask fun _ => printable printAllName v
        WorldM.write text
        printElements a count (index + 1) (written + text.utf8ByteSize)) ⟨s, sink⟩ := by
  obtain ⟨slot, hslot, hvalue⟩ := h
  rw [printElements, ask_bind_of_ok hslot]
  dsimp only
  rw [ask_bind_of_ok hvalue]
  cases v with
  | nothing => exact absurd rfl hv
  | _ => rfl

/-- No empty element can be printed. -/
theorem ne_nothing_of_printable (hv : v.Printable) : v ≠ .nothing := by
  rintro rfl
  rcases hv with hv | ⟨t, ht⟩
  · cases hv
  · cases ht

/-- An element with a text is printed. -/
theorem printElements_printable (h : s.ShowsAt a index v) (hv : v.Printable) :
    printElements a (count + 1) index written ⟨s, out, none, none⟩ =
      printElements a count (index + 1) (written + v.display.utf8ByteSize)
        ⟨s, out ++ v.display, none, none⟩ := by
  rw [printElements_value h (ne_nothing_of_printable hv), ask_bind_of_ok (printable_eq_ok hv),
    Action.bind_of_ok (write_eq_ok out v.display)]

/-- An element without a text ends the printing. -/
theorem printElements_refused {sink : Sink} (h : s.ShowsAt a index v) (hv : v ≠ .nothing)
    (hrefused : ¬v.Printable) : printElements a (count + 1) index written ⟨s, sink⟩ =
      .error (.native printAllName ("cannot print " ++ v.typeName)) ⟨s, sink⟩ := by
  rw [printElements_value h hv, ask_bind_of_error (printable_eq_error hrefused)]

/-- The loop once it has printed some elements: their texts have been written in order, their bytes
have been counted, and the store has not changed. -/
theorem printElements_run {values : List Value} (h : s.Shows a index values)
    (hvalues : ∀ v ∈ values, v ≠ .nothing → v.Printable) :
    printElements a (values.length + count) index written ⟨s, out, none, none⟩ =
      printElements a count (index + values.length)
        (written + (printedText values).utf8ByteSize)
        ⟨s, out ++ printedText values, none, none⟩ := by
  induction values generalizing index written out with
  | nil =>
    rw [printedText_nil, String.append_empty, List.length_nil, Nat.zero_add, Nat.add_zero]
    rfl
  | cons v values ih =>
    have hrest (written : Nat) (out : String) := @ih (index + 1) written out h.tail fun w hw =>
      hvalues w (List.mem_cons_of_mem v hw)
    have hlength : (v :: values).length + count = values.length + count + 1 := by
      rw [List.length_cons]
      omega
    have hindex : index + (v :: values).length = index + 1 + values.length := by
      rw [List.length_cons]
      omega
    rw [hlength, hindex]
    by_cases hempty : v = .nothing
    · rw [hempty, printedText_nothing, printElements_nothing (hempty ▸ h.head)]
      exact hrest written out
    · rw [printElements_printable h.head (hvalues v List.mem_cons_self hempty), hrest,
        printedText_cons hempty, String.utf8ByteSize_append, String.append_assoc,
        Nat.add_assoc written]

/-- How many elements are looked at. -/
theorem remaining_eq (h : s.Lists a count) :
    remaining count a.offset = .ok (s.elementsFrom a count).length := by
  have hcount := h.count_lt
  have hoffset := h.offset_nonneg
  have hlimit := a.offset.toInt_le
  have hmin : Int64.minValue.toInt = -9223372036854775808 := rfl
  have hmax : Int64.maxValue.toInt = 9223372036854775807 := rfl
  have hlen : (Int64.ofNat count).toInt = (count : Int) := Int64.toInt_ofNat_of_lt hcount
  have hleft : (count - a.offset.toInt).toNat = (s.elementsFrom a count).length := by
    rw [length_elementsFrom]
    omega
  unfold remaining
  rw [hlen, ← hleft]
  exact if_pos (by omega)

end Native

namespace StoreM

open Store

variable {s s' : Store} {slot : Slot} {v : Value}

/-- A number is written where numbers are taken. -/
theorem write_of_acceptsNumber (h : s.AcceptsNumber slot) (hv : v.isNumeric = true) :
    ∃ s', write slot v s = .ok () s' := by
  obtain ⟨t, c, ht, hc, hnumeric⟩ := h
  by_cases hfixed : c.fixed = true
  · obtain ⟨w, lossy, hconvert, hconverts⟩ := Value.exists_convert hv (hnumeric hfixed)
    obtain ⟨s₁, -, hwrite⟩ :=
      write_converts hv hconvert hconverts ht hc hfixed rfl (hnumeric hfixed)
    exact ⟨_, hwrite⟩
  · have hnoRef : ∀ target, v ≠ .ref target := by
      rintro target rfl
      cases hv
    refine ⟨s.setCell t (Cell.holding v), ?_⟩
    rw [write_eq_writeValue hnoRef, writeValue, ask_bind_of_ok ht, ask_bind_of_ok hc,
      if_pos (by simp [hfixed]), replace_of_cell hc]

end StoreM

namespace Store

variable {s s' : Store} {storage : HeapId} {element : ElementKind} {cls : String} {t : Slot}
  {count size p : Nat}

/-- The element at a position has no instance yet and asks for one when it is reached. -/
def AsksFor (s : Store) (storage : HeapId) (p : Nat) (cls : String) : Prop :=
  ∀ (b : ArrayHandle) (index : Int64), b.storage = storage → b.position index = .ok p →
    ∃ s', StoreM.reachElement b index s = .ok (.unbuilt ⟨storage, p + 1⟩ cls) s'

/-- An element that counts asks for an instance as long as it is unestablished. -/
theorem asksFor_of_blank {c : Cell} (hkind : s.elementKind storage = .ok (.instances cls))
    (hcount : s.elementCount storage = .ok count) (hsize : s.heapSize storage = .ok size)
    (hroom : count < size) (hp : p < count) (hc : s.cell ⟨storage, p + 1⟩ = .ok c)
    (hblank : c.isEstablished = false) : s.AsksFor storage p cls := by
  rintro b index rfl hposition
  obtain ⟨h, hh, hkinds⟩ := kind?_eq_some_iff.mp (elementKind_eq_ok_iff.mp hkind)
  obtain ⟨sized, hsized, rfl⟩ := heapSize_eq_ok_iff.mp hsize
  obtain rfl : h = sized := by simpa [hh] using hsized
  rw [StoreM.reachElement_of_lt hposition hcount hp hh hkinds (by omega),
    StoreM.establish_of_cell hc, if_neg (by simp [hblank])]
  exact ⟨_, rfl⟩

/-- A change of another cell than the count leaves the questions about array storage as they were
answered. -/
theorem DiffersOnlyAt.questions (h : s.DiffersOnlyAt s' t) (ht : t ≠ ⟨storage, 0⟩) :
    s'.elementCount storage = s.elementCount storage ∧
      (s.elementKind storage = .ok element → s'.elementKind storage = .ok element) := by
  constructor
  · rw [elementCount, h.cell_other _ ht.symm, elementCount]
  · rw [elementKind_eq_ok_iff, elementKind_eq_ok_iff, h.kind_eq]
    exact id

end Store

namespace Native

open Store WorldM

variable {s : Store} {a : ArrayHandle} {result argument : Slot} {count : Nat} {out : String}
  {values : List Value}

/-- Among some values there is a first one that cannot be printed, or there is none. -/
theorem printable_or_split (values : List Value) :
    (∀ v ∈ values, v ≠ .nothing → v.Printable) ∨
      ∃ earlier v later, values = earlier ++ v :: later ∧
        (∀ u ∈ earlier, u ≠ .nothing → u.Printable) ∧ v ≠ .nothing ∧ ¬v.Printable := by
  induction values with
  | nil => exact .inl (by simp)
  | cons v values ih =>
    by_cases hv : v ≠ .nothing → v.Printable
    · rcases ih with hall | ⟨earlier, w, later, rfl, hearlier, hw⟩
      · exact .inl (List.forall_mem_cons.2 ⟨hv, hall⟩)
      · exact .inr ⟨v :: earlier, w, later, rfl, List.forall_mem_cons.2 ⟨hv, hearlier⟩, hw⟩
    · rw [Classical.not_imp] at hv
      exact .inr ⟨[], v, values, rfl, by simp, hv⟩

/-- Printing an array is looking at as many elements as seem to be left and storing the number of
bytes. -/
theorem printAll_of_remaining {sink : Sink} {left : Nat} (hargument : s.array argument = .ok a)
    (hcount : s.elementCount a.storage = .ok count) (hleft : remaining count a.offset = .ok left) :
    printAll result argument ⟨s, sink⟩ =
      (do
        let written ← printElements a left 0 0
        WorldM.onStore (StoreM.write result (.long (Int64.ofNat written)))) ⟨s, sink⟩ := by
  unfold printAll
  rw [ask_bind_of_ok hargument, ask_bind_of_ok hcount, ask_bind_of_ok hleft]

/-- Printing an array is printing its elements and storing the number of bytes. -/
theorem printAll_eq {sink : Sink} (hargument : s.array argument = .ok a) (ha : s.Lists a count) :
    printAll result argument ⟨s, sink⟩ =
      (do
        let written ← printElements a (s.elementsFrom a count).length 0 0
        WorldM.onStore (StoreM.write result (.long (Int64.ofNat written)))) ⟨s, sink⟩ :=
  printAll_of_remaining hargument ha.counted (remaining_eq ha)

/-- An array whose elements are empty or can be printed. -/
theorem printAll_printable (out : String) (hargument : s.array argument = .ok a)
    (ha : s.Lists a count) (hresult : s.AcceptsNumber result)
    (hvalues : ∀ v ∈ s.elementsFrom a count, v ≠ .nothing → v.Printable) :
    ∃ s', StoreM.write result
        (.long (Int64.ofNat (printedText (s.elementsFrom a count)).utf8ByteSize)) s = .ok () s' ∧
      printAll result argument ⟨s, out, none, none⟩ =
        .ok () ⟨s', out ++ printedText (s.elementsFrom a count), none, none⟩ := by
  have hrun := @printElements_run s a 0 0 0 out _ ha.shows hvalues
  rw [Nat.add_zero, Nat.zero_add] at hrun
  obtain ⟨s', hs'⟩ := StoreM.write_of_acceptsNumber hresult
    (show (Value.long (Int64.ofNat (printedText (s.elementsFrom a count)).utf8ByteSize)).isNumeric
      = true from rfl)
  refine ⟨s', hs', ?_⟩
  rw [printAll_eq hargument ha, Action.bind_of_ok hrun]
  simp [onStore, hs']

/-- An array with an element that cannot be printed. -/
theorem printAll_refused (result : Slot) (out : String) {earlier later : List Value} {v : Value}
    (hargument : s.array argument = .ok a) (ha : s.Lists a count)
    (hsplit : s.elementsFrom a count = earlier ++ v :: later)
    (hearlier : ∀ u ∈ earlier, u ≠ .nothing → u.Printable) (hv : v ≠ .nothing)
    (hrefused : ¬v.Printable) : printAll result argument ⟨s, out, none, none⟩ =
      .error (.native printAllName ("cannot print " ++ v.typeName))
        ⟨s, out ++ printedText earlier, none, none⟩ := by
  have hshows := ha.shows
  rw [hsplit] at hshows
  have hlength : (s.elementsFrom a count).length = earlier.length + (later.length + 1) := by
    rw [hsplit, List.length_append, List.length_cons]
  have hrun := @printElements_run s a (later.length + 1) 0 0 out _ hshows.of_append hearlier
  rw [← hlength, printElements_refused hshows.next hv hrefused] at hrun
  rw [printAll_eq hargument ha, Action.bind_of_error hrun]

/-- Printing an array into a sink that takes everything. If every element from the handle on is
empty or can be printed, their texts are written in order and the number of bytes is stored as a
long. Otherwise the texts before the first element that cannot be printed are written, and the store
does not change. Either way an element for which no instance has been made still asks for one when
it is reached, unless the number of bytes was stored in its place or in that of the count. -/
theorem printAll_writes_texts_in_order {s : Store} {a : ArrayHandle} {result argument : Slot}
    {count : Nat} (hargument : s.array argument = .ok a) (ha : s.Lists a count)
    (hresult : s.AcceptsNumber result) (out : String) :
    let values := s.elementsFrom a count
    let total := (printedText values).utf8ByteSize
    ((∀ v ∈ values, v ≠ .nothing → v.Printable) → ∃ s',
      StoreM.write result (.long (Int64.ofNat total)) s = .ok () s' ∧
      (total < 9223372036854775808 → (Int64.ofNat total).toInt = total) ∧
      printAll result argument ⟨s, out, none, none⟩ =
        .ok () ⟨s', out ++ printedText values, none, none⟩) ∧
    (∀ earlier v later, values = earlier ++ v :: later →
      (∀ u ∈ earlier, u ≠ .nothing → u.Printable) → v ≠ .nothing → ¬v.Printable →
      printAll result argument ⟨s, out, none, none⟩ =
        .error (.native printAllName ("cannot print " ++ v.typeName))
          ⟨s, out ++ printedText earlier, none, none⟩) ∧
    ∀ cls p c, s.elementKind a.storage = .ok (.instances cls) → p < count →
      s.cell ⟨a.storage, p + 1⟩ = .ok c → c.isEstablished = false →
      (∀ e w, printAll result argument ⟨s, out, none, none⟩ = .error e w →
        w.store.AsksFor a.storage p cls) ∧
      ∀ t w, s.writable result = .ok t → t ≠ ⟨a.storage, 0⟩ → t ≠ ⟨a.storage, p + 1⟩ →
        printAll result argument ⟨s, out, none, none⟩ = .ok () w →
        w.store.AsksFor a.storage p cls := by
  intro values total
  refine ⟨fun hvalues => ?_, fun earlier v later hsplit hearlier hv hrefused => ?_, ?_⟩
  · obtain ⟨s', hwrite, hprint⟩ := printAll_printable out hargument ha hresult hvalues
    exact ⟨s', hwrite, fun htotal => Int64.toInt_ofNat_of_lt htotal, hprint⟩
  · exact printAll_refused result out hargument ha hsplit hearlier hv hrefused
  · intro cls p c hkind hp hc hblank
    obtain ⟨size, hsize, hroom⟩ := ha.room
    rcases printable_or_split values with
        hvalues | ⟨earlier, v, later, hsplit, hearlier, hv, hrefused⟩
    · obtain ⟨s', hwrite, hprint⟩ := printAll_printable out hargument ha hresult hvalues
      refine ⟨fun e w he => ?_, fun t w ht hheader helement hok => ?_⟩
      · rw [hprint] at he
        cases he
      · rw [hprint] at hok
        cases hok
        obtain ⟨t', _, _, ht', -, -, -, hdiffers⟩ := StoreM.landing_of_write (by simp) hwrite
        obtain rfl : t = t' := Except.ok.inj (ht.symm.trans ht')
        obtain ⟨hcounted, hkinds⟩ := hdiffers.questions hheader
        exact asksFor_of_blank (hkinds hkind) (hcounted.trans ha.counted)
          ((hdiffers.size_eq _).trans hsize) hroom hp
          ((hdiffers.cell_other _ helement.symm).trans hc) hblank
    · have hprint := printAll_refused result out hargument ha hsplit hearlier hv hrefused
      refine ⟨fun e w he => ?_, fun t w _ _ _ hok => ?_⟩
      · rw [hprint] at he
        cases he
        exact asksFor_of_blank hkind ha.counted hsize hroom hp hc hblank
      · rw [hprint] at hok
        cases hok

/-- A free return slot, a handle to the second element of an array, and the array: it counts four
elements and has room for five. The third one has no instance yet. -/
def halfBuilt : Store :=
  ⟨#[⟨.module, #[Cell.free, Cell.holding (.array ⟨1, 1⟩)]⟩,
    ⟨.array (.instances "Point"), #[arrayHeader 4, Cell.holding (.object 0),
      Cell.holding (.text "ab"), Cell.blank, Cell.holding (.long (-5)), Cell.holding (.long 6)]⟩],
    #[], 16⟩

/-- Of that array a text and a number are printed, four bytes; the element without an instance is
passed over and asks for one afterwards. -/
theorem printAll_halfBuilt : halfBuilt.array ⟨0, 1⟩ = .ok ⟨1, 1⟩ ∧
    halfBuilt.Lists ⟨1, 1⟩ 4 ∧ halfBuilt.AcceptsNumber ⟨0, 0⟩ ∧
    ∃ w, printAll ⟨0, 0⟩ ⟨0, 1⟩ ⟨halfBuilt, "", none, none⟩ = .ok () w ∧
      w.sink.written = "ab-5" ∧ w.store.value ⟨0, 0⟩ = .ok (.long 4) ∧
      w.store.AsksFor 1 2 "Point" := by
  have hargument : halfBuilt.array ⟨0, 1⟩ = .ok ⟨1, 1⟩ := rfl
  have hlists : halfBuilt.Lists ⟨1, 1⟩ 4 := by
    refine ⟨by decide, rfl, by decide, ⟨6, rfl, by decide⟩, fun p c hstart hp hc => ?_⟩
    have hoffset : (⟨1, 1⟩ : ArrayHandle).offset.toInt = 1 := rfl
    obtain rfl | rfl | rfl : p = 1 ∨ p = 2 ∨ p = 3 := by omega
    all_goals cases hc; rfl
  have hresult : halfBuilt.AcceptsNumber ⟨0, 0⟩ := ⟨⟨0, 0⟩, Cell.free, rfl, rfl, nofun⟩
  have hvalues : halfBuilt.elementsFrom ⟨1, 1⟩ 4 = [.text "ab", .nothing, .long (-5)] := rfl
  have htext : printedText [.text "ab", .nothing, .long (-5)] = "ab-5" := by decide +kernel
  obtain ⟨hprintable, -, hblank⟩ :=
    printAll_writes_texts_in_order hargument hlists hresult ""
  rw [hvalues, htext] at hprintable
  obtain ⟨s', hwrite, -, hprint⟩ := hprintable (by
    simp [Value.Printable, Value.isNumeric, Value.tag, Tag.isNumeric])
  have hwritten : StoreM.write ⟨0, 0⟩ (.long (Int64.ofNat "ab-5".utf8ByteSize)) halfBuilt =
      .ok () _ := rfl
  refine ⟨hargument, hlists, hresult, _, hprint, rfl, ?_, ?_⟩
  · cases hwrite.symm.trans hwritten
    rfl
  · exact (hblank "Point" 2 Cell.blank rfl (by decide) rfl rfl).2 ⟨0, 0⟩ _ rfl (by decide)
      (by decide) hprint

end Native

end SlotMachine
