import SlotMachine.Proofs.Store.Constancy
import SlotMachine.Proofs.Store.Elements
import SlotMachine.Proofs.Store.Faults
import Mathlib.Tactic.Common

/-!
# Refused calls

A call that a store refuses leaves no trace, neither in the heaps nor among the warnings, whatever
the store looks like. Most operations ask all their questions before they change anything. Two go on
after a change. A typed read warns before it looks at the number it got, but a converted number is of
the kind asked for. And an element is looked up after its storage has grown, where a header that
counts more elements than there are cells, and more than are allowed, can have promised too much: the
storage is cut to the limit and the machine breaks down. That call is not refused, it does not return.
-/

namespace SlotMachine

/-- What a host may ask of a store. -/
inductive StoreCall where
  /-- Replace the cell at a slot. -/
  | replace (slot : Slot) (c : Cell)
  /-- Add a cell at the end of a heap. -/
  | push (id : HeapId) (c : Cell)
  /-- Add untyped cells to a heap until it has a length. -/
  | extend (id : HeapId) (len : Nat)
  /-- Write a value of whatever kind; a reference binds the slot. -/
  | write (slot : Slot) (v : Value)
  /-- Bind a slot to a target. -/
  | bind (slot target : Slot) (binding : Binding)
  /-- Read a number as a signed 8-bit integer. -/
  | readByte (slot : Slot)
  /-- Read a number as a signed 64-bit integer. -/
  | readLong (slot : Slot)
  /-- Read a number as a double. -/
  | readDouble (slot : Slot)
  /-- Read a number as an unsigned 64-bit integer. -/
  | readUInt64 (slot : Slot)
  /-- Read a text. -/
  | readText (slot : Slot)
  /-- Read an array handle. -/
  | readArray (slot : Slot)
  /-- Read a class instance. -/
  | readObject (slot : Slot)
  /-- Allocate array storage. -/
  | allocArray (element : ElementKind) (len : Nat)
  /-- Reach an element of an array. -/
  | reachElement (a : ArrayHandle) (index : Int64)

/-- The action that is asked for. What it answers is of no interest here. -/
def StoreCall.action : StoreCall → StoreM Unit
  | replace slot c => StoreM.replace slot c
  | push id c => discard (StoreM.push id c)
  | extend id len => StoreM.extend id len
  | write slot v => StoreM.write slot v
  | bind slot target binding => StoreM.bind slot target binding
  | readByte slot => discard (StoreM.readByte slot)
  | readLong slot => discard (StoreM.readLong slot)
  | readDouble slot => discard (StoreM.readDouble slot)
  | readUInt64 slot => discard (StoreM.readUInt64 slot)
  | readText slot => discard (StoreM.ask fun s => s.text slot)
  | readArray slot => discard (StoreM.ask fun s => s.array slot)
  | readObject slot => discard (StoreM.ask fun s => s.object slot)
  | allocArray element len => discard (StoreM.allocArray element len)
  | reachElement a index => discard (StoreM.reachElement a index)

/-- Storage that may grow far enough has a cell for the element once it has room. -/
theorem lt_size_withRoom {maxLen wanted : Nat} {cells : Array Cell} (fresh : Cell)
    (hpos : 0 < cells.size) (hroom : cells.size ≤ wanted → wanted ≤ maxLen) :
    wanted < (withRoom maxLen fresh wanted cells).size := by
  unfold withRoom
  by_cases hshort : cells.size - 1 < wanted
  · have hle : wanted ≤ maxLen := hroom (by omega)
    have hcapacity : wanted ≤ grownCapacity maxLen wanted := by
      unfold grownCapacity
      omega
    rw [if_pos hshort, resizeCells, if_pos (by omega), Array.size_append, Array.size_replicate]
    omega
  · rw [if_neg hshort]
    omega

/-- The storage counts an element for which it has no cell, nor may it have one. -/
structure Store.Overstates (s : Store) (a : ArrayHandle) (index : Int64) (h : Heap)
    (element : ElementKind) (p : Nat) : Prop where
  /-- The element is at this position. -/
  position : a.position index = .ok p
  /-- The storage is a heap of the store. -/
  heap : s.heaps[a.storage]? = some h
  /-- It is array storage. -/
  kind : h.kind = .array element
  /-- The element counts. -/
  counted : ∃ count, s.elementCount a.storage = .ok count ∧ p < count
  /-- There is no cell for it. -/
  missing : h.cells.size ≤ p + 1
  /-- So long an array is not allowed. -/
  barred : s.maxLen ≤ p

namespace StoreM

open Store
open SlotMachine.Action (Raises)

variable {α β : Type} {s s' s₁ : Store} {v : Value} {kind : Tag} {e : Fault}

/-- Should the action fail in the store, a fault is returned and nothing has changed. -/
def Refuses (x : StoreM α) (s : Store) : Prop :=
  ∀ e s', x s = .error e s' → e.Run ∧ s' = s

/-- An action that succeeds does not fail. -/
theorem refuses_of_ok {x : StoreM α} {a : α} (h : x s = .ok a s') : Refuses x s := by
  intro e s₁ herror
  rw [h] at herror
  cases herror

/-- An action that fails without a change. -/
theorem refuses_of_error {x : StoreM α} (h : x s = .error e s) (hrun : e.Run) : Refuses x s := by
  intro e' s₁ herror
  rw [h] at herror
  cases herror
  exact ⟨hrun, rfl⟩

/-- An action that fails without a change, and with run faults only. -/
theorem Atomic.refuses {x : StoreM α} (hx : Atomic x s) (hraises : Raises Fault.Run x) :
    Refuses x s :=
  fun e s' h => ⟨hraises s e s' h, hx e s' h⟩

/-- An action whose answer is dropped fails as before. -/
theorem Refuses.discard {x : StoreM α} (hx : Refuses x s) : Refuses (discard x) s :=
  fun e s' h => hx e s' (Action.error_of_discard h)

/-- Asking a question changes nothing. -/
theorem refuses_ask {question : Store → Except Fault α}
    (hraises : ∀ s, Answer.Raises Fault.Run (question s)) : Refuses (ask question) s := by
  intro e s' h
  obtain ⟨hquestion, rfl⟩ := ask_eq_error_iff.mp h
  exact ⟨hraises s e hquestion, rfl⟩

/-- Replacing a cell that is not there. -/
theorem atomic_replace (slot : Slot) (c : Cell) (s : Store) : Atomic (replace slot c) s :=
  atomic_ask_bind fun _ _ => atomic_of_ok rfl

/-- Adding a cell to a heap that is not there. -/
theorem atomic_push (id : HeapId) (c : Cell) (s : Store) : Atomic (push id c) s :=
  atomic_ask_bind fun _ _ => atomic_of_ok rfl

/-- Extending a heap that is not there. -/
theorem atomic_extend (id : HeapId) (len : Nat) (s : Store) : Atomic (extend id len) s :=
  atomic_ask_bind fun _ _ => atomic_of_ok rfl

/-- Writing a value that the slot does not take. -/
theorem atomic_write (slot : Slot) (v : Value) (s : Store) : Atomic (write slot v) s := by
  by_cases href : ∃ target, v = .ref target
  · obtain ⟨target, rfl⟩ := href
    exact atomic_bind slot target .mutable s
  · rw [write_eq_writeValue fun target heq => href ⟨target, heq⟩]
    rcases writeValue_outcome slot v s with ⟨e, he⟩ | ⟨t, c, c', s₁, -, -, -, -, hok⟩
    · intro e' s' h
      rw [he] at h
      cases h
      rfl
    · exact atomic_of_ok hok

/-- Everything that reading a number can do: it is refused and nothing changes, or a number of the
kind that is asked for comes out, perhaps with a warning. -/
theorem readNumber_outcome (slot : Slot) (kind : Tag) (operation : String) (s : Store) :
    (∃ e, readNumber slot kind operation s = .error e s) ∨
      ∃ v s₁, readNumber slot kind operation s = .ok v s₁ ∧ v.tag = kind ∧ s.Warned s₁ := by
  unfold readNumber
  cases hv : s.value slot with
  | error e => exact .inl ⟨e, ask_bind_of_error hv⟩
  | ok v =>
    rw [ask_bind_of_ok hv]
    cases hconvert : v.convert? kind with
    | none => exact .inl ⟨_, rfl⟩
    | some converted =>
      obtain ⟨w, lossy⟩ := converted
      obtain ⟨s₁, hwarn, hwarned⟩ := warnIfLossy_eq_ok lossy v.tag kind s
      refine .inr ⟨w, s₁, ?_, (Value.tag_of_convert? hconvert).1, hwarned⟩
      dsimp only
      rw [Action.bind_of_ok hwarn]
      rfl

/-- A typed read takes the number apart by its kind, which it has. -/
theorem refuses_readAs {slot : Slot} {operation : String} {f : Value → StoreM α}
    (hf : ∀ v s₁, v.tag = kind → ∃ a, f v s₁ = .ok a s₁) :
    Refuses (readNumber slot kind operation >>= f) s := by
  rcases readNumber_outcome slot kind operation s with ⟨e, he⟩ | ⟨v, s₁, hv, htag, -⟩
  · exact refuses_of_error (Action.bind_of_error he) (raises_readNumber slot kind operation s e s he)
  · obtain ⟨a, ha⟩ := hf v s₁ htag
    exact refuses_of_ok ((Action.bind_of_ok hv).trans ha)

theorem refuses_readByte (slot : Slot) (s : Store) : Refuses (readByte slot) s := by
  refine refuses_readAs fun v s₁ htag => ?_
  cases v with
  | byte n => exact ⟨n, rfl⟩
  | _ => exact absurd htag (by simp only [Value.tag]; decide)

theorem refuses_readLong (slot : Slot) (s : Store) : Refuses (readLong slot) s := by
  refine refuses_readAs fun v s₁ htag => ?_
  cases v with
  | long n => exact ⟨n, rfl⟩
  | _ => exact absurd htag (by simp only [Value.tag]; decide)

theorem refuses_readDouble (slot : Slot) (s : Store) : Refuses (readDouble slot) s := by
  refine refuses_readAs fun v s₁ htag => ?_
  cases v with
  | double d => exact ⟨d, rfl⟩
  | _ => exact absurd htag (by simp only [Value.tag]; decide)

theorem refuses_readUInt64 (slot : Slot) (s : Store) : Refuses (readUInt64 slot) s := by
  refine refuses_readAs fun v s₁ htag => ?_
  cases v with
  | uint64 n => exact ⟨n, rfl⟩
  | _ => exact absurd htag (by simp only [Value.tag]; decide)

/-- Allocating more elements than are allowed. -/
theorem atomic_allocArray (element : ElementKind) (len : Nat) (s : Store) :
    Atomic (allocArray element len) s :=
  atomic_ask_bind fun _ _ => atomic_of_ok rfl

/-- Storage whose elements are counted has a header. -/
theorem size_pos_of_elementCount {storage : HeapId} {h : Heap} {count : Nat}
    (hh : s.heaps[storage]? = some h) (hcount : s.elementCount storage = .ok count) :
    0 < h.cells.size := by
  unfold elementCount at hcount
  cases hc : s.cell ⟨storage, 0⟩ with
  | error e => simp [hc] at hcount
  | ok header =>
    obtain ⟨h', hh', hfirst⟩ := cell_eq_ok_iff.mp hc
    obtain rfl : h = h' := by simpa [hh] using hh'
    exact (Array.getElem?_eq_some_iff.mp hfirst).1

/-- Once storage with a header has grown as far as needed, the element is there to be given its
type. -/
theorem exists_reached {storage : HeapId} {h : Heap} (hh : s.heaps[storage]? = some h)
    (element : ElementKind) (count : Nat) {wanted : Nat} (hpos : 0 < h.cells.size)
    (hroom : h.cells.size ≤ wanted → wanted ≤ s.maxLen) :
    ∃ reached s', establish element ⟨storage, wanted⟩ (s.modifyHeap storage
      (withCount count wanted ∘ withRoom s.maxLen element.fresh wanted)) = .ok reached s' := by
  generalize hgrown : withCount count wanted ∘ withRoom s.maxLen element.fresh wanted = grown
  have hlt : wanted < (grown h.cells).size := by
    rw [← hgrown, Function.comp, size_withCount]
    exact lt_size_withRoom element.fresh hpos hroom
  have hcell : (s.modifyHeap storage grown).cell ⟨storage, wanted⟩ = .ok (grown h.cells)[wanted] :=
    cell_eq_ok_iff.mpr ⟨_, heaps_modifyHeap_self hh grown, Array.getElem?_eq_getElem hlt⟩
  rw [establish_of_cell hcell]
  split
  · exact ⟨_, _, rfl⟩
  · exact ⟨_, _, rfl⟩

/-- An element of what is no array is not reached. -/
theorem reachElement_of_elementKind {a : ArrayHandle} {index : Int64} {p count : Nat} {e : Fault}
    (hposition : a.position index = .ok p) (hcount : s.elementCount a.storage = .ok count)
    (hlimit : count ≤ p → p < s.maxLen) (hkind : s.elementKind a.storage = .error e) :
    reachElement a index s = .error e s := by
  rw [reachElement_allowed hposition hcount hlimit]
  exact ask_bind_of_error hkind

/-- Where the header has promised too much, the storage is cut or grown to the limit and the machine
breaks down. -/
theorem reachElement_of_overstates {a : ArrayHandle} {index : Int64} {h : Heap}
    {element : ElementKind} {p : Nat} (hover : s.Overstates a index h element p) :
    reachElement a index s = .error (.crash (.outOfBounds (s.maxLen + 1) (p + 1)))
      (s.modifyHeap a.storage fun cells => resizeCells cells (s.maxLen + 1) element.fresh) := by
  obtain ⟨count, hcount, hp⟩ := hover.counted
  have hmissing := hover.missing
  have hbarred := hover.barred
  have hcapacity : grownCapacity s.maxLen (p + 1) = s.maxLen := by
    unfold grownCapacity
    omega
  have hgrown : s.modifyHeap a.storage
      (withCount count (p + 1) ∘ withRoom s.maxLen element.fresh (p + 1)) =
      s.modifyHeap a.storage fun cells => resizeCells cells (s.maxLen + 1) element.fresh := by
    apply modifyHeap_congr hover.heap
    rw [Function.comp, withCount, if_neg (by omega), withRoom, if_pos (by omega), hcapacity]
  rw [reachElement_eq hover.position hcount (by omega) hover.heap hover.kind, hgrown]
  refine ask_bind_of_error ?_
  rw [expectedCell, heap_eq_ok_iff.mpr (heaps_modifyHeap_self hover.heap _)]
  simp [size_resizeCells, hbarred]

/-- How an element of whatever storage is reached: it may be refused, unless the header has promised
too much. -/
theorem refuses_reachElement (a : ArrayHandle) (index : Int64) (s : Store) :
    Refuses (reachElement a index) s ∨ ∃ h element p, s.Overstates a index h element p := by
  cases hposition : a.position index with
  | error e =>
    exact .inl (refuses_of_error (ask_bind_of_error hposition) (raises_position a index e hposition))
  | ok p =>
    cases hcount : s.elementCount a.storage with
    | error e =>
      have hrun := raises_elementCount a.storage e hcount
      exact .inl (refuses_of_error
        ((ask_bind_of_ok hposition).trans (ask_bind_of_error hcount)) hrun)
    | ok count =>
      by_cases hlimit : count ≤ p ∧ s.maxLen ≤ p
      · exact .inl (refuses_of_error (reachElement_of_le hposition hcount hlimit.1 hlimit.2) rfl)
      · cases hkind : s.elementKind a.storage with
        | error e =>
          have hrun := raises_elementKind a.storage e hkind
          exact .inl (refuses_of_error
            (reachElement_of_elementKind hposition hcount (by omega) hkind) hrun)
        | ok element =>
          obtain ⟨h, hh, hkinds⟩ := kind?_eq_some_iff.mp (elementKind_eq_ok_iff.mp hkind)
          by_cases hpromised : h.cells.size ≤ p + 1 ∧ s.maxLen ≤ p
          · exact .inr ⟨h, element, p, hposition, hh, hkinds, ⟨count, hcount, by omega⟩,
              hpromised.1, hpromised.2⟩
          · obtain ⟨reached, s', hok⟩ := exists_reached hh element count
              (size_pos_of_elementCount hh hcount) (by omega : h.cells.size ≤ p + 1 → p + 1 ≤ s.maxLen)
            rw [← reachElement_eq hposition hcount (by omega) hh hkinds] at hok
            exact .inl (refuses_of_ok hok)

end StoreM

/-- A call may be refused, unless it is for an element of storage whose header has promised too
much. -/
theorem StoreCall.refuses_action (call : StoreCall) (s : Store) :
    StoreM.Refuses call.action s ∨ ∃ a index h element p, call = .reachElement a index ∧
      s.Overstates a index h element p := by
  cases call with
  | replace slot c =>
    exact .inl ((StoreM.atomic_replace slot c s).refuses (StoreM.raises_replace slot c))
  | push id c => exact .inl ((StoreM.atomic_push id c s).refuses (StoreM.raises_push id c)).discard
  | extend id len =>
    exact .inl ((StoreM.atomic_extend id len s).refuses (StoreM.raises_extend id len))
  | write slot v => exact .inl ((StoreM.atomic_write slot v s).refuses (StoreM.raises_write slot v))
  | bind slot target binding =>
    exact .inl ((StoreM.atomic_bind slot target binding s).refuses
      (StoreM.raises_bind slot target binding))
  | readByte slot => exact .inl (StoreM.refuses_readByte slot s).discard
  | readLong slot => exact .inl (StoreM.refuses_readLong slot s).discard
  | readDouble slot => exact .inl (StoreM.refuses_readDouble slot s).discard
  | readUInt64 slot => exact .inl (StoreM.refuses_readUInt64 slot s).discard
  | readText slot => exact .inl (StoreM.refuses_ask fun s => s.raises_text slot).discard
  | readArray slot => exact .inl (StoreM.refuses_ask fun s => s.raises_array slot).discard
  | readObject slot => exact .inl (StoreM.refuses_ask fun s => s.raises_object slot).discard
  | allocArray element len =>
    exact .inl ((StoreM.atomic_allocArray element len s).refuses
      (StoreM.raises_allocArray element len)).discard
  | reachElement a index =>
    rcases StoreM.refuses_reachElement a index s with hrefuses | ⟨h, element, p, hover⟩
    · exact .inl hrefuses.discard
    · exact .inr ⟨a, index, h, element, p, rfl, hover⟩

namespace Store

/-- The store after calls, granted or refused. A call that breaks down is the last one. -/
def afterCalls (s : Store) : List StoreCall → Store
  | [] => s
  | call :: others =>
    match call.action s with
    | .ok _ s' => s'.afterCalls others
    | .error e s' => if e.isCrash then s' else s'.afterCalls others

/-- Those of the calls that are not refused. -/
def unrefused (s : Store) : List StoreCall → List StoreCall
  | [] => []
  | call :: others =>
    match call.action s with
    | .ok _ s' => call :: s'.unrefused others
    | .error e s' => if e.isCrash then [call] else s'.unrefused others

/-- A call that is refused leaves the store as it was. -/
theorem eq_of_refused {s s' : Store} {call : StoreCall} {e : Fault}
    (h : call.action s = .error e s') (hreturned : e.isCrash = false) : s' = s := by
  rcases call.refuses_action s with hrefuses | ⟨a, index, k, element, p, rfl, hover⟩
  · exact (hrefuses e s' h).2
  · have hcrash := StoreM.reachElement_of_overstates hover
    rw [Action.error_of_discard h] at hcrash
    cases hcrash
    cases hreturned

/-- A call breaks down exactly over storage whose header has promised too much. -/
theorem action_eq_crash_iff {s s' : Store} {call : StoreCall} {cause : Crash} :
    call.action s = .error (.crash cause) s' ↔
      ∃ a index h element p, call = .reachElement a index ∧ s.Overstates a index h element p ∧
        cause = .outOfBounds (s.maxLen + 1) (p + 1) ∧
        s' = s.modifyHeap a.storage fun cells =>
          resizeCells cells (s.maxLen + 1) element.fresh := by
  constructor
  · intro h
    rcases call.refuses_action s with hrefuses | ⟨a, index, k, element, p, rfl, hover⟩
    · cases (hrefuses _ _ h).1
    · have hcrash := StoreM.reachElement_of_overstates hover
      rw [Action.error_of_discard h] at hcrash
      cases hcrash
      exact ⟨a, index, k, element, p, rfl, hover, rfl, rfl⟩
  · rintro ⟨a, index, h, element, p, rfl, hover, rfl, rfl⟩
    exact (Action.discard_eq _ s).trans (by rw [StoreM.reachElement_of_overstates hover])

/-- Calls lead where those of them lead that are not refused. -/
theorem afterCalls_unrefused (s : Store) (calls : List StoreCall) :
    s.afterCalls (s.unrefused calls) = s.afterCalls calls := by
  induction calls generalizing s with
  | nil => rfl
  | cons call others ih =>
    cases hcall : call.action s with
    | ok _ s' => simp only [unrefused, afterCalls, hcall, ih]
    | error e s' =>
      cases hcrash : e.isCrash with
      | true => simp [unrefused, afterCalls, hcall, hcrash]
      | false =>
        obtain rfl := eq_of_refused hcall hcrash
        simp [unrefused, afterCalls, hcall, hcrash, ih]

/-- In whatever store, a call that is refused leaves all heaps and the warnings exactly as they were;
so any sequence of calls leads to the store to which those of them lead that are not refused. A call
that neither is granted nor refused is one for an element that the storage counts without having a
cell for it, beyond the limit. -/
theorem refused_calls_leave_no_trace (s : Store) :
    (∀ (call : StoreCall) (e : Fault) (s' : Store), call.action s = .error e s' →
      e.isCrash = false → s' = s) ∧
    (∀ calls, s.afterCalls (s.unrefused calls) = s.afterCalls calls) ∧
    ∀ (call : StoreCall) (cause : Crash) (s' : Store),
      call.action s = .error (.crash cause) s' ↔
        ∃ a index h element p, call = .reachElement a index ∧ s.Overstates a index h element p ∧
          cause = .outOfBounds (s.maxLen + 1) (p + 1) ∧
          s' = s.modifyHeap a.storage fun cells =>
            resizeCells cells (s.maxLen + 1) element.fresh :=
  ⟨fun _ _ _ h hreturned => eq_of_refused h hreturned, s.afterCalls_unrefused,
    fun _ _ _ => action_eq_crash_iff⟩

/-- Array storage that claims nine elements and has a cell for one, where four are allowed; and a
long number that does not fit into a byte. -/
def overstated : Store :=
  ⟨#[⟨.array .untyped, #[⟨[Tag.uint64], true, .uint64 9⟩, Cell.free]⟩,
    ⟨.module, #[⟨[Tag.long], true, .long 300⟩]⟩], #[], 4⟩

/-- Its tenth element is refused by the limit, as is the reading of a text, and the reading in
between is granted with a warning; the sixth element, which counts, is looked for among the five
cells that the storage is grown to. -/
theorem refused_overstated :
    ((StoreCall.reachElement ⟨0, 0⟩ 9).action overstated =
        .error (.allocationLimit .array 10 4) overstated) ∧
      overstated.afterCalls [.reachElement ⟨0, 0⟩ 9, .readByte ⟨1, 0⟩, .readText ⟨1, 0⟩] =
        overstated.afterCalls [.readByte ⟨1, 0⟩] ∧
      (StoreCall.reachElement ⟨0, 0⟩ 5).action overstated =
        .error (.crash (.outOfBounds 5 6))
          (overstated.modifyHeap 0 fun cells => resizeCells cells 5 Cell.free) := by
  obtain ⟨hrefused, hunrefused, hcrash⟩ := refused_calls_leave_no_trace overstated
  have herror : (StoreCall.reachElement ⟨0, 0⟩ 9).action overstated =
      .error (.allocationLimit .array 10 4) _ := rfl
  refine ⟨?_, ?_, ?_⟩
  · rw [herror, hrefused _ _ _ herror rfl]
  · rw [← hunrefused]
    rfl
  · have hover : overstated.Overstates ⟨0, 0⟩ 5
        ⟨.array .untyped, #[⟨[Tag.uint64], true, .uint64 9⟩, Cell.free]⟩ .untyped 5 :=
      ⟨rfl, rfl, rfl, ⟨9, rfl, by decide⟩, by decide, by decide⟩
    exact (hcrash _ _ _).mpr ⟨_, _, _, _, _, rfl, hover, rfl, rfl⟩

end Store

end SlotMachine
