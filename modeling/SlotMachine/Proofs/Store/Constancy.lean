import SlotMachine.Proofs.Store.Writing
import Mathlib.Tactic.Common

/-!
# Const references

A bound const reference is never bound again, and no write passes it. So its cell stays as it is
whatever is asked of the store, and a write through a slot whose walk comes past a const slot is
refused.
-/

namespace SlotMachine

/-- What may be asked of a store: to write a value of whatever kind, a reference included, or to bind
a slot. -/
inductive StoreRequest where
  /-- Write a value. -/
  | write (slot : Slot) (v : Value)
  /-- Bind a slot to a target. -/
  | bind (slot target : Slot) (binding : Binding)
  deriving DecidableEq

namespace StoreRequest

/-- The action that is asked for. -/
def action : StoreRequest → StoreM Unit
  | write slot v => StoreM.write slot v
  | bind slot target binding => StoreM.bind slot target binding

end StoreRequest

namespace Store

/-- The store after a request, be it granted or refused. -/
def serve (s : Store) (request : StoreRequest) : Store :=
  match request.action s with
  | .ok _ s' => s'
  | .error _ s' => s'

/-- The store after requests. -/
def serveAll (s : Store) (requests : List StoreRequest) : Store :=
  requests.foldl serve s

end Store

namespace StoreM

open Store

variable {s s' : Store} {slot target : Slot} {v : Value} {c : Cell}

/-- A refused binding changes nothing. -/
theorem atomic_bind (slot target : Slot) (binding : Binding) (s : Store) :
    Atomic (bind slot target binding) s := by
  unfold bind
  dsimp only
  split
  · exact atomic_throw _ s
  · refine atomic_ask_bind fun referent _ => ?_
    split
    · exact atomic_throw _ s
    · refine atomic_ask_bind fun referentCell _ => ?_
      refine atomic_ask_bind fun c hc => ?_
      refine atomic_ask_bind fun tags _ => ?_
      exact atomic_of_ok (replace_of_cell hc _)

/-- A bound const reference is not bound again. -/
theorem boundTags_of_const (htag : c.tag = Tag.const) (hvalue : c.value = .ref target)
    (binding : Binding) (referent : Tag) :
    boundTags slot c binding referent = .error (.constViolation slot.index) := by
  unfold boundTags
  rw [if_pos ⟨htag, .inr (by rw [hvalue]; rfl)⟩]

/-- A binding, accepted or refused, leaves a bound const reference as it is. -/
theorem cell_bind_of_const {const : Slot} (hc : s.cell const = .ok c) (htag : c.tag = Tag.const)
    (hvalue : c.value = .ref target) (slot aim : Slot) (binding : Binding) :
    (s.serve (.bind slot aim binding)).cell const = .ok c := by
  unfold serve
  simp only [StoreRequest.action]
  cases hbind : bind slot aim binding s with
  | error e s' =>
    dsimp only
    rw [atomic_bind slot aim binding s e s' hbind, hc]
  | ok _ s' =>
    obtain ⟨-, referent, referentCell, bound, tags, -, -, -, hbound, htags, rfl⟩ :=
      bind_eq_ok_iff.mp hbind
    have hother : const ≠ slot := by
      rintro rfl
      obtain rfl : c = bound := by simpa [hc] using hbound
      rw [boundTags_of_const htag hvalue] at htags
      cases htags
    dsimp only
    rw [cell_setCell hbound, if_neg hother, hc]

/-- Writing a value that is no reference, accepted or refused, leaves every const slot as it is. -/
theorem cell_writeValue_of_const {const : Slot} (hc : s.cell const = .ok c)
    (htag : c.tag = Tag.const) (hv : ∀ target, v ≠ .ref target) (slot : Slot) :
    (s.serve (.write slot v)).cell const = .ok c := by
  unfold serve
  simp only [StoreRequest.action, write_eq_writeValue hv]
  rcases writeValue_outcome slot v s with
    ⟨e, he⟩ | ⟨t, landed, c', s₁, ht, hlanded, -, hwarned, hok⟩
  · rw [he]
    exact hc
  · -- The cell in which a write lands is no reference, and so not the const one.
    have hother : const ≠ t := by
      rintro rfl
      obtain ⟨c₀, hc₀, hplain⟩ := cell_of_writableWithin ht
      obtain rfl : c = c₀ := by simpa [hc] using hc₀
      rw [Cell.isReference_iff.mpr (.inr htag)] at hplain
      cases hplain
    rw [hok]
    dsimp only
    rw [(hwarned.differsOnlyAt hlanded c').cell_other const hother, hc]

end StoreM

namespace Store

variable {s : Store} {slot target : Slot} {c : Cell}

/-- One request leaves a bound const reference as it is. -/
theorem cell_serve_of_const (hc : s.cell slot = .ok c) (htag : c.tag = Tag.const)
    (hvalue : c.value = .ref target) (request : StoreRequest) :
    (s.serve request).cell slot = .ok c := by
  cases request with
  | bind other aim binding => exact StoreM.cell_bind_of_const hc htag hvalue other aim binding
  | write other v =>
    by_cases href : ∃ aim, v = .ref aim
    · obtain ⟨aim, rfl⟩ := href
      exact StoreM.cell_bind_of_const hc htag hvalue other aim .mutable
    · exact StoreM.cell_writeValue_of_const hc htag (fun aim heq => href ⟨aim, heq⟩) other

/-- Any number of requests leaves a bound const reference as it is. -/
theorem cell_serveAll_of_const (hc : s.cell slot = .ok c) (htag : c.tag = Tag.const)
    (hvalue : c.value = .ref target) (requests : List StoreRequest) :
    (s.serveAll requests).cell slot = .ok c := by
  induction requests generalizing s with
  | nil => exact hc
  | cons request others ih => exact ih (cell_serve_of_const hc htag hvalue request)

/-- A write finds no place to land when the walk comes past a const slot: it is refused there, or at
another const slot in front of it, or the walk is too long. -/
theorem writableWithin_of_const {x y start : Slot} {k n : Nat} (hwalk : s.walk k x = some y)
    (hc : s.cell y = .ok c) (htag : c.tag = Tag.const) :
    s.writableWithin start n x = .error (.referenceCycle start.index) ∨
      ∃ z c, s.Meets x z ∧ s.cell z = .ok c ∧ c.tag = Tag.const ∧
        s.writableWithin start n x = .error (.constViolation z.index) := by
  induction n generalizing x k with
  | zero => exact .inl rfl
  | succ n ih =>
    cases k with
    | zero =>
      obtain rfl : x = y := by simpa [walk] using hwalk
      exact .inr ⟨x, c, ⟨0, rfl⟩, hc, htag, by simp [writableWithin, hc, htag]⟩
    | succ k =>
      obtain ⟨z, hz, hrest⟩ := Option.bind_eq_some_iff.mp hwalk
      obtain ⟨d, hd, href, hvalue⟩ := cell_of_next? hz
      by_cases hconst : d.tag = Tag.const
      · exact .inr ⟨x, d, ⟨0, rfl⟩, hd, hconst, by simp [writableWithin, hd, hconst]⟩
      · have hmutable : d.tag = Tag.ref := (Cell.isReference_iff.mp href).resolve_right hconst
        have hstep : s.writableWithin start (n + 1) x = s.writableWithin start n z := by
          rw [writableWithin, hd]
          dsimp only
          rw [if_neg hconst, if_pos hmutable, hvalue]
        rw [hstep]
        rcases ih hrest with hlong | ⟨w, e, ⟨j, hj⟩, he, hetag, hviolation⟩
        · exact .inl hlong
        · exact .inr ⟨w, e, ⟨j + 1, by simp [walk, hz, hj]⟩, he, hetag, hviolation⟩

/-- The cell of a bound const reference, with its tags and its target, stays as it is whatever is
asked of the store. And writing a value that is no reference through a slot whose walk comes past a
const slot is refused and changes nothing: the fault names a const slot on the walk, or says that
the walk is too long. -/
theorem const_protected (s : Store) :
    (∀ slot c target, s.cell slot = .ok c → c.tag = Tag.const → c.value = .ref target →
      ∀ requests, (s.serveAll requests).cell slot = .ok c) ∧
    ∀ slot const c v, s.Meets slot const → s.cell const = .ok c → c.tag = Tag.const →
      (∀ target, v ≠ .ref target) →
      StoreM.write slot v s = .error (.referenceCycle slot.index) s ∨
        ∃ z c, s.Meets slot z ∧ s.cell z = .ok c ∧ c.tag = Tag.const ∧
          StoreM.write slot v s = .error (.constViolation z.index) s := by
  constructor
  · intro slot c target hc htag hvalue requests
    exact cell_serveAll_of_const hc htag hvalue requests
  · rintro slot const c v ⟨k, hwalk⟩ hc htag hv
    rw [StoreM.write_eq_writeValue hv]
    rcases writableWithin_of_const hwalk hc htag with hlong | ⟨z, d, hz, hd, hdtag, hviolation⟩
    · exact .inl (StoreM.ask_bind_of_error hlong)
    · exact .inr ⟨z, d, hz, hd, hdtag, StoreM.ask_bind_of_error hviolation⟩

/-- A long number, a const reference to it, a mutable reference to that one, and a free cell. -/
def guardedLong : Store :=
  ⟨#[⟨.module, #[⟨[Tag.long], true, .long 7⟩, ⟨[Tag.const, Tag.untyped], false, .ref ⟨0, 0⟩⟩,
    ⟨[Tag.ref, Tag.untyped], false, .ref ⟨0, 1⟩⟩, Cell.free]⟩], #[], 16⟩

/-- The const reference survives attempts to bind it anew and to write to it, also those made through
the mutable reference after that one was bound elsewhere and back; and a write through the mutable
reference is refused. -/
theorem const_guardedLong :
    (guardedLong.serveAll [.bind ⟨0, 1⟩ ⟨0, 3⟩ .const, .write ⟨0, 1⟩ (.ref ⟨0, 3⟩),
      .bind ⟨0, 2⟩ ⟨0, 3⟩ .mutable, .write ⟨0, 2⟩ (.long 9), .bind ⟨0, 2⟩ ⟨0, 1⟩ .mutable,
      .write ⟨0, 2⟩ (.long 9)]).cell ⟨0, 1⟩ =
        .ok ⟨[Tag.const, Tag.untyped], false, .ref ⟨0, 0⟩⟩ ∧
    ∃ e, StoreM.write ⟨0, 2⟩ (.long 9) guardedLong = .error e guardedLong := by
  obtain ⟨hkept, hrefused⟩ := const_protected guardedLong
  refine ⟨hkept ⟨0, 1⟩ _ ⟨0, 0⟩ rfl rfl rfl _, ?_⟩
  rcases hrefused ⟨0, 2⟩ ⟨0, 1⟩ _ (.long 9) ⟨1, rfl⟩ rfl rfl (by simp) with
    hlong | ⟨z, c, -, -, -, hviolation⟩
  · exact ⟨_, hlong⟩
  · exact ⟨_, hviolation⟩

end Store

end SlotMachine
