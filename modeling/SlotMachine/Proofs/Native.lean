import SlotMachine.Native
import SlotMachine.Proofs.Store.Access
import Mathlib.Tactic.Common

/-!
# Sound native functions

A native function reads the store, writes to the sink, and writes its result to the return slot. The
standard functions keep a store sound whatever slots of a program they are called with.
-/

namespace SlotMachine

open Discipline

/-- The discipline of native functions is that of their store. -/
def World.discipline (known : String → Prop) : Discipline World where
  Sound w := w.store.Sound known
  Evolves w w' := w.store.Evolves w'.store
  refl w := Store.Evolves.refl w.store
  trans := Store.Evolves.trans

namespace WorldM

variable {w : World} {known : String → Prop} {α β : Type}

/-- An action on the store, as an action of a native function. -/
theorem keeps_onStore {action : StoreM α} {P : α → Store → Prop}
    (h : (Store.discipline known).Keeps action w.store P) :
    (World.discipline known).Keeps (onStore action) w fun a w' => P a w'.store := by
  obtain ⟨store, sink⟩ := w
  unfold Keeps at h ⊢
  unfold onStore
  dsimp only at h ⊢
  cases haction : action store with
  | ok a store' =>
    rw [haction] at h
    exact h
  | error e store' =>
    rw [haction] at h
    exact h

/-- Asking a question about the store changes nothing. -/
theorem keeps_ask_bind {question : Store → Except Fault α} {f : α → WorldM β}
    {Q : β → World → Prop} (hw : w.store.Sound known)
    (hf : ∀ a, question w.store = .ok a → (World.discipline known).Keeps (f a) w Q) :
    (World.discipline known).Keeps (ask question >>= f) w Q := by
  obtain ⟨store, sink⟩ := w
  cases hq : question store with
  | error e =>
    have hask : ask question ⟨store, sink⟩ = .error e ⟨store, sink⟩ := by
      simp [ask, onStore, StoreM.ask, hq]
    exact keeps_of_error (Action.bind_of_error hask) hw (Store.Evolves.refl store)
  | ok a =>
    have hask : ask question ⟨store, sink⟩ = .ok a ⟨store, sink⟩ := by
      simp [ask, onStore, StoreM.ask, hq]
    exact Keeps.of_eq (Action.bind_of_ok hask) (Store.Evolves.refl store) (hf a hq)

/-- Printing leaves the store alone. -/
theorem keeps_write (hw : w.store.Sound known) (text : String) :
    (World.discipline known).Keeps (write text) w fun _ w' => w'.store = w.store := by
  obtain ⟨store, written, writeRefusal, flushRefusal⟩ := w
  have hev := Store.Evolves.refl store
  unfold Keeps write
  dsimp only
  cases (if text.isEmpty then none else writeRefusal) with
  | some reason => exact ⟨hw, hev⟩
  | none =>
    dsimp only
    cases Sink.flush ⟨written ++ text, writeRefusal, flushRefusal⟩ with
    | ok _ => exact ⟨hw, hev, rfl⟩
    | error e => exact ⟨hw, hev⟩

end WorldM

namespace Native

open WorldM

variable {w : World} {known : String → Prop} {result : Slot}

/-- Storing a number as the result of a native function. -/
theorem keeps_result {v : Value} (hw : w.store.Sound known) (hresult : w.store.Exposed result)
    (hv : v.isNumeric = true) :
    (World.discipline known).Keeps (onStore (StoreM.write result v)) w fun _ _ => True :=
  keeps_onStore (StoreM.keeps_write hw hresult (Store.vouches_of_isNumeric hv))

/-- Printing a value. -/
theorem keeps_print (hw : w.store.Sound known) (hresult : w.store.Exposed result)
    (argument : Slot) :
    (World.discipline known).Keeps (print result argument) w fun _ _ => True := by
  unfold print
  refine keeps_ask_bind hw fun v _ => ?_
  refine keeps_ask_bind hw fun text _ => ?_
  refine (keeps_write hw text).bind fun _ w' hw' _ hstore => ?_
  exact keeps_result hw' (by rw [hstore]; exact hresult) rfl

/-- Printing elements leaves the store alone. -/
theorem keeps_printElements {a : ArrayHandle} {count index written : Nat}
    (hw : w.store.Sound known) :
    (World.discipline known).Keeps (printElements a count index written) w
      fun _ w' => w'.store = w.store := by
  induction count generalizing w index written with
  | zero => exact keeps_pure hw rfl
  | succ count ih =>
    unfold printElements
    refine keeps_ask_bind hw fun element _ => ?_
    split
    · exact keeps_pure hw rfl
    · refine keeps_ask_bind hw fun v _ => ?_
      split
      · exact ih hw
      · refine keeps_ask_bind hw fun text _ => ?_
        refine (keeps_write hw text).bind fun _ w' hw' _ hstore => ?_
        exact (ih hw').mono fun _ w'' _ _ hstore' => hstore'.trans hstore

/-- Printing an array. -/
theorem keeps_printAll (hw : w.store.Sound known) (hresult : w.store.Exposed result)
    (argument : Slot) :
    (World.discipline known).Keeps (printAll result argument) w fun _ _ => True := by
  unfold printAll
  refine keeps_ask_bind hw fun a _ => ?_
  refine keeps_ask_bind hw fun len _ => ?_
  refine keeps_ask_bind hw fun count _ => ?_
  refine (keeps_printElements hw).bind fun written w' hw' _ hstore => ?_
  exact keeps_result hw' (by rw [hstore]; exact hresult) rfl

/-- The absolute value is a number. -/
theorem isNumeric_of_absValue {v magnitude : Value} (h : absValue v = .ok magnitude) :
    magnitude.isNumeric = true := by
  cases v <;> simp only [absValue] at h
  case byte n => split at h <;> cases h <;> rfl
  case long n => split at h <;> cases h <;> rfl
  all_goals cases h <;> rfl

/-- Storing an absolute value. -/
theorem keeps_abs (hw : w.store.Sound known) (hresult : w.store.Exposed result)
    (argument : Slot) :
    (World.discipline known).Keeps (abs result argument) w fun _ _ => True := by
  unfold abs
  refine keeps_ask_bind hw fun v _ => ?_
  refine keeps_ask_bind hw fun magnitude hmagnitude => ?_
  exact keeps_result hw hresult (isNumeric_of_absValue hmagnitude)

/-- A native function of one argument is sound if it is sound for each return slot. -/
theorem keeps_unary {f : Slot → Slot → WorldM Unit}
    (hf : ∀ {result argument : Slot}, w.store.Exposed result →
      (World.discipline known).Keeps (f result argument) w fun _ _ => True)
    (hw : w.store.Sound known) {slots : List Slot} (hslots : ∀ slot ∈ slots, w.store.Exposed slot)
    (depth : Nat) :
    (World.discipline known).Keeps ((unary f).run depth slots) w fun _ _ => True := by
  unfold unary
  dsimp only
  split
  · exact hf (hslots _ List.mem_cons_self)
  · exact keeps_pure hw trivial

/-- Every standard native function keeps a store sound. -/
theorem keeps_standard {name : String} {native : Native}
    (hnative : NativeTable.standard.find? name = some native) (hw : w.store.Sound known)
    {slots : List Slot} (hslots : ∀ slot ∈ slots, w.store.Exposed slot) (depth : Nat) :
    (World.discipline known).Keeps (native.run depth slots) w fun _ _ => True := by
  unfold NativeTable.find? NativeTable.standard at hnative
  simp only [List.lookup_cons] at hnative
  split at hnative
  · cases hnative
    exact keeps_unary (fun h => keeps_print hw h _) hw hslots depth
  · split at hnative
    · cases hnative
      exact keeps_unary (fun h => keeps_printAll hw h _) hw hslots depth
    · split at hnative
      · cases hnative
        exact keeps_unary (fun h => keeps_abs hw h _) hw hslots depth
      · cases hnative

end Native

end SlotMachine
