import SlotMachine.Fault
import SlotMachine.Proofs.Action
import Mathlib.Tactic.Common

/-!
# Kinds of faults

Faults of loading have a cause outside the machine; faults of running are those of a program at
work; one fault is about an instruction as it is written down; and one is returned to nobody. This
file says what it means that an answer or an action fails with faults of one kind only, and how that
carries over from the parts of an action to the whole.
-/

namespace SlotMachine

/-- Whether the fault arises from running a program, be it that there is none. Of the other faults,
those of loading have a cause outside the machine, a machine does not step without a frame, an
instruction that lacks operands does so before it is run, and a crash is returned to nobody. -/
def Fault.isRunFault : Fault → Bool
  | badMagic _ | unsupportedVersion _ | malformed _ _ | unknownTag _ | unknownOpcode _ | io _ _
  | operandCount _ _ _ | stackUnderflow | settings _ | crash _ => false
  | _ => true

/-- A fault of running a program. -/
abbrev Fault.Run (e : Fault) : Prop := e.isRunFault = true

/-- What can go wrong while a program is at work: a fault of running it, or a crash. -/
abbrev Fault.AtWork (e : Fault) : Prop := e.Run ∨ e.isCrash = true

/-- A fault of getting at a module. -/
abbrev Fault.Load (e : Fault) : Prop := e.isLoadFault = true

/-- The answer is no fault, or one of this kind. -/
def Answer.Raises {ε α : Type} (P : ε → Prop) (answer : Except ε α) : Prop :=
  ∀ e, answer = .error e → P e

/-- From whatever state, the action does not fail, or with a fault of this kind. -/
def Action.Raises {ε σ α : Type} (P : ε → Prop) (x : EStateM ε σ α) : Prop :=
  ∀ s e s', x s = .error e s' → P e

namespace Answer

variable {ε α β : Type} {P : ε → Prop} {a : α} {e : ε} {x : Except ε α}

theorem raises_ok (a : α) : Raises P (.ok a) := nofun

theorem raises_error (h : P e) : Raises P (.error e : Except ε α) := by
  rintro e' ⟨⟩
  exact h

/-- Faults of a kind are faults of any wider kind. -/
theorem Raises.mono {Q : ε → Prop} (h : Raises P x) (hPQ : ∀ e, P e → Q e) : Raises Q x :=
  fun e hx => hPQ e (h e hx)

theorem Raises.map (h : Raises P x) (f : α → β) : Raises P (x.map f) := by
  cases x with
  | ok a => exact raises_ok _
  | error e => exact raises_error (h e rfl)

theorem Raises.bind {f : α → Except ε β} (h : Raises P x) (hf : ∀ a, Raises P (f a)) :
    Raises P (x.bind f) := by
  cases x with
  | ok a => exact hf a
  | error e => exact raises_error (h e rfl)

end Answer

namespace Action

variable {ε σ α β : Type} {P : ε → Prop} {x : EStateM ε σ α} {f : α → EStateM ε σ β}
  {e : ε}

theorem raises_pure (a : α) : Raises P (pure a : EStateM ε σ α) := nofun

theorem raises_get : Raises P (get : EStateM ε σ σ) := nofun

theorem raises_modify (change : σ → σ) : Raises P (modify change : EStateM ε σ Unit) := nofun

theorem raises_throw (h : P e) : Raises P (throw e : EStateM ε σ α) := by
  rintro s e' s' ⟨⟩
  exact h

/-- Faults of a kind are faults of any wider kind. -/
theorem Raises.mono {Q : ε → Prop} (h : Raises P x) (hPQ : ∀ e, P e → Q e) : Raises Q x :=
  fun s e s' hx => hPQ e (h s e s' hx)

/-- An action that fails with run faults only. -/
theorem Raises.atWork {x : EStateM Fault σ α} (h : Raises Fault.Run x) : Raises Fault.AtWork x :=
  h.mono fun _ => .inl

/-- A sequence of actions fails as one of them does. -/
theorem Raises.bind (hx : Raises P x) (hf : ∀ a, Raises P (f a)) : Raises P (x >>= f) := by
  intro s e s' h
  cases hxs : x s with
  | error e₁ s₁ =>
    rw [bind_of_error hxs] at h
    cases h
    exact hx s e s' hxs
  | ok a s₁ =>
    rw [bind_of_ok hxs] at h
    exact hf a s₁ e s' h

end Action

end SlotMachine
