import Mathlib.Tactic.Common

/-!
# Actions with a state and faults

Readers, stores, linkers and machines are all run by actions that carry a state through success and
failure alike. This file opens sequences of such actions once for all of them, and says how to
follow one through its parts to where it ends.
-/

namespace SlotMachine.Action

variable {ε ε' σ α β : Type}

/-- A sequence of two actions succeeds exactly if the first succeeds and the second succeeds from
there. -/
theorem bind_eq_ok_iff {x : EStateM ε σ α} {f : α → EStateM ε σ β} {s s' : σ} {b : β} :
    (x >>= f) s = .ok b s' ↔ ∃ a s₁, x s = .ok a s₁ ∧ f a s₁ = .ok b s' := by
  change EStateM.bind x f s = _ ↔ _
  unfold EStateM.bind
  cases hx : x s with
  | ok a s₁ => simp
  | error e s₁ => simp

/-- What follows a successful action starts from where it ended. -/
theorem bind_of_ok {x : EStateM ε σ α} {f : α → EStateM ε σ β} {s s₁ : σ} {a : α}
    (h : x s = .ok a s₁) : (x >>= f) s = f a s₁ := by
  change EStateM.bind x f s = _
  rw [EStateM.bind, h]

/-- What follows a failed action is not run. -/
theorem bind_of_error {x : EStateM ε σ α} {f : α → EStateM ε σ β} {s s₁ : σ} {e : ε}
    (h : x s = .error e s₁) : (x >>= f) s = .error e s₁ := by
  change EStateM.bind x f s = _
  rw [EStateM.bind, h]

/-- What follows an action depends only on how the action ends. -/
theorem bind_congr {x y : EStateM ε σ α} {f : α → EStateM ε σ β} {s : σ} (h : x s = y s) :
    (x >>= f) s = (y >>= f) s := by
  change EStateM.bind x f s = EStateM.bind y f s
  rw [EStateM.bind, EStateM.bind, h]

/-- An action that only returns a value. -/
theorem pure_eq_ok_iff {a b : α} {s s' : σ} :
    (pure a : EStateM ε σ α) s = .ok b s' ↔ a = b ∧ s = s' := by
  change EStateM.Result.ok a s = .ok b s' ↔ _
  simp

/-- What follows a look at the state starts from that state. -/
theorem get_bind (f : σ → EStateM ε σ β) (s : σ) : (get >>= f) s = f s s := rfl

/-- An action whose result is not wanted. -/
theorem discard_eq (x : EStateM ε σ α) (s : σ) :
    (discard x : EStateM ε σ PUnit) s =
      match x s with
      | .ok _ s' => .ok ⟨⟩ s'
      | .error e s' => .error e s' := by
  change (x >>= fun _ => pure PUnit.unit) s = _
  cases hx : x s with
  | ok a s' => rw [bind_of_ok hx]; rfl
  | error e s' => rw [bind_of_error hx]

/-- Such an action fails only if the action itself does. -/
theorem error_of_discard {x : EStateM ε σ α} {s s' : σ} {e : ε}
    (h : (discard x : EStateM ε σ PUnit) s = .error e s') : x s = .error e s' := by
  rw [discard_eq] at h
  cases hx : x s with
  | ok a s₁ => simp [hx] at h
  | error e₁ s₁ =>
    rw [hx] at h
    cases h
    rfl

/-- Run from a state, the action ends well with a result and a state of the first kind, or it fails
with a fault and a state of the second kind. -/
def Ends (x : EStateM ε σ α) (s : σ) (P : α → σ → Prop) (E : ε → σ → Prop) : Prop :=
  match x s with
  | .ok a s' => P a s'
  | .error e s' => E e s'

section Ends

variable {x : EStateM ε σ α} {f : α → EStateM ε σ β} {s s' : σ} {a : α} {e : ε}
  {P P' : α → σ → Prop} {Q : β → σ → Prop} {E : ε → σ → Prop} {E' : ε' → σ → Prop}

theorem Ends.of_ok (h : Ends x s P E) (hx : x s = .ok a s') : P a s' := by
  rw [Ends, hx] at h
  exact h

theorem Ends.of_error (h : Ends x s P E) (hx : x s = .error e s') : E e s' := by
  rw [Ends, hx] at h
  exact h

theorem ends_of_ok (hx : x s = .ok a s') (h : P a s') : Ends x s P E := by
  rw [Ends, hx]
  exact h

theorem ends_of_error (hx : x s = .error e s') (h : E e s') : Ends x s P E := by
  rw [Ends, hx]
  exact h

theorem ends_pure (h : P a s) : Ends (pure a) s P E :=
  ends_of_ok rfl h

theorem ends_throw (h : E e s) : Ends (throw e) s P E :=
  ends_of_error rfl h

theorem ends_modify {change : σ → σ} {P : Unit → σ → Prop} (h : P () (change s)) :
    Ends (modify change) s P E :=
  ends_of_ok rfl h

/-- What is known of the end of an action may be weakened. -/
theorem Ends.mono {F : ε → σ → Prop} (h : Ends x s P E) (hP : ∀ a s', P a s' → P' a s')
    (hE : ∀ e s', E e s' → F e s') : Ends x s P' F := by
  cases hx : x s with
  | ok a s' => exact ends_of_ok hx (hP a s' (h.of_ok hx))
  | error e s' => exact ends_of_error hx (hE e s' (h.of_error hx))

/-- The end of two actions, seen from where the first has ended well. -/
theorem ends_bind_of_ok (hx : x s = .ok a s') (h : Ends (f a) s' Q E) : Ends (x >>= f) s Q E := by
  rw [Ends, bind_of_ok hx]
  exact h

/-- The second of two actions starts where the first has ended well. -/
theorem Ends.bind (hx : Ends x s P E) (hf : ∀ a s', P a s' → Ends (f a) s' Q E) :
    Ends (x >>= f) s Q E := by
  cases hxs : x s with
  | ok a s₁ => exact ends_bind_of_ok hxs (hf a s₁ (hx.of_ok hxs))
  | error e s₁ => exact ends_of_error (bind_of_error hxs) (hx.of_error hxs)

/-- Looking at the state first. -/
theorem ends_get_bind {f : σ → EStateM ε σ β} (h : Ends (f s) s Q E) :
    Ends (get >>= f) s Q E := by
  rw [Ends, get_bind]
  exact h

/-- Another fault may take the place of the fault with which an action fails. -/
theorem Ends.adaptExcept (h : Ends x s P E) {change : ε → ε'}
    (hE : ∀ e s', E e s' → E' (change e) s') : Ends (x.adaptExcept change) s P E' := by
  unfold Ends EStateM.adaptExcept
  cases hx : x s with
  | ok a s' => exact h.of_ok hx
  | error e s' => exact hE e s' (h.of_error hx)

end Ends

/-- From states in which the invariant holds, the action leads to such states, and what is said of
faults holds of those with which it fails. -/
def Accounts (I : σ → Prop) (E : ε → σ → Prop) (x : EStateM ε σ α) : Prop :=
  ∀ s, I s → Ends x s (fun _ s' => I s') fun e s' => I s' ∧ E e s'

section Accounts

variable {I : σ → Prop} {E : ε → σ → Prop} {x : EStateM ε σ α} {f : α → EStateM ε σ β} {e : ε}

theorem accounts_pure (a : α) : Accounts I E (pure a) :=
  fun _ hs => ends_pure hs

theorem accounts_throw (he : ∀ s, E e s) : Accounts I E (throw e : EStateM ε σ α) :=
  fun s hs => ends_throw ⟨hs, he s⟩

/-- What is said of faults may be weakened. -/
theorem Accounts.mono {F : ε → σ → Prop} (hx : Accounts I E x) (hE : ∀ e s, E e s → F e s) :
    Accounts I F x :=
  fun s hs => (hx s hs).mono (fun _ _ h => h) fun e s' h => ⟨h.1, hE e s' h.2⟩

theorem Accounts.bind (hx : Accounts I E x) (hf : ∀ a, Accounts I E (f a)) :
    Accounts I E (x >>= f) :=
  fun s hs => (hx s hs).bind fun a s' hs' => hf a s' hs'

theorem accounts_get_bind {f : σ → EStateM ε σ β} (h : ∀ s, I s → Accounts I E (f s)) :
    Accounts I E (get >>= f) :=
  fun s hs => ends_get_bind (h s hs s hs)

theorem accounts_modify {change : σ → σ} (h : ∀ s, I s → I (change s)) :
    Accounts I E (modify change : EStateM ε σ Unit) :=
  fun s hs => ends_modify (h s hs)

end Accounts

end SlotMachine.Action
