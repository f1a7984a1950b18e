import SlotMachine.Proofs.Action

/-!
# Disciplined actions

A discipline is a property that every state is to have, together with a relation by which every
state is to follow from the ones before it. An action obeys the discipline from a state when it does
so whether it succeeds or fails; what it promises of its result holds on success. The rules of this
file take a sequence of actions apart, so that later files state one rule for each action.
-/

namespace SlotMachine

/-- A property to be kept, and how states may change. -/
structure Discipline (σ : Type) where
  /-- What every state satisfies. -/
  Sound : σ → Prop
  /-- How a later state follows from an earlier one. -/
  Evolves : σ → σ → Prop
  /-- Nothing has to change. -/
  refl : ∀ s, Evolves s s
  /-- Changes add up. -/
  trans : ∀ {s₁ s₂ s₃}, Evolves s₁ s₂ → Evolves s₂ s₃ → Evolves s₁ s₃

namespace Discipline

variable {ε σ α β : Type} {d : Discipline σ} {x : EStateM ε σ α} {f : α → EStateM ε σ β}
  {s s₁ : σ} {P : α → σ → Prop} {Q : β → σ → Prop}

/-- The action ends in a sound state that follows from its first one, and on success the promise
holds of the result and the last state. -/
def Keeps (d : Discipline σ) (x : EStateM ε σ α) (s : σ) (P : α → σ → Prop) : Prop :=
  match x s with
  | .ok a s' => d.Sound s' ∧ d.Evolves s s' ∧ P a s'
  | .error _ s' => d.Sound s' ∧ d.Evolves s s'

/-- A successful action keeps the discipline if its last state does. -/
theorem keeps_of_ok {a : α} {s' : σ} (h : x s = .ok a s') (hs' : d.Sound s')
    (hev : d.Evolves s s') (hP : P a s') : d.Keeps x s P := by
  rw [Keeps, h]
  exact ⟨hs', hev, hP⟩

/-- A failed action keeps the discipline if its last state does. -/
theorem keeps_of_error {e : ε} {s' : σ} (h : x s = .error e s') (hs' : d.Sound s')
    (hev : d.Evolves s s') : d.Keeps x s P := by
  rw [Keeps, h]
  exact ⟨hs', hev⟩

/-- Whatever an action does, its last state is sound and follows from the first. -/
theorem Keeps.last (h : d.Keeps x s P) {s' : σ}
    (hx : (∃ a, x s = .ok a s') ∨ ∃ e, x s = .error e s') : d.Sound s' ∧ d.Evolves s s' := by
  unfold Keeps at h
  rcases hx with ⟨a, ha⟩ | ⟨e, he⟩
  · rw [ha] at h
    exact ⟨h.1, h.2.1⟩
  · rw [he] at h
    exact h

/-- What a successful action promises holds. -/
theorem Keeps.promised (h : d.Keeps x s P) {a : α} {s' : σ} (hx : x s = .ok a s') :
    d.Sound s' ∧ d.Evolves s s' ∧ P a s' := by
  rw [Keeps, hx] at h
  exact h

/-- What all later states have is there when the action ends, well or not. -/
theorem Keeps.ends {I : σ → Prop} (h : d.Keeps x s P) (hI : ∀ s', d.Evolves s s' → I s') :
    Action.Ends x s (fun a s' => P a s' ∧ I s') fun _ s' => I s' := by
  cases hx : x s with
  | ok a s' =>
    obtain ⟨-, hev, hP⟩ := h.promised hx
    exact Action.ends_of_ok hx ⟨hP, hI s' hev⟩
  | error e s' => exact Action.ends_of_error hx (hI s' (h.last (.inr ⟨e, hx⟩)).2)

/-- A promise may be weakened. -/
theorem Keeps.mono {P' : α → σ → Prop} (h : d.Keeps x s P)
    (himp : ∀ a s', d.Sound s' → d.Evolves s s' → P a s' → P' a s') : d.Keeps x s P' := by
  unfold Keeps at h ⊢
  cases hx : x s with
  | ok a s' =>
    rw [hx] at h
    exact ⟨h.1, h.2.1, himp a s' h.1 h.2.1 h.2.2⟩
  | error e s' =>
    rw [hx] at h
    exact h

/-- A sequence of two actions: the second starts where the first ended. -/
theorem Keeps.bind (hx : d.Keeps x s P)
    (hf : ∀ a s', d.Sound s' → d.Evolves s s' → P a s' → d.Keeps (f a) s' Q) :
    d.Keeps (x >>= f) s Q := by
  unfold Keeps at hx ⊢
  cases hxs : x s with
  | error e s' =>
    rw [hxs] at hx
    rw [Action.bind_of_error hxs]
    exact hx
  | ok a s' =>
    rw [hxs] at hx
    have hnext := hf a s' hx.1 hx.2.1 hx.2.2
    rw [Action.bind_of_ok hxs]
    unfold Keeps at hnext
    cases hfs : f a s' with
    | ok b s'' =>
      rw [hfs] at hnext
      exact ⟨hnext.1, d.trans hx.2.1 hnext.2.1, hnext.2.2⟩
    | error e s'' =>
      rw [hfs] at hnext
      exact ⟨hnext.1, d.trans hx.2.1 hnext.2⟩

/-- An action that begins with changes already known to be disciplined. -/
theorem Keeps.of_eq {y : EStateM ε σ α} (heq : y s = x s₁) (hev : d.Evolves s s₁)
    (hx : d.Keeps x s₁ P) : d.Keeps y s P := by
  unfold Keeps at hx ⊢
  rw [heq]
  cases hxs : x s₁ with
  | ok a s' =>
    rw [hxs] at hx
    exact ⟨hx.1, d.trans hev hx.2.1, hx.2.2⟩
  | error e s' =>
    rw [hxs] at hx
    exact ⟨hx.1, d.trans hev hx.2⟩

/-- Returning a value changes nothing. -/
theorem keeps_pure {a : α} (hs : d.Sound s) (hP : P a s) :
    d.Keeps (pure a : EStateM ε σ α) s P :=
  keeps_of_ok rfl hs (d.refl s) hP

/-- Failing changes nothing. -/
theorem keeps_throw {e : ε} (hs : d.Sound s) : d.Keeps (throw e : EStateM ε σ α) s P :=
  keeps_of_error rfl hs (d.refl s)

/-- Looking at the state changes nothing. -/
theorem keeps_get_bind {f : σ → EStateM ε σ β} (hf : d.Keeps (f s) s Q) :
    d.Keeps (get >>= f) s Q :=
  Keeps.of_eq rfl (d.refl s) hf

/-- Giving another reason for a failure changes nothing else. -/
theorem Keeps.adaptExcept {ε' : Type} (h : d.Keeps x s P) (reason : ε → ε') :
    d.Keeps (x.adaptExcept reason) s P := by
  unfold Keeps at h ⊢
  unfold EStateM.adaptExcept
  cases hx : x s with
  | ok a s' =>
    rw [hx] at h
    exact h
  | error e s' =>
    rw [hx] at h
    exact h

/-- A change of the state that cannot fail. -/
theorem keeps_modify {change : σ → σ} {P : Unit → σ → Prop} (hs : d.Sound (change s))
    (hev : d.Evolves s (change s)) (hP : P () (change s)) :
    d.Keeps (modify change : EStateM ε σ Unit) s P :=
  keeps_of_ok rfl hs hev hP

end Discipline

end SlotMachine
