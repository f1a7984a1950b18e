import SlotMachine.Proofs.Faults
import SlotMachine.Proofs.Image.Legible
import Mathlib.Tactic.Common

/-!
# Faults of reading a module

Reading the bytes of a module fails with load faults only, whichever part of it is being read.
-/

namespace SlotMachine

namespace Read

open SlotMachine.Action Fault

variable {α : Type} {item : Read α}

theorem raises_flawed (flaw : Flaw) : Raises Load (flawed flaw : Read α) := by
  rintro s e s' ⟨⟩
  rfl

theorem raises_byte : Raises Load byte := by
  intro s e s' h
  unfold byte at h
  split at h
  · exact raises_flawed _ s e s' h
  · cases h

theorem raises_take (count : Nat) : Raises Load (take count) := by
  intro s e s' h
  unfold take at h
  dsimp only at h
  split at h
  · cases h
  · exact raises_flawed _ s e s' h

theorem raises_word : Raises Load word := by
  intro s e s' h
  unfold word at h
  split at h
  · cases h
  · exact raises_flawed _ s e s' h

theorem raises_name : Raises Load name := by
  intro s e s' h
  unfold name at h
  dsimp only at h
  split at h
  · exact raises_flawed _ s e s' h
  · split at h
    · cases h
    · exact raises_flawed _ s e s' h

theorem raises_times (hitem : Raises Load item) (n : Nat) : Raises Load (times item n) := by
  induction n with
  | zero => exact raises_pure _
  | succ n ih => exact hitem.bind fun _ => ih.bind fun _ => raises_pure _

theorem raises_counted (hitem : Raises Load item) : Raises Load (counted item) :=
  raises_word.bind fun _ => raises_times hitem _

theorem raises_text : Raises Load text := by
  refine raises_word.bind fun _ => (raises_take _).bind fun raw => ?_
  dsimp only
  cases Text.ofUtf8? (if raw.getLast? = some 0 then raw.dropLast else raw) with
  | some s => exact raises_pure _
  | none => exact raises_flawed _

theorem raises_constant : Raises Load constant := by
  have hword : Raises Load fixedWord := (raises_take 8).bind fun _ => raises_pure _
  refine raises_byte.bind fun t => ?_
  repeat' split
  · exact raises_byte.bind fun _ => raises_pure _
  · exact hword.bind fun _ => raises_pure _
  · exact hword.bind fun _ => raises_pure _
  · exact hword.bind fun _ => raises_pure _
  · exact raises_text.bind fun _ => raises_pure _
  · exact raises_throw rfl

theorem raises_tags : Raises Load tags := by
  rintro ⟨position, rest⟩ e s' h
  unfold tags at h
  dsimp only at h
  induction rest generalizing position e s' with
  | nil =>
    cases h
    rfl
  | cons t rest ih =>
    unfold tagsFrom at h
    split at h
    · cases h
      rfl
    · split at h
      · cases htags : tagsFrom (position + 1) rest with
        | ok tags c => simp [htags] at h
        | error e₁ c =>
          simp only [htags] at h
          cases h
          exact ih _ _ _ htags
      · cases h

theorem raises_instruction : Raises Load instruction := by
  refine raises_byte.bind fun code => ?_
  split
  · exact raises_throw rfl
  · split
    · exact (raises_times raises_word _).bind fun _ => raises_pure _
    · exact (raises_times raises_word _).bind fun _ =>
        (raises_times raises_word _).bind fun _ => raises_pure _

theorem raises_functionRest (name : String) (variadic : Bool) :
    Raises Load (functionRest name variadic) := by
  have hcode : ∀ params : List UInt64, Raises Load (do
      let code ← counted instruction
      pure (⟨name, variadic, params, code.toArray⟩ : Function)) :=
    fun _ => (raises_counted raises_instruction).bind fun _ => raises_pure _
  refine (raises_counted raises_word).bind fun params => ?_
  dsimp only
  split
  · exact (raises_flawed _).bind fun _ => hcode params
  · exact hcode params

theorem raises_function : Raises Load function := by
  have hpeek : Raises Load peek := nofun
  rw [function_eq]
  refine raises_name.bind fun raw => hpeek.bind fun next => ?_
  split
  · exact raises_byte.bind fun _ => raises_functionRest _ _
  · exact raises_functionRest _ _

theorem raises_member : Raises Load member :=
  raises_name.bind fun _ => raises_tags.bind fun _ => raises_pure _

theorem raises_classDecl : Raises Load classDecl :=
  raises_name.bind fun _ => (raises_counted raises_member).bind fun _ =>
    (raises_counted raises_function).bind fun _ => raises_pure _

theorem raises_classes (n : Nat) : Raises Load (classes n) := by
  induction n with
  | zero => exact raises_pure _
  | succ n ih =>
    refine raises_get.bind fun c => ?_
    split
    · exact raises_pure _
    · exact raises_classDecl.bind fun _ => ih.bind fun _ => raises_pure _

theorem raises_header : Raises Load header := by
  have hversion : Raises Load (do
      let version ← take 4
      if version ≠ Image.version then throw (.unsupportedVersion version) : Read Unit) := by
    refine (raises_take 4).bind fun version => ?_
    split
    · exact raises_throw rfl
    · exact raises_pure _
  refine (raises_take 4).bind fun magic => ?_
  split
  · exact Raises.bind (raises_throw rfl) fun _ => hversion
  · exact hversion

theorem raises_image : Raises Load image :=
  raises_header.bind fun _ => (raises_counted raises_constant).bind fun _ =>
    (raises_counted raises_tags).bind fun _ => raises_get.bind fun _ =>
      (raises_classes _).bind fun _ => raises_pure _

end Read

/-- Bytes that denote no image are refused with a load fault. -/
theorem Image.raises_decode (bytes : List UInt8) : Answer.Raises Fault.Load (decode bytes) := by
  intro e h
  unfold decode at h
  split at h
  · cases h
  · rename_i hread
    cases h
    exact Read.raises_image _ _ _ hread

end SlotMachine
