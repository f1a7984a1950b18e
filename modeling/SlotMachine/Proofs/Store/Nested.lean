import SlotMachine.Proofs.Image.Legible
import SlotMachine.Proofs.Store.Referring
import Mathlib.Data.List.TakeWhile

/-!
# References to references

A slot may be declared as a reference to a reference, to any depth. When it is bound, the first tag of
its declared referent is compared with the tag of the cell at which the walk from the target ends, and
that cell is never a reference. So a slot that is declared as a reference to a plain type takes every
target of that type, but one that is declared as a reference to a reference takes no target of its
type, unless an untyped cell stands at the end of the walk.
-/

namespace SlotMachine

/-- The type at the end of references of a type: what is left without the leading reference tags. -/
def Tag.referent (tags : List Tag) : List Tag :=
  tags.dropWhile Tag.isReference

/-- At the end of references there is no reference. -/
theorem Tag.not_isReference_referent (tags : List Tag) :
    (Cell.outer (Tag.referent tags)).isReference = false := by
  have hhead := List.head?_dropWhile_not Tag.isReference tags
  unfold Tag.referent Cell.outer
  cases hrest : tags.dropWhile Tag.isReference with
  | nil => rfl
  | cons t rest =>
    rw [hrest] at hhead
    simpa using hhead

/-- A type that is no reference is its own end. -/
theorem Tag.referent_of_plain {tags : List Tag} (h : (Cell.outer tags).isReference = false) :
    Tag.referent tags = tags := by
  cases tags with
  | nil => rfl
  | cons t rest =>
    have ht : t.isReference = false := h
    rw [Tag.referent, List.dropWhile_cons_of_neg (by simp [ht])]

namespace StoreM

open Store

variable {s s' : Store} {slot target referent : Slot} {c r : Cell} {inner : List Tag}

/-- A reference that is declared to refer to a reference takes only an untyped cell at the end of the
walk, where no reference stands. -/
theorem checkReferent_of_reference {declared got : Tag} (hdeclared : declared.isReference = true)
    (hgot : got.isReference = false) :
    checkReferent declared got =
      if got = Tag.untyped then .ok () else .error (.referenceTypeMismatch declared got) := by
  have huntyped : declared ≠ Tag.untyped := by
    rintro rfl
    cases hdeclared
  have hdiffer : declared ≠ got := by
    rintro rfl
    rw [hgot] at hdeclared
    cases hdeclared
  simp only [checkReferent, huntyped, hdiffer, false_or, or_false]

/-- Binding a slot that is declared as a mutable reference comes down to comparing the first tag of
its referent with the tag at the end of the walk. -/
theorem bindRef_of_declared (hslot : s.cell slot = .ok c) (htags : c.tags = Tag.ref :: inner)
    (hne : slot ≠ target) (horigin : s.origin target = .ok referent) (hother : referent ≠ slot)
    (hreferent : s.cell referent = .ok r) :
    bindRef slot target s =
      match checkReferent (Cell.outer inner) r.tag with
      | .ok _ => .ok () (s.setCell slot ⟨c.tags, c.fixed, .ref target⟩)
      | .error e => .error e s := by
  have hbound : boundTags slot c .mutable r.tag =
      (checkReferent (Cell.outer inner) r.tag).map fun _ => c.tags := by
    have htag : c.tag = Tag.ref := by rw [Cell.tag, htags]; rfl
    have hinner : c.innerTags = inner := by rw [Cell.innerTags, htags]; rfl
    have href : c.isReference = true := by rw [Cell.isReference, htag]; rfl
    have hmutable : c.tag ≠ Tag.const := by rw [htag]; decide
    rw [boundTags, if_neg fun h => hmutable h.1, if_pos href, hinner]
  unfold bindRef bind
  rw [if_neg hne]
  dsimp only
  rw [ask_bind_of_ok horigin, if_neg hother, ask_bind_of_ok hreferent, ask_bind_of_ok hslot]
  cases hcheck : checkReferent (Cell.outer inner) r.tag with
  | error e =>
    rw [hcheck] at hbound
    rw [ask_bind_of_error hbound]
  | ok _ =>
    rw [hcheck] at hbound
    rw [ask_bind_of_ok hbound]
    exact replace_eq_ok_iff.mpr ⟨⟨c, hslot⟩, rfl⟩

/-- A slot that is declared as a mutable reference to a reference is bound only where an untyped cell
stands at the end of the walk. -/
theorem untyped_of_bindRef (hslot : s.cell slot = .ok c) (htags : c.tags = Tag.ref :: inner)
    (hinner : (Cell.outer inner).isReference = true) (h : bindRef slot target s = .ok () s') :
    ∃ referent r, s.origin target = .ok referent ∧ s.cell referent = .ok r ∧
      r.tag = Tag.untyped := by
  obtain ⟨hne, referent, r, -, -, horigin, hother, hreferent, -⟩ := bind_eq_ok_iff.mp h
  obtain ⟨-, -, -, r', hr', hplain⟩ := walk_of_origin horigin
  cases hreferent.symm.trans hr'
  have hbind := bindRef_of_declared hslot htags hne horigin hother hreferent
  rw [h] at hbind
  refine ⟨referent, r, horigin, hreferent, ?_⟩
  by_contra htyped
  rw [checkReferent_of_reference hinner hplain, if_neg htyped] at hbind
  cases hbind

/-- Let a slot be declared as a mutable reference, and let another slot lead to a cell whose type is
the declared referent without its leading reference tags. Then the binding is accepted, and only the
value of the slot changes, if the referent is declared as no reference or the cell is untyped.
Otherwise the binding is refused as one of another type, and no other slot is accepted either unless
an untyped cell stands at the end of its walk. -/
theorem bindRef_to_declared_type (hslot : s.cell slot = .ok c) (htags : c.tags = Tag.ref :: inner)
    (hne : slot ≠ target) (horigin : s.origin target = .ok referent) (hother : referent ≠ slot)
    (hreferent : s.cell referent = .ok r) (hrtags : r.tags = Tag.referent inner) :
    ((Cell.outer inner).isReference = false ∨ r.tag = Tag.untyped →
      bindRef slot target s = .ok () (s.setCell slot ⟨c.tags, c.fixed, .ref target⟩)) ∧
    ((Cell.outer inner).isReference = true → r.tag ≠ Tag.untyped →
      bindRef slot target s = .error (.referenceTypeMismatch (Cell.outer inner) r.tag) s) ∧
    ((Cell.outer inner).isReference = true → ∀ other s', bindRef slot other s = .ok () s' →
      ∃ referent r, s.origin other = .ok referent ∧ s.cell referent = .ok r ∧
        r.tag = Tag.untyped) := by
  have hbind := bindRef_of_declared hslot htags hne horigin hother hreferent
  have hrtag : r.tag = Cell.outer (Tag.referent inner) := by rw [Cell.tag, hrtags]
  refine ⟨fun haccept => ?_, fun hinner htyped => ?_, fun hinner other s' h => ?_⟩
  · have hfits : Cell.outer inner = Tag.untyped ∨ r.tag = Tag.untyped ∨
        Cell.outer inner = r.tag := by
      rcases haccept with hplain | huntyped
      · exact .inr (.inr (by rw [hrtag, Tag.referent_of_plain hplain]))
      · exact .inr (.inl huntyped)
    rw [hbind, checkReferent, if_pos hfits]
  · have hplain : r.tag.isReference = false := by
      rw [hrtag]
      exact Tag.not_isReference_referent inner
    rw [hbind, checkReferent_of_reference hinner hplain, if_neg htyped]
  · exact untyped_of_bindRef hslot htags hinner h

/-- Cells that are declared as references of several depths and not bound: to a byte, to a const
reference to a byte, and to a const reference to anything. For each there is a cell of the type that
it refers to. -/
def referring : Store :=
  ⟨#[⟨.module, #[Cell.declared [Tag.ref, Tag.byte], Cell.declared [Tag.byte],
    Cell.declared [Tag.ref, Tag.const, Tag.byte], ⟨[Tag.const, Tag.byte], true, .ref ⟨0, 1⟩⟩,
    Cell.declared [Tag.ref, Tag.const, Tag.untyped],
    ⟨[Tag.const, Tag.untyped], false, .ref ⟨0, 6⟩⟩, Cell.free]⟩], #[], 16⟩

/-- The reference to a byte and the one to a const reference to anything are bound to the cells of
their types; the one to a const reference to a byte is not. -/
theorem bindRef_referring :
    (∃ s', bindRef ⟨0, 0⟩ ⟨0, 1⟩ referring = .ok () s') ∧
    (∃ s', bindRef ⟨0, 4⟩ ⟨0, 5⟩ referring = .ok () s') ∧
    bindRef ⟨0, 2⟩ ⟨0, 3⟩ referring =
      .error (.referenceTypeMismatch Tag.const Tag.byte) referring := by
  obtain ⟨hplain, -, -⟩ := bindRef_to_declared_type
    (s := referring) (c := Cell.declared [Tag.ref, Tag.byte]) rfl rfl
    (by decide : (⟨0, 0⟩ : Slot) ≠ ⟨0, 1⟩) rfl (by decide : (⟨0, 1⟩ : Slot) ≠ ⟨0, 0⟩) rfl rfl
  obtain ⟨huntyped, -, -⟩ := bindRef_to_declared_type
    (s := referring) (c := Cell.declared [Tag.ref, Tag.const, Tag.untyped]) rfl rfl
    (by decide : (⟨0, 4⟩ : Slot) ≠ ⟨0, 5⟩) rfl (by decide : (⟨0, 6⟩ : Slot) ≠ ⟨0, 4⟩) rfl rfl
  obtain ⟨-, hrefused, -⟩ := bindRef_to_declared_type
    (s := referring) (c := Cell.declared [Tag.ref, Tag.const, Tag.byte]) rfl rfl
    (by decide : (⟨0, 2⟩ : Slot) ≠ ⟨0, 3⟩) rfl (by decide : (⟨0, 1⟩ : Slot) ≠ ⟨0, 2⟩) rfl rfl
  exact ⟨⟨_, hplain (.inl rfl)⟩, ⟨_, huntyped (.inr rfl)⟩, hrefused rfl (by decide)⟩

/-- A slot that is declared as a reference to a const reference to a byte refuses a cell that is
declared as a const reference to a byte and leads to a byte without coming past the slot. -/
theorem bindRef_constByte_refused :
    Tag.IsComplete [Tag.const, Tag.byte] ∧
    referring.cell ⟨0, 2⟩ = .ok (Cell.declared (Tag.ref :: [Tag.const, Tag.byte])) ∧
    (∃ c, referring.cell ⟨0, 3⟩ = .ok c ∧ c.fixed = true ∧ c.tags = [Tag.const, Tag.byte]) ∧
    referring.origin ⟨0, 3⟩ = .ok ⟨0, 1⟩ ∧ ¬ referring.Meets ⟨0, 3⟩ ⟨0, 2⟩ ∧
    (∃ c, referring.cell ⟨0, 1⟩ = .ok c ∧ c.tags = Tag.referent [Tag.const, Tag.byte]) ∧
    ∀ s', bindRef ⟨0, 2⟩ ⟨0, 3⟩ referring ≠ .ok () s' := by
  refine ⟨⟨[Tag.const], Tag.byte, rfl, by simp, by simp⟩, rfl, ⟨_, rfl, rfl, rfl⟩, rfl, ?_,
    ⟨_, rfl, rfl⟩, ?_⟩
  · intro hmeets
    have hfirst : referring.next? ⟨0, 3⟩ = some ⟨0, 1⟩ := rfl
    have hlast : referring.next? ⟨0, 1⟩ = none := rfl
    rcases eq_or_meets hfirst hmeets with heq | hrest
    · cases heq
    · cases eq_of_meets hlast hrest
  · intro s' h
    obtain ⟨referent, r, horigin, hreferent, huntyped⟩ := untyped_of_bindRef
      (c := Cell.declared [Tag.ref, Tag.const, Tag.byte]) rfl rfl rfl h
    obtain rfl : (⟨0, 1⟩ : Slot) = referent := Except.ok.inj horigin
    obtain rfl : Cell.declared [Tag.byte] = r := Except.ok.inj hreferent
    exact absurd huntyped (by decide)

end StoreM

end SlotMachine
