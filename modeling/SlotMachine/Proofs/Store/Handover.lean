import SlotMachine.Proofs.Store.Passing
import SlotMachine.Proofs.Store.Writing
import Mathlib.Tactic.Common

/-!
# Handing arguments over

Binding one parameter changes its own cell and no other, because a parameter that is not an alias is
no reference once an undeclared one has been emptied. Parameters are bound one after the other, so
each actual is read in the store that the bindings before it have left. What an actual had before the
call is handed over if its walk comes past no parameter that was bound before.
-/

namespace SlotMachine

/-- What the cell of a parameter becomes when it is bound to a value: a declared cell stays as it is
when there is nothing to copy, and any other takes the value. -/
inductive Cell.Receives (c : Cell) (v : Value) : Cell → Prop where
  /-- There is nothing to copy. -/
  | kept : c.fixed = true → v = .nothing → c.Receives v c
  /-- The value is written. -/
  | taken {c' : Cell} : (c.fixed = true → v ≠ .nothing) → c.Takes v c' → c.Receives v c'

namespace Cell

variable {c c' : Cell} {v : Value}

/-- A cell that has forgotten what it held, unless it is declared. -/
def emptied (c : Cell) : Cell :=
  if c.fixed then c else free

/-- An emptied cell takes what the cell takes. -/
theorem Takes.of_emptied (h : c.emptied.Takes v c') : c.Takes v c' := by
  unfold emptied at h
  split at h
  · exact h
  · rename_i hfixed
    have hfree : c.fixed = false := by simpa using hfixed
    cases h with
    | undeclared _ => exact .undeclared hfree
    | declared hfixed' _ => cases hfixed'
    | converted hfixed' _ _ _ => cases hfixed'

/-- A declared cell is a parameter by value only if it is no reference; an undeclared one forgets
that it was one. -/
theorem isReference_emptied (halias : StoreM.aliasTags? c = none) :
    c.emptied.isReference = false := by
  unfold emptied
  split
  · rename_i hfixed
    unfold StoreM.aliasTags? at halias
    split at halias
    · rename_i t inner htags
      have htag : c.tag = t := by rw [tag, htags]; rfl
      split at halias
      · split at halias <;> cases halias
      · rename_i href
        split at halias
        · cases halias
        · rename_i hconst
          rw [isReference, htag]
          simp only [Tag.isReference, Bool.or_eq_false_iff, beq_eq_false_iff_ne]
          exact ⟨fun heq => href ⟨heq, hfixed⟩, hconst⟩
    · rename_i htags
      rw [isReference, tag, htags]
      rfl
  · rfl

/-- With nothing to copy, a parameter is left emptied. -/
theorem receives_emptied (c : Cell) : c.Receives .nothing c.emptied := by
  unfold emptied
  split
  · rename_i hfixed
    exact .kept hfixed rfl
  · rename_i hfixed
    exact .taken (fun h => absurd h hfixed) (.undeclared (by simpa using hfixed))

end Cell

namespace Store

variable {s s' s₁ : Store} {formal actual slot x y : Slot} {c c' : Cell} {v : Value}
  {pairs before after : List (Slot × Slot)}

/-- The store in which the cell at a slot has forgotten what it held, unless it is declared. -/
def emptied (s : Store) (slot : Slot) : Store :=
  match s.cell slot with
  | .ok c => if c.fixed then s else s.setCell slot Cell.free
  | .error _ => s

/-- One parameter was bound to the caller's slot. -/
inductive Handed (formal actual : Slot) (s : Store) : Store → Prop where
  /-- A parameter that is the caller's slot stays as it is. -/
  | same : formal = actual → Handed formal actual s s
  /-- A parameter declared as a reference becomes an alias of the caller's slot. -/
  | aliased {s' : Store} {c : Cell} {tags : List Tag} : formal ≠ actual → s.cell formal = .ok c →
      StoreM.aliasTags? c = some tags → s'.cell formal = .ok ⟨tags, true, .ref actual⟩ →
      s.DiffersOnlyAt s' formal → Handed formal actual s s'
  /-- Any other parameter is emptied, unless it is declared, and receives the value that the
  caller's slot then has. -/
  | copied {s' : Store} {c c' : Cell} {v : Value} : formal ≠ actual → s.cell formal = .ok c →
      StoreM.aliasTags? c = none → (s.emptied formal).value actual = .ok v → c.Receives v c' →
      s'.cell formal = .ok c' → c'.isReference = false → s.DiffersOnlyAt s' formal →
      Handed formal actual s s'

/-- Parameters were bound to the caller's slots, one after the other. -/
inductive HandedInOrder : List (Slot × Slot) → Store → Store → Prop where
  /-- No parameter is left. -/
  | nil {s : Store} : HandedInOrder [] s s
  /-- The first parameter is bound before the others. -/
  | cons {formal actual : Slot} {others : List (Slot × Slot)} {s s₁ s' : Store} :
      Handed formal actual s s₁ → HandedInOrder others s₁ s' →
      HandedInOrder ((formal, actual) :: others) s s'

/-- The slot holds a cell that is no reference. -/
def Plain (s : Store) (slot : Slot) : Prop :=
  ∃ c, s.cell slot = .ok c ∧ c.isReference = false

/-- The slot is a parameter that is bound to another slot of the caller. -/
def Rebound (pairs : List (Slot × Slot)) (slot : Slot) : Prop :=
  ∃ actual, (slot, actual) ∈ pairs ∧ slot ≠ actual

/-- What finds the same twice finds the same. -/
theorem SameRoad.trans (h : s.SameRoad s₁ x) (h' : s₁.SameRoad s' x) : s.SameRoad s' x := by
  rcases h with heq | ⟨c, c₁, hc, hc₁, hplain, hplain₁⟩
  · rcases h' with heq' | ⟨c₁, c', hc₁, hc', hplain₁, hplain'⟩
    · exact .inl (heq'.trans heq)
    · exact .inr ⟨c₁, c', heq.symm.trans hc₁, hc', hplain₁, hplain'⟩
  · rcases h' with heq' | ⟨_, c', _, hc', _, hplain'⟩
    · exact .inr ⟨c, c₁, hc, heq'.trans hc₁, hplain, hplain₁⟩
    · exact .inr ⟨c, c', hc, hc', hplain, hplain'⟩

/-- Where a walk finds the same, a cell that is no reference has not become one. -/
theorem SameRoad.plain (h : s.SameRoad s' x) (hplain : s.Plain x) : s'.Plain x := by
  rcases h with heq | ⟨c, c', hc, hc', hnoRef, hnoRef'⟩
  · obtain ⟨c, hc, hnoRef⟩ := hplain
    exact ⟨c, heq.trans hc, hnoRef⟩
  · exact ⟨c', hc', hnoRef'⟩

/-- A slot whose walk finds the same cells has the value it had, or none for the same reason. -/
theorem value_of_walk (h : ∀ y, s.Meets x y → s'.cell y = s.cell y) : s'.value x = s.value x := by
  have horigin : s'.origin x = s.origin x := origin_congr fun y hy => .inl (h y hy)
  exact value_congr horigin fun o ho => h o (meets_of_originWithin ho)

/-- Emptying a declared cell does nothing. -/
theorem emptied_of_fixed (hc : s.cell slot = .ok c) (hfixed : c.fixed = true) :
    s.emptied slot = s := by
  simp [emptied, hc, hfixed]

/-- Emptying an undeclared cell frees it. -/
theorem emptied_of_not_fixed (hc : s.cell slot = .ok c) (hfree : c.fixed = false) :
    s.emptied slot = s.setCell slot Cell.free := by
  simp [emptied, hc, hfree]

/-- Emptying a cell changes it and no other. -/
theorem cell_emptied (hc : s.cell slot = .ok c) :
    (s.emptied slot).cell slot = .ok c.emptied ∧ s.DiffersOnlyAt (s.emptied slot) slot := by
  cases hfixed : c.fixed with
  | true =>
    rw [emptied_of_fixed hc hfixed, Cell.emptied, if_pos hfixed]
    exact ⟨hc, DiffersOnlyAt.refl s slot⟩
  | false =>
    rw [emptied_of_not_fixed hc hfixed, Cell.emptied, if_neg (by simp [hfixed])]
    exact ⟨(cell_setCell hc _).trans (if_pos rfl), differsOnlyAt_setCell hc Cell.free⟩

/-- A write to a cell that is no reference lands there. -/
theorem writable_of_plain (hc : s.cell slot = .ok c) (hplain : c.isReference = false) :
    s.writable slot = .ok slot := by
  have hneither : c.tag ≠ Tag.const ∧ c.tag ≠ Tag.ref := by
    constructor <;> intro htag <;> simp [Cell.isReference, htag, Tag.isReference] at hplain
  change s.writableWithin slot (4095 + 1) slot = _
  rw [writableWithin, hc]
  dsimp only
  rw [if_neg hneither.1, if_neg hneither.2]

end Store

namespace StoreM

open Store

variable {s s' : Store} {formal actual slot : Slot} {pairs : List (Slot × Slot)} {c : Cell}

/-- Forgetting what an undeclared cell held succeeds if there is such a cell. -/
theorem clearUnlessFixed_of_cell (hc : s.cell slot = .ok c) :
    clearUnlessFixed slot s = .ok () (s.emptied slot) := by
  unfold clearUnlessFixed
  rw [ask_bind_of_ok hc]
  cases hfixed : c.fixed with
  | true => simp [emptied_of_fixed hc hfixed, pure, EStateM.pure]
  | false => simp [emptied_of_not_fixed hc hfixed, replace_of_cell hc]

/-- An accepted copy: there was nothing to copy, or a value that is no reference was written. -/
theorem copy_eq_ok {target source : Slot} (h : copy target source s = .ok () s') :
    ∃ v, s.value source = .ok v ∧ ((v = .nothing ∧ s' = s) ∨
      (v ≠ .nothing ∧ (∀ aim, v ≠ .ref aim) ∧ write target v s = .ok () s')) := by
  unfold copy at h
  obtain ⟨v, s₁, hask, hrest⟩ := Action.bind_eq_ok_iff.mp h
  obtain ⟨hv, rfl⟩ := ask_eq_ok_iff.mp hask
  refine ⟨v, hv, ?_⟩
  cases v with
  | nothing =>
    cases hrest
    exact .inl ⟨rfl, rfl⟩
  | ref _ => cases hrest
  | handle _ => cases hrest
  | _ => exact .inr ⟨by simp, by simp, hrest⟩

/-- What binding one parameter does. -/
theorem handed_of_passArgument (h : passArgument formal actual s = .ok () s') :
    Handed formal actual s s' := by
  unfold passArgument at h
  by_cases hsame : formal = actual
  · rw [if_pos hsame] at h
    cases h
    exact .same hsame
  · rw [if_neg hsame] at h
    obtain ⟨c, s₁, hask, hrest⟩ := Action.bind_eq_ok_iff.mp h
    obtain ⟨hc, rfl⟩ := ask_eq_ok_iff.mp hask
    cases halias : aliasTags? c with
    | some tags =>
      simp only [halias] at hrest
      rw [replace_of_cell hc] at hrest
      cases hrest
      exact .aliased hsame hc halias ((cell_setCell hc _).trans (if_pos rfl))
        (differsOnlyAt_setCell hc _)
    | none =>
      simp only [halias] at hrest
      rw [Action.bind_of_ok (clearUnlessFixed_of_cell hc)] at hrest
      obtain ⟨hempty, hdiffers⟩ := cell_emptied hc
      have hplain := Cell.isReference_emptied halias
      obtain ⟨v, hv, ⟨rfl, rfl⟩ | ⟨hsome, hnoRef, hwrite⟩⟩ := copy_eq_ok hrest
      · exact .copied hsame hc halias hv c.receives_emptied hempty hplain hdiffers
      · obtain ⟨t, c₀, c', ht, hc₀, hc', htakes, hdiffers'⟩ := landing_of_write hnoRef hwrite
        obtain rfl : formal = t := by simpa [writable_of_plain hempty hplain] using ht
        obtain rfl : c.emptied = c₀ := by simpa [hempty] using hc₀
        exact .copied hsame hc halias hv (.taken (fun _ => hsome) htakes.of_emptied) hc'
          (htakes.isReference_eq hnoRef hplain) (hdiffers.trans hdiffers')

/-- Parameters are bound in order. -/
theorem handedInOrder_of_passArguments (h : passArguments pairs s = .ok () s') :
    HandedInOrder pairs s s' := by
  induction pairs generalizing s with
  | nil =>
    cases h
    exact .nil
  | cons p others ih =>
    obtain ⟨_, s₁, hfirst, hothers⟩ := Action.bind_eq_ok_iff.mp h
    exact .cons (handed_of_passArgument hfirst) (ih hothers)

end StoreM

namespace Store

variable {s s' s₁ : Store} {formal actual slot x y : Slot} {c c' : Cell} {v : Value}
  {pairs before after : List (Slot × Slot)}

/-- Binding one parameter leaves every other cell as it is. -/
theorem Handed.cell_eq (h : Handed formal actual s s') (hx : formal ≠ actual → formal ≠ x) :
    s'.cell x = s.cell x := by
  cases h with
  | same _ => rfl
  | aliased hne _ _ _ hdiffers => exact hdiffers.cell_other x (hx hne).symm
  | copied hne _ _ _ _ _ _ hdiffers => exact hdiffers.cell_other x (hx hne).symm

/-- Binding one parameter makes no reference of a cell that is none. -/
theorem Handed.sameRoad (h : Handed formal actual s s') (hplain : s.Plain x) : s.SameRoad s' x := by
  by_cases hx : formal = x
  · subst hx
    obtain ⟨c, hc, hnoRef⟩ := hplain
    cases h with
    | same _ => exact .inl rfl
    | aliased _ hc' halias _ _ =>
      obtain rfl : c = _ := by simpa [hc] using hc'
      rw [(StoreM.isReference_of_aliasTags? halias).1] at hnoRef
      cases hnoRef
    | copied _ _ _ _ _ hcell hnoRef' _ => exact .inr ⟨c, _, hc, hcell, hnoRef, hnoRef'⟩
  · exact .inl (h.cell_eq fun _ => hx)

/-- Binding one parameter adds no heap. -/
theorem Handed.kind_eq (h : Handed formal actual s s') (id : HeapId) : s'.kind? id = s.kind? id := by
  cases h with
  | same _ => rfl
  | aliased _ _ _ _ hdiffers => exact hdiffers.kind_eq id
  | copied _ _ _ _ _ _ _ hdiffers => exact hdiffers.kind_eq id

namespace HandedInOrder

/-- A cell that is no rebound parameter stays as it is. -/
theorem cell_eq (h : HandedInOrder pairs s s') (hx : ¬ Rebound pairs x) :
    s'.cell x = s.cell x := by
  induction h with
  | nil => rfl
  | @cons formal actual others s s₁ s' hfirst _ ih =>
    have hothers : ¬ Rebound others x := by
      rintro ⟨actual', hmem, hne⟩
      exact hx ⟨actual', List.mem_cons_of_mem _ hmem, hne⟩
    have hformal : formal ≠ actual → formal ≠ x := by
      rintro hne rfl
      exact hx ⟨actual, List.mem_cons_self, hne⟩
    exact (ih hothers).trans (hfirst.cell_eq hformal)

/-- A walk finds the same at a cell that is no reference, be it a parameter. -/
theorem sameRoad_of_plain (h : HandedInOrder pairs s s') (hplain : s.Plain x) :
    s.SameRoad s' x := by
  induction h with
  | nil => exact .inl rfl
  | cons hfirst _ ih =>
    have hroad := hfirst.sameRoad hplain
    exact hroad.trans (ih (hroad.plain hplain))

/-- A walk finds the same everywhere but at parameters that were references and are rebound. -/
theorem sameRoad (h : HandedInOrder pairs s s') (hx : Rebound pairs x → s.Plain x) :
    s.SameRoad s' x := by
  by_cases hrebound : Rebound pairs x
  · exact h.sameRoad_of_plain (hx hrebound)
  · exact .inl (h.cell_eq hrebound)

/-- Binding parameters adds no heap. -/
theorem kind_eq (h : HandedInOrder pairs s s') (id : HeapId) : s'.kind? id = s.kind? id := by
  induction h with
  | nil => rfl
  | cons hfirst _ ih => exact ih.trans (hfirst.kind_eq id)

/-- The binding of one parameter among the others. -/
theorem split (h : HandedInOrder (before ++ (formal, actual) :: after) s s') :
    ∃ s₁ s₂, HandedInOrder before s s₁ ∧ Handed formal actual s₁ s₂ ∧
      HandedInOrder after s₂ s' := by
  induction before generalizing s with
  | nil =>
    cases h with
    | cons hfirst hothers => exact ⟨s, _, .nil, hfirst, hothers⟩
  | cons p others ih =>
    cases h with
    | cons hfirst hothers =>
      obtain ⟨s₁, s₂, hbefore, hformal, hafter⟩ := ih hothers
      exact ⟨s₁, s₂, .cons hfirst hbefore, hformal, hafter⟩

/-- A parameter by value holds what its actual had before all bindings, if the walk of the actual
comes past no parameter that was bound before it, nor past the parameter itself when that one is
emptied first. -/
theorem copied (h : HandedInOrder (before ++ (formal, actual) :: after) s s')
    (hbefore : ¬ Rebound before formal) (hafter : ¬ Rebound after formal) (hne : formal ≠ actual)
    (hc : s.cell formal = .ok c) (halias : StoreM.aliasTags? c = none)
    (hwalk : ∀ x, s.Meets actual x → ¬ Rebound before x)
    (hself : c.fixed = false → ¬ s.Meets actual formal) :
    ∃ v c', s.value actual = .ok v ∧ c.Receives v c' ∧ s'.cell formal = .ok c' := by
  obtain ⟨s₁, s₂, hs₁, hs₂, hs'⟩ := h.split
  have hc₁ : s₁.cell formal = .ok c := (hs₁.cell_eq hbefore).trans hc
  have hkept : s'.cell formal = s₂.cell formal := hs'.cell_eq hafter
  -- The walk of the actual finds the cells that it found before the first binding.
  have hcells : ∀ x, s.Meets actual x → (s₁.emptied formal).cell x = s.cell x := by
    intro x hx
    have hx₁ : s₁.cell x = s.cell x := hs₁.cell_eq (hwalk x hx)
    by_cases hfixed : c.fixed = true
    · rw [emptied_of_fixed hc₁ hfixed, hx₁]
    · have hother : x ≠ formal := by
        rintro rfl
        exact hself (by simpa using hfixed) hx
      rw [(cell_emptied hc₁).2.cell_other x hother, hx₁]
  cases hs₂ with
  | same heq => exact absurd heq hne
  | aliased _ hc₂ halias₂ _ _ =>
    obtain rfl : c = _ := by simpa [hc₁] using hc₂
    rw [halias] at halias₂
    cases halias₂
  | @copied _ c₂ c' v _ hc₂ _ hvalue hreceives hcell _ _ =>
    obtain rfl : c = c₂ := by simpa [hc₁] using hc₂
    have hread : s.value actual = .ok v := (value_of_walk hcells).symm.trans hvalue
    exact ⟨v, c', hread, hreceives, hkept.trans hcell⟩

/-- A parameter declared as a reference is bound to its actual. -/
theorem aliased {tags : List Tag} (h : HandedInOrder (before ++ (formal, actual) :: after) s s')
    (hbefore : ¬ Rebound before formal) (hafter : ¬ Rebound after formal) (hne : formal ≠ actual)
    (hc : s.cell formal = .ok c) (halias : StoreM.aliasTags? c = some tags) :
    s'.cell formal = .ok ⟨tags, true, .ref actual⟩ := by
  obtain ⟨s₁, s₂, hs₁, hs₂, hs'⟩ := h.split
  have hc₁ : s₁.cell formal = .ok c := (hs₁.cell_eq hbefore).trans hc
  have hkept : s'.cell formal = s₂.cell formal := hs'.cell_eq hafter
  cases hs₂ with
  | same heq => exact absurd heq hne
  | @aliased _ c₂ tags₂ _ hc₂ halias₂ hcell _ =>
    obtain rfl : c = c₂ := by simpa [hc₁] using hc₂
    obtain rfl : tags = tags₂ := by simpa [halias] using halias₂
    exact hkept.trans hcell
  | copied _ hc₂ halias₂ _ _ _ _ _ =>
    obtain rfl : c = _ := by simpa [hc₁] using hc₂
    rw [halias] at halias₂
    cases halias₂

end HandedInOrder

/-- An alias has the origin that its target had, or none for the same reason, if the target's walk
finds what it found and has a step to spare. -/
theorem origin_of_alias {tags : List Tag} {fixed : Bool}
    (hcell : s'.cell formal = .ok ⟨tags, fixed, .ref actual⟩)
    (href : Cell.outer tags = Tag.ref ∨ Cell.outer tags = Tag.const)
    (hroad : ∀ x, s.Meets actual x → s.SameRoad s' x)
    (hshort : s.walk (maxChain - 1) actual = none) : s'.origin formal = s.origin actual := by
  have hnext : s'.next? formal = some actual := by
    have hreference : (⟨tags, fixed, .ref actual⟩ : Cell).isReference = true :=
      Cell.isReference_iff.mpr href
    simp [next?, hcell, hreference]
  obtain ⟨k, y, hk, hwalk, hstop⟩ := exists_stop hshort
  have hactual : s.origin actual = s.stop y := origin_of_stop hwalk hstop (by omega)
  have hformal : s'.origin formal = s'.originWithin formal (maxChain - 1) actual := by
    change s'.originWithin formal (maxChain - 1 + 1) formal = _
    rw [originWithin_succ, hnext]
  rw [hformal, originWithin_congr formal (maxChain - 1) hroad,
    originWithin_of_stop formal hwalk hstop hk, hactual]

end Store

end SlotMachine
