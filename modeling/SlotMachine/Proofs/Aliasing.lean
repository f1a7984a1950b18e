import SlotMachine.Image.Encode
import SlotMachine.Proofs.Session
import SlotMachine.Proofs.Store.Binding
import SlotMachine.Proofs.Store.Handover
import Mathlib.Tactic.Common

/-!
# Parameters that are references

A parameter declared as a reference becomes an alias of the caller's slot, and nothing is checked:
not that there is such a slot, nor where its walk leads, nor the type at its end. Binding a slot by an
instruction checks all three. This file says how far the two agree: the alias is the one that a
binding would have made exactly if the binding would have been accepted, and whether the parameter
can be used afterwards depends on the walk that was not looked at.
-/

namespace SlotMachine

/-- The binding that a reference tag stands for. -/
def Binding.ofTag (t : Tag) : Binding :=
  if t = Tag.const then .const else .mutable

namespace Store

variable {s u : Store} {slot target x : Slot} {c : Cell} {tags : List Tag}

/-- The target leads, by a walk that does not come past the slot, to a cell of the declared type. -/
def Sanctions (s : Store) (slot target : Slot) (declared : Tag) : Prop :=
  ¬ s.Meets target slot ∧ ∃ referent c, s.origin target = .ok referent ∧ s.cell referent = .ok c ∧
    (declared = Tag.untyped ∨ c.tag = Tag.untyped ∨ declared = c.tag)

/-- The store in which the slot is declared with these tags and bound to nothing. -/
def unbound (s : Store) (slot : Slot) (tags : List Tag) : Store :=
  s.setCell slot ⟨tags, true, .nothing⟩

/-- If the cell is a reference, the slot it names exists. -/
def Anchored (s : Store) (slot : Slot) : Prop :=
  ∀ c target, s.cell slot = .ok c → c.value = .ref target → ∃ c', s.cell target = .ok c'

/-- Of two replacements of one cell the last one counts. -/
theorem setCell_setCell (s : Store) (slot : Slot) (c c' : Cell) :
    (s.setCell slot c).setCell slot c' = s.setCell slot c' := by
  have hlast : ∀ cells : Array Cell,
      (cells.setIfInBounds slot.index c).setIfInBounds slot.index c' =
        cells.setIfInBounds slot.index c' := by
    intro cells
    exact Array.setIfInBounds_setIfInBounds c
  rw [setCell, setCell, modifyHeap_modifyHeap, setCell]
  congr 1
  exact funext hlast

/-- A walk comes past a slot whatever the cell there is. -/
theorem Meets.of_cell_other (h : s.Meets x slot)
    (hother : ∀ other, other ≠ slot → u.cell other = s.cell other) : u.Meets x slot := by
  obtain ⟨k, hk⟩ := h
  induction k generalizing x with
  | zero => exact ⟨0, hk⟩
  | succ k ih =>
    by_cases hx : x = slot
    · exact ⟨0, by rw [hx, walk]⟩
    · obtain ⟨y, hnext, hrest⟩ := Option.bind_eq_some_iff.mp hk
      have hstep : u.next? x = some y := by rw [next?, hother x hx, ← next?, hnext]
      exact (ih hrest).of_next? hstep

/-- A walk that comes to an unbound reference has no origin. -/
theorem origin_ne_ok_of_meets (h : s.Meets x slot) (hc : s.cell slot = .ok c)
    (href : c.isReference = true) (hvalue : ∀ aim, c.value ≠ .ref aim) (referent : Slot) :
    s.origin x ≠ .ok referent := by
  obtain ⟨k, hk⟩ := h
  have hend : s.next? slot = none := by
    cases hnext : s.next? slot with
    | none => rfl
    | some y =>
      obtain ⟨c', hc', -, hy⟩ := cell_of_next? hnext
      cases hc.symm.trans hc'
      exact absurd hy (hvalue y)
  have hstop : s.stop slot = .error (.unboundReference slot.index) := by
    simp only [stop, hc, href, if_true]
  by_cases hlimit : k < maxChain
  · rw [origin_of_stop hk hend hlimit, hstop]
    simp
  · have hlong := isSome_walk_of_le (Nat.not_lt.mp hlimit) (by rw [hk]; rfl : (s.walk k x).isSome)
    have hcycle : s.origin x = .error (.referenceCycle x.index) := originWithin_of_long x hlong
    rw [hcycle]
    simp

end Store

namespace StoreM

open Store

variable {s s' : Store} {formal actual : Slot} {c : Cell} {tags : List Tag}

/-- A slot that is declared as a reference and not bound yet keeps its tags when it is bound to a cell
of its type, and is not bound to any other. -/
theorem boundTags_of_unbound {slot : Slot} {referent : Tag} {tags' : List Tag}
    (htags : Cell.outer tags = Tag.ref ∨ Cell.outer tags = Tag.const) :
    boundTags slot ⟨tags, true, .nothing⟩ (.ofTag (Cell.outer tags)) referent = .ok tags' ↔
      tags' = tags ∧ (Cell.outer tags.tail = Tag.untyped ∨ referent = Tag.untyped ∨
        Cell.outer tags.tail = referent) := by
  cases tags with
  | nil => rcases htags with htag | htag <;> cases htag
  | cons t inner =>
    have hcheck : boundTags slot ⟨t :: inner, true, .nothing⟩ (.ofTag t) referent =
        (checkReferent (Cell.outer inner) referent).map fun _ => t :: inner := by
      rcases htags with htag | htag
      · obtain rfl : t = Tag.ref := htag
        rfl
      · obtain rfl : t = Tag.const := htag
        rfl
    change boundTags slot ⟨t :: inner, true, .nothing⟩ (.ofTag t) referent = _ ↔
      _ ∧ (Cell.outer inner = _ ∨ _ ∨ Cell.outer inner = _)
    rw [hcheck, checkReferent]
    by_cases hfits : Cell.outer inner = Tag.untyped ∨ referent = Tag.untyped ∨
        Cell.outer inner = referent
    · rw [if_pos hfits]
      simp only [Except.map, Except.ok.injEq]
      exact ⟨fun h => ⟨h.symm, hfits⟩, fun h => h.1.symm⟩
    · rw [if_neg hfits]
      exact ⟨nofun, fun h => absurd h.2 hfits⟩

/-- A slot that is declared as a reference and not bound yet is bound exactly if the target is
sanctioned. -/
theorem bind_unbound_eq_ok_iff {slot target : Slot} (hne : slot ≠ target)
    (hc : s.cell slot = .ok c) (htags : Cell.outer tags = Tag.ref ∨ Cell.outer tags = Tag.const) :
    bind slot target (.ofTag (Cell.outer tags)) (s.unbound slot tags) = .ok () s' ↔
      s' = s.setCell slot ⟨tags, true, .ref target⟩ ∧
        s.Sanctions slot target (Cell.outer tags.tail) := by
  have hslot : (s.unbound slot tags).cell slot = .ok ⟨tags, true, .nothing⟩ := by
    rw [unbound, cell_setCell hc, if_pos rfl]
  have hother : ∀ other, other ≠ slot → (s.unbound slot tags).cell other = s.cell other := by
    intro other hdiffers
    rw [unbound, cell_setCell hc, if_neg hdiffers]
  have horigin : ¬ s.Meets target slot → (s.unbound slot tags).origin target = s.origin target := by
    intro havoids
    apply origin_congr
    intro y hy
    exact .inl (hother y fun heq => havoids (heq ▸ hy))
  have href : (⟨tags, true, .nothing⟩ : Cell).isReference = true := Cell.isReference_iff.mpr htags
  rw [bind_eq_ok_iff]
  constructor
  · rintro ⟨-, referent, referentCell, c', tags', hreferent, hdiffers, hcell, hc', hbound, rfl⟩
    cases hslot.symm.trans hc'
    have havoids : ¬ s.Meets target slot := by
      intro hmeets
      exact origin_ne_ok_of_meets (hmeets.of_cell_other hother) hslot href nofun referent hreferent
    obtain ⟨rfl, hfits⟩ := (boundTags_of_unbound htags).mp hbound
    refine ⟨setCell_setCell s slot _ _, havoids, referent, referentCell, ?_, ?_, hfits⟩
    · rw [← horigin havoids, hreferent]
    · rw [← hother referent hdiffers, hcell]
  · rintro ⟨rfl, havoids, referent, referentCell, hreferent, hcell, hfits⟩
    have hdiffers : referent ≠ slot := by
      rintro rfl
      exact havoids (meets_of_originWithin hreferent)
    exact ⟨hne, referent, referentCell, _, tags, by rw [horigin havoids, hreferent], hdiffers,
      by rw [hother referent hdiffers, hcell], hslot, (boundTags_of_unbound htags).mpr ⟨rfl, hfits⟩,
      (setCell_setCell s slot _ _).symm⟩

/-- A parameter that is a reference is bound to the caller's slot, whatever that is. -/
theorem passArgument_of_alias (hne : formal ≠ actual) (hc : s.cell formal = .ok c)
    (halias : aliasTags? c = some tags) :
    passArgument formal actual s = .ok () (s.setCell formal ⟨tags, true, .ref actual⟩) := by
  unfold passArgument
  rw [if_neg hne, ask_bind_of_ok hc]
  simp only [halias]
  exact replace_of_cell hc _

/-- The parameter then has the origin of the caller's slot, if the walk from there does not come past
the parameter and has a step to spare; otherwise it has none. -/
theorem origin_alias_eq_ok_iff (hc : s.cell formal = .ok c)
    (htags : Cell.outer tags = Tag.ref ∨ Cell.outer tags = Tag.const) (referent : Slot) :
    (s.setCell formal ⟨tags, true, .ref actual⟩).origin formal = .ok referent ↔
      ¬ s.Meets actual formal ∧ s.walk (Store.maxChain - 1) actual = none ∧
        s.origin actual = .ok referent := by
  generalize hs' : s.setCell formal ⟨tags, true, .ref actual⟩ = s'
  have hformal : s'.cell formal = .ok ⟨tags, true, .ref actual⟩ := by
    rw [← hs', cell_setCell hc, if_pos rfl]
  have hother : ∀ other, other ≠ formal → s'.cell other = s.cell other := by
    intro other hdiffers
    rw [← hs', cell_setCell hc, if_neg hdiffers]
  have hnext : s'.next? formal = some actual := by
    have href : (⟨tags, true, .ref actual⟩ : Cell).isReference = true :=
      Cell.isReference_iff.mpr htags
    simp [next?, hformal, href]
  have hroad : ¬ s.Meets actual formal → ∀ x, s.Meets actual x → s.SameRoad s' x := by
    intro havoids x hx
    exact .inl (hother x fun heq => havoids (heq ▸ hx))
  constructor
  · intro horigin
    have havoids : ¬ s.Meets actual formal := by
      intro hmeets
      obtain ⟨k, hk⟩ := hmeets.of_cell_other hother
      have hloop : s'.walk (k + 1) formal = some formal := by simp [walk, hnext, hk]
      have hlong := isSome_walk_of_le (Nat.le_mul_of_pos_right Store.maxChain (Nat.succ_pos k))
        (by rw [walk_mul hloop]; rfl)
      have hcycle : s'.origin formal = .error (.referenceCycle formal.index) :=
        originWithin_of_long formal hlong
      rw [hcycle] at horigin
      cases horigin
    have hwithin : s.originWithin formal (Store.maxChain - 1) actual = .ok referent := by
      rw [← originWithin_congr formal (Store.maxChain - 1) (hroad havoids)]
      have hstep : s'.originWithin formal (Store.maxChain - 1 + 1) formal = .ok referent := horigin
      rwa [originWithin_succ, hnext] at hstep
    have hshort : s.walk (Store.maxChain - 1) actual = none := by
      by_contra hlong
      rw [originWithin_of_long formal (Option.isSome_iff_ne_none.mpr hlong)] at hwithin
      cases hwithin
    refine ⟨havoids, hshort, ?_⟩
    rw [← horigin, origin_of_alias hformal htags (hroad havoids) hshort]
  · rintro ⟨havoids, hshort, horigin⟩
    rw [origin_of_alias hformal htags (hroad havoids) hshort, horigin]

/-- Once the parameter is bound, all references name existing slots exactly if all others did and the
caller's slot exists. -/
theorem anchored_alias_iff (hc : s.cell formal = .ok c) :
    (∀ slot, (s.setCell formal ⟨tags, true, .ref actual⟩).Anchored slot) ↔
      (∀ slot, slot ≠ formal → s.Anchored slot) ∧ ∃ c', s.cell actual = .ok c' := by
  have hexists : ∀ slot, (∃ c', (s.setCell formal ⟨tags, true, .ref actual⟩).cell slot = .ok c') ↔
      ∃ c', s.cell slot = .ok c' := by
    intro slot
    rw [cell_setCell hc]
    by_cases hslot : slot = formal
    · rw [if_pos hslot, hslot]
      exact ⟨fun _ => ⟨c, hc⟩, fun _ => ⟨_, rfl⟩⟩
    · rw [if_neg hslot]
  constructor
  · intro h
    refine ⟨fun slot hslot c₀ target hc₀ hvalue => ?_, ?_⟩
    · rw [← hexists]
      exact h slot c₀ target (by rw [cell_setCell hc, if_neg hslot, hc₀]) hvalue
    · rw [← hexists]
      exact h formal _ actual (by rw [cell_setCell hc, if_pos rfl]) rfl
  · rintro ⟨hothers, hactual⟩ slot c₀ target hc₀ hvalue
    rw [hexists]
    rw [cell_setCell hc] at hc₀
    by_cases hslot : slot = formal
    · rw [if_pos hslot] at hc₀
      cases hc₀
      cases hvalue
      exact hactual
    · rw [if_neg hslot] at hc₀
      exact hothers slot hslot c₀ target hc₀ hvalue

end StoreM

namespace Session

open Store

/-- In every state of every session all references name slots of existing heaps. A parameter that is a
reference is bound to whatever slot the caller hands over, and no other cell changes. Had the
parameter been bound to nothing and then been bound to that slot by an instruction, the outcome would
have been the same exactly if the slot leads, without coming past the parameter, to a cell of the
declared type; otherwise the instruction would have been refused. The parameter can be used exactly if
the walk from the slot does not come past the parameter, ends at a cell, and has a step to spare. And
all references name existing slots exactly if all others did and the slot exists. -/
theorem aliases_bound_unchecked (settings : Settings) (source : Source) (sink : Sink)
    (events : List HostEvent) :
    (∀ slot c target,
      ((create settings source sink).play events).machine.store.cell slot = .ok c →
      c.value = .ref target →
      ∃ kind, ((create settings source sink).play events).machine.store.kind? target.heap =
        some kind) ∧
    ∀ (s : Store) (formal actual : Slot) (c : Cell) (tags : List Tag), formal ≠ actual →
      s.cell formal = .ok c → StoreM.aliasTags? c = some tags →
      ∃ s', StoreM.passArgument formal actual s = .ok () s' ∧
        s'.cell formal = .ok ⟨tags, true, .ref actual⟩ ∧
        (∀ other, other ≠ formal → s'.cell other = s.cell other) ∧
        (∀ s'', StoreM.bind formal actual (.ofTag (Cell.outer tags)) (s.unbound formal tags) =
            .ok () s'' ↔
          s'' = s' ∧ s.Sanctions formal actual (Cell.outer tags.tail)) ∧
        (∀ referent, s'.origin formal = .ok referent ↔
          ¬ s.Meets actual formal ∧ s.walk (Store.maxChain - 1) actual = none ∧
            s.origin actual = .ok referent) ∧
        ((∀ slot, s'.Anchored slot) ↔
          (∀ slot, slot ≠ formal → s.Anchored slot) ∧ ∃ c', s.cell actual = .ok c') := by
  constructor
  · intro slot c target hc hvalue
    have hcreate : (create settings source sink).machine.Sound :=
      Machine.sound_create settings source sink
    obtain ⟨hsound, -⟩ := sound_play hcreate events
    have hexposed : Exposed _ target := hsound.linkage.store.vouches hc hvalue
    obtain ⟨kind, hkind, -⟩ := hexposed
    exact ⟨kind, hkind⟩
  · intro s formal actual c tags hne hc halias
    have htags := (StoreM.isReference_of_aliasTags? halias).2
    refine ⟨_, StoreM.passArgument_of_alias hne hc halias, ?_, ?_,
      fun s'' => StoreM.bind_unbound_eq_ok_iff hne hc htags,
      StoreM.origin_alias_eq_ok_iff hc htags, StoreM.anchored_alias_iff hc⟩
    · rw [cell_setCell hc, if_pos rfl]
    · intro other hother
      rw [cell_setCell hc, if_neg hother]

/-- A function with three reference parameters, the second of them to bytes only. -/
def adrift : Function := ⟨"f", false, [7, 3, 4, 8], #[]⟩

/-- A program that calls `adrift` with a slot that does not exist, with a text, and with a const
reference to the third parameter. -/
def drifting : Image where
  constants := #[.text "f", .long 1]
  heap := [[Tag.untyped], [Tag.untyped], [Tag.untyped], [Tag.ref, Tag.untyped], [Tag.ref, Tag.byte],
    [Tag.untyped], [Tag.untyped], [Tag.untyped], [Tag.ref, Tag.untyped], [Tag.untyped], [Tag.untyped]]
  classes := [⟨Image.topClass, [], [⟨Image.entryMethod, false, [], #[⟨.loadConst, [5, 0]⟩,
    ⟨.loadConst, [10, 1]⟩, ⟨.refer, [8, 10]⟩, ⟨.freeze, [9, 8]⟩, .invoke 5 [6, 99, 5, 9]]⟩, adrift]⟩]

/-- The store of that program just before the call. -/
def beforeDrift : Store :=
  ⟨#[⟨.scratch, #[Cell.free]⟩,
    ⟨.module, #[Cell.free, Cell.free, ⟨[Tag.object], true, .object 2⟩,
      ⟨[Tag.ref, Tag.untyped], true, .nothing⟩, ⟨[Tag.ref, Tag.byte], true, .nothing⟩,
      ⟨[Tag.string], false, .text "f"⟩, Cell.free, Cell.free,
      ⟨[Tag.ref, Tag.untyped], true, .ref ⟨1, 10⟩⟩, ⟨[Tag.const, Tag.untyped], false, .ref ⟨1, 8⟩⟩,
      ⟨[Tag.long], false, .long 1⟩]⟩,
    ⟨.object, #[⟨[Tag.string], true, .text ".!__start"⟩]⟩], #[], 16777216⟩

/-- The session with that program gets there. -/
theorem store_drifting : ((create Settings.standard Source.empty Sink.empty).play
    [.load drifting.encode, .start, .tick, .tick, .tick, .tick, .tick]).machine.store =
      beforeDrift := by
  decide +kernel

/-- Had the caller handed over the number instead, the first parameter would have become the alias
that a binding makes, and could have been used. -/
theorem alias_of_number :
    ∃ s', StoreM.passArgument ⟨1, 3⟩ ⟨1, 10⟩ beforeDrift = .ok () s' ∧
      StoreM.bind ⟨1, 3⟩ ⟨1, 10⟩ .mutable (beforeDrift.unbound ⟨1, 3⟩ [Tag.ref, Tag.untyped]) =
        .ok () s' ∧
      s'.origin ⟨1, 3⟩ = .ok ⟨1, 10⟩ := by
  obtain ⟨-, halias⟩ := aliases_bound_unchecked Settings.standard Source.empty Sink.empty []
  obtain ⟨s', hpass, -, -, hbind, horigin, -⟩ := halias beforeDrift ⟨1, 3⟩ ⟨1, 10⟩
    ⟨[Tag.ref, Tag.untyped], true, .nothing⟩ [Tag.ref, Tag.untyped] (by decide) rfl rfl
  have havoids : ¬ beforeDrift.Meets ⟨1, 10⟩ ⟨1, 3⟩ := by
    intro hmeets
    have heq : (⟨1, 3⟩ : Slot) = ⟨1, 10⟩ := eq_of_meets rfl hmeets
    cases heq
  refine ⟨s', hpass, (hbind s').mpr ⟨rfl, havoids, ⟨1, 10⟩, _, rfl, rfl, .inl rfl⟩, ?_⟩
  exact (horigin ⟨1, 10⟩).mpr ⟨havoids, rfl, rfl⟩

/-- The call of the session binds a reference to a slot that does not exist, one to a text where only
bytes are declared, and one to a slot that leads back to the parameter. Binding a slot would have
refused each of them. -/
theorem aliases_adrift :
    let before := ((create Settings.standard Source.empty Sink.empty).play
      [.load drifting.encode, .start, .tick, .tick, .tick, .tick, .tick]).machine.store
    before.IsModule 1 ∧
      ∃ s', StoreM.pass 1 adrift [⟨1, 6⟩, ⟨1, 99⟩, ⟨1, 5⟩, ⟨1, 9⟩] before = .ok () s' ∧
        s'.cell ⟨1, 3⟩ = .ok ⟨[Tag.ref, Tag.untyped], true, .ref ⟨1, 99⟩⟩ ∧
        s'.cell ⟨1, 4⟩ = .ok ⟨[Tag.ref, Tag.byte], true, .ref ⟨1, 5⟩⟩ ∧
        s'.cell ⟨1, 8⟩ = .ok ⟨[Tag.ref, Tag.untyped], true, .ref ⟨1, 9⟩⟩ ∧
        before.origin ⟨1, 99⟩ = .error (.slotOutOfRange 1 99 11) ∧ ¬ s'.Anchored ⟨1, 3⟩ ∧
        before.originTag ⟨1, 5⟩ = .ok Tag.string ∧ before.Meets ⟨1, 9⟩ ⟨1, 8⟩ := by
  intro before
  have hbefore : before = beforeDrift := store_drifting
  rw [hbefore]
  refine ⟨rfl, _, rfl, rfl, rfl, rfl, rfl, ?_, rfl, ⟨1, rfl⟩⟩
  intro hanchored
  obtain ⟨c, hc⟩ := hanchored _ ⟨1, 99⟩ rfl rfl
  cases hc

end Session

end SlotMachine
