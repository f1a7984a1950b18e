import SlotMachine.Machine.Simple
import SlotMachine.Proofs.Store.Binding
import SlotMachine.Proofs.Store.Following
import Mathlib.Tactic.Common

/-!
# Referring

Referring binds a slot to the origin of another one. The two then share that origin, even where the
bound slot lay on the other one's own walk, and every slot whose walk does not come past the bound
one has the origin it had. Writes of values that are no references mislead no walk, so the two
slots are read alike from then on, whatever is written and through whichever slot.
-/

namespace SlotMachine

/-- The request is to write a value that is no reference. -/
def StoreRequest.WritesValue : StoreRequest → Prop
  | write _ v => ∀ target, v ≠ .ref target
  | bind _ _ _ => False

namespace Store

variable {s s' : Store} {slot o x y : Slot} {c : Cell}

namespace Redirects

/-- The bound slot has the target as its origin if the target is another slot and no reference. -/
theorem origin_slot (hr : s.Redirects s' slot o) (hother : o ≠ slot) (hc : s.cell o = .ok c)
    (hplain : c.isReference = false) : s'.origin slot = .ok o := by
  have hwalk : s'.walk 1 slot = some o := by simp [walk, hr.next_slot]
  exact origin_of_walk (by decide) hwalk ((hr.cell_other o hother).trans hc) hplain

/-- A slot with the target as its origin keeps it. Either its walk does not come past the bound slot
and is unchanged, or it is cut short there. -/
theorem origin_kept (hr : s.Redirects s' slot o) (hother : o ≠ slot) (h : s.origin x = .ok o) :
    s'.origin x = .ok o := by
  obtain ⟨k, hk, hwalk, c, hc, hplain⟩ := walk_of_origin h
  have hc' : s'.cell o = .ok c := (hr.cell_other o hother).trans hc
  by_cases hmeets : ∃ j, j < k ∧ s.walk j x = some slot
  · -- The first time that the walk comes to the bound slot, it goes straight on to the target.
    obtain ⟨hj, hslot⟩ := Nat.find_spec hmeets
    have hfirst : ∀ i < Nat.find hmeets, s.walk i x ≠ some slot := fun i hi hmeet =>
      Nat.find_min hmeets hi ⟨by omega, hmeet⟩
    have hcut : s'.walk (Nat.find hmeets + 1) x = some o := by
      rw [walk_of_walk ((hr.walk_eq hfirst).trans hslot)]
      simp [walk, hr.next_slot]
    exact origin_of_walk (by omega) hcut hc' hplain
  · have hunchanged : s'.walk k x = s.walk k x :=
      hr.walk_eq fun j hj hmeet => hmeets ⟨j, hj, hmeet⟩
    exact origin_of_walk hk (hunchanged.trans hwalk) hc' hplain

/-- A slot whose walk does not come past the bound slot has the origin it had, or none for the same
reason. -/
theorem origin_apart (hr : s.Redirects s' slot o) (hy : ¬ s.Meets y slot) :
    s'.origin y = s.origin y := by
  refine origin_congr fun z hz => .inl (hr.cell_other z ?_)
  rintro rfl
  exact hy hz

end Redirects

/-- A request to write a value that is no reference, granted or refused, misleads no walk. -/
theorem sameRoads_serve {request : StoreRequest} (hrequest : request.WritesValue) :
    s.SameRoads (s.serve request) := by
  cases request with
  | bind slot target binding => exact hrequest.elim
  | write slot v =>
    cases hwrite : StoreM.write slot v s with
    | ok _ s' =>
      simp only [serve, StoreRequest.action, hwrite]
      exact StoreM.sameRoads_of_write hrequest hwrite
    | error e s' =>
      rw [StoreM.write_eq_writeValue hrequest] at hwrite
      rcases StoreM.writeValue_outcome slot v s with ⟨e', he⟩ | ⟨t, c, c', s₁, -, -, -, -, hok⟩
      · have hrefused : s.serve (.write slot v) = s := by
          simp only [serve, StoreRequest.action, StoreM.write_eq_writeValue hrequest, he]
        rw [hrefused]
        exact fun x => .inl rfl
      · rw [hok] at hwrite
        cases hwrite

/-- Any number of such requests leaves every slot with the origin it had, or with none for the same
reason. -/
theorem origin_serveAll {requests : List StoreRequest}
    (hrequests : ∀ request ∈ requests, request.WritesValue) (x : Slot) :
    (s.serveAll requests).origin x = s.origin x := by
  induction requests generalizing s with
  | nil => rfl
  | cons request others ih =>
    have hfirst : (s.serve request).origin x = s.origin x :=
      (sameRoads_serve (hrequests request (by simp))).origin_eq x
    exact (ih fun later hlater => hrequests later (by simp [hlater])).trans hfirst

/-- Two slots with one origin are read alike. -/
theorem value_eq_of_origin (hx : s.origin x = .ok o) (hy : s.origin y = .ok o) :
    ∃ v, s.value x = .ok v ∧ s.value y = .ok v := by
  obtain ⟨-, -, -, c, hc, -⟩ := walk_of_origin hx
  exact ⟨c.value, value_of_origin hx hc, value_of_origin hy hc⟩

/-- What an accepted write leaves in the origin of its slot is read through every slot that has this
origin. -/
theorem value_of_write {v : Value} (hv : ∀ target, v ≠ .ref target)
    (h : StoreM.write slot v s = .ok () s') (hslot : s.origin slot = .ok o) :
    ∃ c c', s.cell o = .ok c ∧ c.Takes v c' ∧
      ∀ y, s.origin y = .ok o → s'.value y = .ok c'.value := by
  have hroads := StoreM.sameRoads_of_write hv h
  obtain ⟨t, c, c', ht, hc, hc', htakes, -⟩ := StoreM.landing_of_write hv h
  obtain rfl : o = t := by
    have hlanding : s.origin slot = .ok t := originWithin_of_writableWithin slot ht
    simpa [hslot] using hlanding
  exact ⟨c, c', hc, htakes, fun y hy => value_of_origin ((hroads.origin_eq y).trans hy) hc'⟩

end Store

/-- The instruction binds the slot of its first operand to the origin of the slot of its second. -/
theorem Simple.execute_refer {s s' : Store} {o : Slot} (registry : Registry) (f : Frame)
    {result operand : UInt64} (horigin : s.origin (f.slot operand) = .ok o)
    (h : StoreM.bindRef (f.slot result) o s = .ok () s') :
    Simple.execute registry f ⟨.refer, [result, operand]⟩ s = .ok .next s' := by
  have hoperands : Instruction.exactly ⟨.refer, [result, operand]⟩ 2 =
      .ok #v[result, operand] := rfl
  change Simple.refer f ⟨.refer, [result, operand]⟩ s = .ok .next s'
  unfold Simple.refer
  rw [StoreM.ask_bind_of_ok hoperands]
  exact (StoreM.ask_bind_of_ok horigin).trans (Action.bind_of_ok h)

namespace Store

/-- Referring a slot to the origin of another one, as the instruction does, gives both this origin
and leaves every slot whose walk did not come past the first with the origin it had. From then on,
after any writes of values that are no references, granted or refused and through whatever slots,
both are read and give the same value; and what an accepted write through either leaves in the
origin is read through both. -/
theorem refer_aliases {s s' : Store} {r x o : Slot} (horigin : s.origin x = .ok o)
    (h : StoreM.bindRef r o s = .ok () s') :
    (∀ registry f result operand, f.slot result = r → f.slot operand = x →
      Simple.execute registry f ⟨.refer, [result, operand]⟩ s = .ok .next s') ∧
    s'.origin r = .ok o ∧ s'.origin x = .ok o ∧
    (∀ y, ¬ s.Meets y r → s'.origin y = s.origin y) ∧
    ∀ requests : List StoreRequest, (∀ request ∈ requests, request.WritesValue) →
      (∃ v, (s'.serveAll requests).value r = .ok v ∧ (s'.serveAll requests).value x = .ok v) ∧
      ∀ via, via = r ∨ via = x → ∀ v later, (∀ target, v ≠ .ref target) →
        StoreM.write via v (s'.serveAll requests) = .ok () later →
        ∃ c c', (s'.serveAll requests).cell o = .ok c ∧ c.Takes v c' ∧
          later.value r = .ok c'.value ∧ later.value x = .ok c'.value := by
  have hr := redirects_of_bind h
  obtain ⟨-, -, -, c, hc, hplain⟩ := walk_of_origin horigin
  have hother : o ≠ r := fun heq => (StoreM.bind_eq_ok_iff.mp h).1 heq.symm
  have horiginR : s'.origin r = .ok o := hr.origin_slot hother hc hplain
  have horiginX : s'.origin x = .ok o := hr.origin_kept hother horigin
  refine ⟨?_, horiginR, horiginX, fun y hy => hr.origin_apart hy, fun requests hrequests => ?_⟩
  · rintro registry f result operand rfl rfl
    exact Simple.execute_refer registry f horigin h
  · have hlaterR := (origin_serveAll hrequests r).trans horiginR
    have hlaterX := (origin_serveAll hrequests x).trans horiginX
    refine ⟨value_eq_of_origin hlaterR hlaterX, fun via hvia v later hv hwrite => ?_⟩
    have horiginVia : (s'.serveAll requests).origin via = .ok o := by
      rcases hvia with rfl | rfl
      · exact hlaterR
      · exact hlaterX
    obtain ⟨c, c', hc, htakes, hread⟩ := value_of_write hv hwrite horiginVia
    exact ⟨c, c', hc, htakes, hread r hlaterR, hread x hlaterX⟩

/-- A free cell and a chain of three references that lead to it, by way of the third, the second and
the fourth cell. -/
def chainedFree : Store :=
  ⟨#[⟨.module, #[Cell.free, ⟨[Tag.ref, Tag.untyped], false, .ref ⟨0, 3⟩⟩,
    ⟨[Tag.ref, Tag.untyped], false, .ref ⟨0, 1⟩⟩,
    ⟨[Tag.ref, Tag.untyped], false, .ref ⟨0, 0⟩⟩]⟩], #[], 16⟩

/-- The second cell is referred to the origin of the third, on whose walk it lies. After a number
written through the fourth cell and a refused write, a text written through the second is read
through the third. -/
theorem refer_chainedFree :
    chainedFree.origin ⟨0, 2⟩ = .ok ⟨0, 0⟩ ∧
    ∃ s', StoreM.bindRef ⟨0, 1⟩ ⟨0, 0⟩ chainedFree = .ok () s' ∧
      s'.origin ⟨0, 1⟩ = .ok ⟨0, 0⟩ ∧ s'.origin ⟨0, 2⟩ = .ok ⟨0, 0⟩ ∧
      s'.origin ⟨0, 3⟩ = chainedFree.origin ⟨0, 3⟩ ∧
      ∃ later, StoreM.write ⟨0, 1⟩ (.text "ab")
          (s'.serveAll [.write ⟨0, 3⟩ (.long 7), .write ⟨5, 0⟩ .nothing]) = .ok () later ∧
        later.value ⟨0, 2⟩ = .ok (.text "ab") := by
  have horigin : chainedFree.origin ⟨0, 2⟩ = .ok ⟨0, 0⟩ := rfl
  have hbind : StoreM.bindRef ⟨0, 1⟩ ⟨0, 0⟩ chainedFree = .ok () _ := rfl
  obtain ⟨-, hr, hx, hapart, hlater⟩ := refer_aliases horigin hbind
  have hfourth : ¬ chainedFree.Meets ⟨0, 3⟩ ⟨0, 1⟩ := by
    intro hmeets
    rcases eq_or_meets (y := ⟨0, 0⟩) rfl hmeets with heq | hrest
    · exact absurd heq (by decide)
    · exact absurd (eq_of_meets rfl hrest) (by decide)
  refine ⟨horigin, _, hbind, hr, hx, hapart ⟨0, 3⟩ hfourth, _, rfl, ?_⟩
  obtain ⟨-, hread⟩ := hlater [.write ⟨0, 3⟩ (.long 7), .write ⟨5, 0⟩ .nothing]
    (by simp [StoreRequest.WritesValue])
  obtain ⟨c, c', hc, htakes, -, hvalue⟩ := hread ⟨0, 1⟩ (.inl rfl) (.text "ab") _ (by simp) rfl
  -- The shared cell has taken on the type of the number and takes on that of the text.
  obtain rfl : Cell.holding (.long 7) = c := Except.ok.inj hc
  rw [hvalue]
  cases htakes with
  | undeclared _ => rfl
  | declared hfixed _ => cases hfixed
  | converted hfixed _ _ _ => cases hfixed

end Store

end SlotMachine
