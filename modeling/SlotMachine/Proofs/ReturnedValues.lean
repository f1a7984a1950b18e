import SlotMachine.Proofs.Integrity
import SlotMachine.Proofs.Machine.Returns
import SlotMachine.Proofs.Store.Handover
import SlotMachine.Proofs.Store.Referring
import Mathlib.Tactic.Common

/-!
# Copied and returned values

A copy leaves its source with the value it had, and its target with that value or with the number
that a declared cell of another numeric kind makes of it; arrays and instances are not duplicated.
Where source and target are the same place, this needs that the cell holds a value of its own kind.

A call that returns well does so from the end of its own code, with its own frame on top of its
caller's, whatever it has called in between. There the value of its first parameter is copied into
the return slot, unless both are the same place.
-/

namespace SlotMachine

/-- The heap that an array handle or an instance shares with its copies. -/
def Value.storage? : Value → Option HeapId
  | .array a => some a.storage
  | .object heap => some heap
  | _ => none

/-- What a cell makes of a value that is stored there. -/
inductive Cell.Renders (c : Cell) (v : Value) : Value → Prop where
  /-- The value itself, unless the cell is declared with another numeric kind. -/
  | same : ¬ (c.fixed = true ∧ c.tag.isNumeric = true ∧ c.tag ≠ v.tag) → c.Renders v v
  /-- The converted number. -/
  | converted {w : Value} {lossy : Bool} : c.fixed = true → c.tag.isNumeric = true →
      c.tag ≠ v.tag → v.convert? c.tag = some (w, lossy) → c.Renders v w

/-- Numbers share no heap. -/
theorem Value.storage?_of_isNumeric {v : Value} (h : v.isNumeric = true) : v.storage? = none := by
  cases v with
  | array _ => cases h
  | object _ => cases h
  | _ => rfl

/-- What can be converted is a number. -/
theorem Value.isNumeric_of_convert? {v : Value} {kind : Tag} {result : Value × Bool}
    (h : v.convert? kind = some result) : v.isNumeric = true := by
  cases v with
  | byte _ => rfl
  | long _ => rfl
  | double _ => rfl
  | uint64 _ => rfl
  | _ => cases h

namespace Cell

variable {c c' : Cell} {v w : Value}

/-- A cell that takes a value holds what it makes of it. -/
theorem Takes.renders (h : c.Takes v c') : c.Renders v c'.value := by
  cases h with
  | undeclared hfree => exact .same (by simp [hfree])
  | declared _ htag => exact .same (by simp [htag])
  | converted hfixed htag hnumeric hconvert => exact .converted hfixed hnumeric htag hconvert

/-- Whatever a cell makes of a handle, it leads to the same heap. -/
theorem Renders.storage?_eq (h : c.Renders v w) : w.storage? = v.storage? := by
  cases h with
  | same _ => rfl
  | converted _ _ _ hconvert =>
    rw [Value.storage?_of_isNumeric (Value.tag_of_convert? hconvert).2,
      Value.storage?_of_isNumeric (Value.isNumeric_of_convert? hconvert)]

/-- A declared number of a well-typed cell is of the kind that was declared. -/
theorem WellTyped.tag_eq (hc : c.WellTyped) (hnumeric : c.tag.isNumeric = true) :
    c.tag = c.value.tag := by
  refine (hc.scalar ?_).symm
  simp only [Tag.isNumeric, Bool.or_eq_true, beq_iff_eq] at hnumeric
  simp only [List.mem_cons]
  tauto

/-- A well-typed cell makes of its own value that value. -/
theorem WellTyped.renders (hc : c.WellTyped) : c.Renders c.value c.value :=
  .same fun ⟨_, hnumeric, hother⟩ => hother (hc.tag_eq hnumeric)

/-- It makes nothing else of it. -/
theorem WellTyped.eq_of_renders (hc : c.WellTyped) (h : c.Renders c.value w) : w = c.value := by
  cases h with
  | same _ => rfl
  | converted _ hnumeric hother _ => exact absurd (hc.tag_eq hnumeric) hother

end Cell

namespace Store

variable {s s' : Store} {target source formal result : Slot}

/-- What a copy has done to a store. -/
inductive Copied (target source : Slot) (s : Store) : Store → Prop where
  /-- There was nothing to copy, and nothing has changed. -/
  | nothing : s.value source = .ok .nothing → Copied target source s s
  /-- The source still has its value, and the target shows what the cell in which writes to it land
  makes of it. A handle leads to the same heap as before. -/
  | value {s' : Store} {v w : Value} {landing : Slot} {c : Cell} :
      s.value source = .ok v → v ≠ .nothing → s.writable target = .ok landing →
      s.cell landing = .ok c → c.Renders v w → s'.value source = .ok v → s'.value target = .ok w →
      w.storage? = v.storage? → Copied target source s s'

/-- What handing back the value of a parameter has done to a store. -/
inductive HandedBack (formal result : Slot) (s : Store) : Store → Prop where
  /-- The parameter was copied into the return slot. -/
  | copied {s' : Store} : Copied result formal s s' → HandedBack formal result s s'
  /-- Both are the same place: nothing has changed and they are read alike. That is also what a copy
  would have left, if the cell holds a value of its kind. -/
  | same {place : Slot} {c : Cell} : s.origin formal = .ok place → s.origin result = .ok place →
      s.cell place = .ok c → s.value formal = .ok c.value → s.value result = .ok c.value →
      (c.WellTyped → c.Renders c.value c.value) → HandedBack formal result s s

end Store

namespace StoreM

open Store

variable {s s' : Store} {target source : Slot} {f : Frame}

/-- What a copy does, if the store is well typed or source and target are not the same place. -/
theorem copied_of_copy (h : copy target source s = .ok () s')
    (happart : s.WellTyped ∨ s.origin source ≠ s.origin target) : Copied target source s s' := by
  obtain ⟨v, hv, ⟨rfl, rfl⟩ | ⟨hsome, hnoRef, hwrite⟩⟩ := copy_eq_ok h
  · exact .nothing hv
  · obtain ⟨landing, c, c', hlanding, hc, hc', htakes, hdiffers⟩ := landing_of_write hnoRef hwrite
    have hroads := sameRoads_of_write hnoRef hwrite
    have htarget : s.origin target = .ok landing := originWithin_of_writableWithin target hlanding
    have hrenders := htakes.renders
    have hshown : ∀ x, s.origin x = .ok landing → s'.value x = .ok c'.value := fun x hx =>
      value_of_origin ((hroads.origin_eq x).trans hx) hc'
    refine .value hv hsome hlanding hc hrenders ?_ (hshown target htarget) hrenders.storage?_eq
    by_cases hsame : s.origin source = .ok landing
    · -- The source is the cell that was written, and its value is the one it had.
      rcases happart with htyped | hother
      · have hheld : v = c.value := by
          have hread := value_of_origin hsame hc
          rw [hv] at hread
          exact Except.ok.inj hread
        subst hheld
        rw [hshown source hsame, (htyped landing c hc).eq_of_renders hrenders]
      · exact absurd (hsame.trans htarget.symm) hother
    · refine (value_congr (hroads.origin_eq source) fun o ho => hdiffers.cell_other o ?_).trans hv
      rintro rfl
      exact hsame ho

/-- Handing back the value of the first parameter. -/
theorem handedBack_of_copyBack {formal : UInt64} {result : Slot}
    (hformal : f.function.params.head? = some formal) (hresult : f.returnSlot = some result)
    (h : MachineM.copyBack f s = .ok () s') : HandedBack (f.slot formal) result s s' := by
  obtain ⟨others, hparams⟩ := List.head?_eq_some_iff.mp hformal
  unfold MachineM.copyBack at h
  simp only [hparams, hresult] at h
  obtain ⟨here, s₁, hask, hrest⟩ := Action.bind_eq_ok_iff.mp h
  obtain ⟨hhere, rfl⟩ := ask_eq_ok_iff.mp hask
  obtain ⟨there, s₂, hask', hcopy⟩ := Action.bind_eq_ok_iff.mp hrest
  obtain ⟨hthere, rfl⟩ := ask_eq_ok_iff.mp hask'
  by_cases hplace : here = there
  · subst hplace
    rw [if_pos rfl] at hcopy
    cases hcopy
    obtain ⟨-, -, -, c, hc, -⟩ := walk_of_origin hhere
    exact .same hhere hthere hc (value_of_origin hhere hc) (value_of_origin hthere hc)
      Cell.WellTyped.renders
  · rw [if_neg hplace] at hcopy
    refine .copied (copied_of_copy hcopy (.inr ?_))
    rw [hhere, hthere]
    exact fun heq => hplace (Except.ok.inj heq)

end StoreM

namespace MachineM

variable {m m' : Machine} {module : ModuleId} {function : Function} {receiver : Option HeapId}
  {args : List Slot} {resume : Resume} {f : Frame}

/-- A call that has been begun has its own frame on top of its caller's. -/
theorem frames_of_call (h : call module function receiver args resume m = .ok () m') :
    ∃ loaded, m.registry.module module = .ok loaded ∧
      m'.frames = ⟨module, loaded.heap, receiver, function, 0, args.head?, resume⟩ :: m.frames := by
  unfold call at h
  rw [Action.get_bind, Action.get_bind] at h
  dsimp only at h
  split at h
  · cases h
  · obtain ⟨loaded, m₁, hask, hrest⟩ := Action.bind_eq_ok_iff.mp h
    obtain ⟨hloaded, rfl⟩ : m.registry.module module = .ok loaded ∧ m = m₁ := by
      unfold ask at hask
      split at hask <;> cases hask
      exact ⟨by assumption, rfl⟩
    obtain ⟨_, m₂, hpass, hpush⟩ := Action.bind_eq_ok_iff.mp hrest
    have hframes : m₂.frames = m.frames := by
      rw [onStore_eq] at hpass
      split at hpass <;> cases hpass
      rfl
    cases hpush
    exact ⟨loaded, hloaded, congrArg (List.cons _) hframes⟩

/-- A frame that is given back has its value handed over. -/
theorem copyBack_of_giveBack (h : giveBack f m = .ok () m') :
    copyBack f m.store = .ok () m'.store := by
  unfold giveBack at h
  obtain ⟨_, m₁, hpop, hcopy⟩ := Action.bind_eq_ok_iff.mp h
  cases hpop
  rw [onStore_eq] at hcopy
  dsimp only at hcopy
  split at hcopy <;> cases hcopy
  assumption

end MachineM

namespace Activity

variable {below : List Frame} {callee : Frame} {a : Activity} {m m' : Machine}

/-- The call is at the end of its code, with its own frame on top of its caller's, and returns well
from there. -/
def ReturnsFrom (below : List Frame) (callee : Frame) (m m' : Machine) : Prop :=
  ∃ ip, m.frames = { callee with ip := ip } :: below ∧ callee.function.code.size ≤ ip ∧
    MachineM.giveBack { callee with ip := ip } m = .ok () m'

/-- A call that does not return now is still carried after the next step, unless there is a fault. -/
theorem carries_step (h : a.fault = none → Carries below callee a.machine.frames)
    (hreturn : a.returning below.length = none) :
    a.step.fault = none → Carries below callee a.step.machine.frames := by
  obtain ⟨m, fault⟩ := a
  cases fault with
  | some e =>
    obtain ⟨frames, -, hstep⟩ := step_some m e
    rw [hstep]
    exact nofun
  | none =>
    have hcarries := h rfl
    have hne : m.frames ≠ [] := List.ne_nil_of_length_pos (Nat.zero_lt_of_lt hcarries.length_lt)
    exact (hcarries.turn (turns_step hne).turn (running_of_returning hreturn)).2

/-- A call that returns well now is at the end of its code. -/
theorem returnsFrom_of_returning (h : a.fault = none → Carries below callee a.machine.frames)
    (hreturn : a.returning below.length = some (.ok () m')) :
    ∃ m, a = ⟨m, none⟩ ∧ ReturnsFrom below callee m m' := by
  obtain ⟨m, fault⟩ := a
  cases fault with
  | some e =>
    rw [returning_some] at hreturn
    split at hreturn <;> cases hreturn
  | none =>
    have hcarries : Carries below callee m.frames := h rfl
    cases hframes : m.frames with
    | nil =>
      rw [hframes] at hcarries
      exact absurd hcarries.length_lt (Nat.not_lt_zero _)
    | cons f others =>
      rw [returning_none hframes] at hreturn
      split at hreturn
      · rename_i hover
        rw [hframes] at hcarries
        rcases hcarries.head with ⟨rfl, hf⟩ | hothers
        · rw [hf] at hframes hreturn hover
          exact ⟨m, rfl, f.ip, hframes, hover.2, Option.some.inj hreturn⟩
        · have hlength := hothers.length_lt
          omega
      · cases hreturn

/-- A fault that is on its way out is not forgotten. -/
theorem untilReturn_some_ne {fuel depth : Nat} {e : Fault} :
    untilReturn depth fuel ⟨m, some e⟩ ≠ some (.ok () m') := by
  have hnow : ∀ m : Machine, returning depth ⟨m, some e⟩ ≠ some (.ok () m') := by
    intro m hreturn
    rw [returning_some] at hreturn
    split at hreturn <;> cases hreturn
  induction fuel generalizing m with
  | zero => exact hnow m
  | succ fuel ih =>
    intro hreturn
    unfold untilReturn at hreturn
    split at hreturn
    · rename_i ending heq
      exact hnow m (heq.trans hreturn)
    · obtain ⟨frames, -, hstep⟩ := step_some m e
      rw [hstep] at hreturn
      exact ih hreturn

/-- A call that returns well after some steps has come to the end of its code. -/
theorem returnsFrom_of_untilReturn {fuel : Nat}
    (h : a.fault = none → Carries below callee a.machine.frames)
    (hreturn : a.untilReturn below.length fuel = some (.ok () m')) :
    ∃ n m, Activity.step^[n] a = ⟨m, none⟩ ∧ ReturnsFrom below callee m m' := by
  induction fuel generalizing a with
  | zero =>
    obtain ⟨m, ha, hfrom⟩ := returnsFrom_of_returning h hreturn
    exact ⟨0, m, ha, hfrom⟩
  | succ fuel ih =>
    unfold untilReturn at hreturn
    split at hreturn
    · rename_i ending hnow
      cases hreturn
      obtain ⟨m, ha, hfrom⟩ := returnsFrom_of_returning h hnow
      exact ⟨0, m, ha, hfrom⟩
    · rename_i hlater
      obtain ⟨n, m, hn, hfrom⟩ := ih (carries_step h hlater) hreturn
      refine ⟨n + 1, m, ?_, hfrom⟩
      rw [Function.iterate_succ_apply]
      exact hn

end Activity

namespace Machine

/-- A copy in a well-typed store finds nothing to copy and changes nothing, or its source keeps its
value and its target shows what the cell in which writes to it land makes of that value. So every
call that returns well comes, after some steps, to the end of its code with its own frame on top of
its caller's, and the value that its first parameter has there is handed back in this way to the
return slot, which is its first argument. -/
theorem values_copied_and_handed_back :
    (∀ (s s' : Store) (target source : Slot), s.WellTyped →
      StoreM.copy target source s = .ok () s' → s.Copied target source s') ∧
    ∀ (m m' : Machine) (module : ModuleId) (function : Function) (receiver : Option HeapId)
      (args : List Slot) (resume : Resume) (fuel : Nat) (formal : UInt64) (result : Slot),
      function.params.head? = some formal → args.head? = some result →
      let begun := Activity.ofEnding (MachineM.call module function receiver args resume m)
      begun.untilReturn m.frames.length fuel = some (.ok () m') →
      ∃ loaded n ended ip, m.registry.module module = .ok loaded ∧
        Activity.step^[n] begun = ⟨ended, none⟩ ∧ function.code.size ≤ ip ∧
        ended.frames =
          ⟨module, loaded.heap, receiver, function, ip, some result, resume⟩ :: m.frames ∧
        ended.store.HandedBack ⟨loaded.heap, formal.toNat⟩ result m'.store := by
  refine ⟨fun s s' target source htyped h => StoreM.copied_of_copy h (.inl htyped), ?_⟩
  intro m m' module function receiver args resume fuel formal result hformal hresult begun hreturn
  cases hcall : MachineM.call module function receiver args resume m with
  | error e m₁ =>
    simp only [begun, hcall, Activity.ofEnding] at hreturn
    exact absurd hreturn Activity.untilReturn_some_ne
  | ok _ m₁ =>
    obtain ⟨loaded, hloaded, hframes⟩ := MachineM.frames_of_call hcall
    have hbegun : begun = ⟨m₁, none⟩ := by simp only [begun, hcall, Activity.ofEnding]
    have hcarries : begun.fault = none → Carries m.frames
        ⟨module, loaded.heap, receiver, function, 0, args.head?, resume⟩ begun.machine.frames := by
      intro _
      rw [hbegun]
      exact ⟨[], 0, hframes⟩
    obtain ⟨n, ended, hn, ip, hover, hip, hgive⟩ :=
      Activity.returnsFrom_of_untilReturn hcarries hreturn
    rw [hresult] at hover hgive
    exact ⟨loaded, n, ended, ip, hloaded, hn, hip, hover,
      StoreM.handedBack_of_copyBack hformal rfl (MachineM.copyBack_of_giveBack hgive)⟩

/-- A function that leaves the number 300 in its only parameter. -/
def give : Function := ⟨"give", false, [5], #[⟨.loadConst, [5, 0]⟩]⟩

/-- A program with that function, and with a byte declared in slot 4. -/
def giving : Image where
  constants := #[.long 300]
  heap := [[Tag.untyped], [Tag.untyped], [Tag.untyped], [Tag.untyped], [Tag.byte], [Tag.untyped]]
  classes := [⟨Image.topClass, [], [give]⟩]

/-- A machine on which that program is loaded. -/
def withGiving : Machine :=
  (Session.fresh.play [.load giving.encode]).machine

/-- A declared byte is copied onto itself by way of a reference and stays as it is. The number that a
function leaves is handed back to the declared byte, which shows it narrowed. -/
theorem handed_back_narrowed :
    (StoreM.sharedByte.WellTyped ∧
      ∃ s', StoreM.copy ⟨0, 0⟩ ⟨0, 1⟩ StoreM.sharedByte = .ok () s' ∧
        StoreM.sharedByte.Copied ⟨0, 0⟩ ⟨0, 1⟩ s') ∧
    give.params.head? = some 5 ∧
    ∃ m' ended : Machine, (Activity.ofEnding (MachineM.call 0 give none [⟨1, 4⟩] .proceed
        withGiving)).untilReturn withGiving.frames.length 2 = some (.ok () m') ∧
      ended.store.HandedBack ⟨1, 5⟩ ⟨1, 4⟩ m'.store ∧
      m'.store.value ⟨1, 4⟩ = .ok (.byte 44) ∧ m'.store.value ⟨1, 5⟩ = .ok (.long 300) := by
  obtain ⟨hcopies, hreturns⟩ := values_copied_and_handed_back
  have htyped : StoreM.sharedByte.WellTyped := by
    intro slot c hc
    obtain ⟨h, hh, hcell⟩ := Store.cell_eq_ok_iff.mp hc
    have hfits : ∀ h ∈ StoreM.sharedByte.heaps, ∀ c ∈ h.cells, c.Fits := by decide +kernel
    exact Cell.wellTyped_of_fits
      (hfits h (Array.mem_of_getElem? hh) c (Array.mem_of_getElem? hcell))
  refine ⟨⟨htyped, _, rfl, hcopies _ _ _ _ htyped rfl⟩, rfl, ?_⟩
  have hrun : ((Activity.ofEnding (MachineM.call 0 give none [⟨1, 4⟩] .proceed
      withGiving)).untilReturn withGiving.frames.length 2).map (fun ending =>
        ((Activity.ofEnding ending).fault, (Activity.ofEnding ending).machine.store.value ⟨1, 4⟩,
          (Activity.ofEnding ending).machine.store.value ⟨1, 5⟩)) =
      some (none, .ok (.byte 44), .ok (.long 300)) := by
    decide +kernel
  obtain ⟨ending, hending, hseen⟩ := Option.map_eq_some_iff.mp hrun
  cases ending with
  | error e m' => cases hseen
  | ok _ m' =>
    obtain ⟨loaded, n, ended, ip, hloaded, -, -, -, hback⟩ :=
      hreturns withGiving m' 0 give none [⟨1, 4⟩] .proceed 2 5 ⟨1, 4⟩ rfl rfl hending
    have hheap : loaded.heap = 1 := by
      have hknown : (withGiving.registry.module 0).map LoadedModule.heap = .ok 1 := by
        decide +kernel
      rw [hloaded] at hknown
      exact Except.ok.inj hknown
    rw [hheap] at hback
    simp only [Activity.ofEnding, Prod.mk.injEq, true_and] at hseen
    exact ⟨m', ended, hending, hback, hseen.1, hseen.2⟩

end Machine

end SlotMachine
