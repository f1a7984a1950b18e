import SlotMachine.Proofs.Machine.Turns
import Mathlib.Logic.Function.Iterate
import Mathlib.Tactic.Common

/-!
# Calls that return

A call returns when the end of its code is reached and its frame is given back, or when a fault has
left its frame. Until then the frames of its callers lie below its own and are not touched, so the
frames are the same before a call and after it, whether it returns well or with a fault.
-/

namespace SlotMachine

open SlotMachine.Action

/-- Above the frames of its callers lies the frame of a call, at whatever instruction it is, and
possibly frames of calls that it has begun itself. -/
def Carries (below : List Frame) (callee : Frame) (frames : List Frame) : Prop :=
  ∃ inner ip, frames = inner ++ { callee with ip := ip } :: below

namespace Carries

variable {below frames frames' others : List Frame} {callee f : Frame} {limit : Nat}
  {callable : Function → Prop} {fault : Option Fault}

theorem cons (h : Carries below callee frames) (g : Frame) : Carries below callee (g :: frames) := by
  obtain ⟨inner, ip, rfl⟩ := h
  exact ⟨g :: inner, ip, rfl⟩

/-- The frames of the callers lie below. -/
theorem suffix (h : Carries below callee frames) : below <:+ frames := by
  obtain ⟨inner, ip, rfl⟩ := h
  exact ⟨inner ++ [{ callee with ip := ip }], by simp⟩

theorem length_lt (h : Carries below callee frames) : below.length < frames.length := by
  obtain ⟨inner, ip, rfl⟩ := h
  simp only [List.length_append, List.length_cons]
  omega

/-- The innermost frame is the call's own, or it lies above that. -/
theorem head (h : Carries below callee (f :: others)) :
    (others = below ∧ f = { callee with ip := f.ip }) ∨ Carries below callee others := by
  obtain ⟨inner, ip, hframes⟩ := h
  cases inner with
  | nil =>
    obtain ⟨rfl, rfl⟩ := List.cons.inj hframes
    exact .inl ⟨rfl, rfl⟩
  | cons g inner => exact .inr ⟨inner, ip, (List.cons.inj hframes).2⟩

/-- Going on with another instruction. -/
theorem redirect (h : Carries below callee frames) (next : Frame → Nat) :
    Carries below callee (Frame.redirect next frames) := by
  cases frames with
  | nil => exact absurd h.length_lt (Nat.not_lt_zero _)
  | cons f others =>
    rcases h.head with ⟨rfl, hf⟩ | hothers
    · exact ⟨[], next f, by rw [hf]; rfl⟩
    · exact hothers.cons _

/-- As long as the call's own code is not over, a step leaves its callers' frames alone, and without
a fault the call is still there. -/
theorem turn (h : Carries below callee frames) (hturn : Turn limit callable frames fault frames')
    (hrunning : ∀ f, frames = f :: below → f.ip < f.function.code.size) :
    below <:+ frames' ∧ (fault = none → Carries below callee frames') := by
  have hover : ∀ {f : Frame} {others : List Frame}, frames = f :: others →
      f.function.code.size ≤ f.ip → Carries below callee others := by
    rintro f others rfl hsize
    rcases h.head with ⟨rfl, -⟩ | hothers
    · have := hrunning f rfl
      omega
    · exact hothers
  cases hturn with
  | @goesOn f others ip _ _ =>
    have hgone := h.redirect fun _ => ip
    exact ⟨hgone.suffix, fun _ => hgone⟩
  | enters _ _ _ _ => exact ⟨(h.cons _).suffix, fun _ => h.cons _⟩
  | leaves hsize =>
    have hleft := (hover rfl hsize).redirect fun caller => caller.ip + 1
    exact ⟨hleft.suffix, fun _ => hleft⟩
  | stays _ => exact ⟨h.suffix, nofun⟩
  | drops hsize => exact ⟨(hover rfl hsize).suffix, nofun⟩

end Carries

/-- Above the frames of its callers lies the frame of a call, which knows what its caller waits for,
and possibly frames of calls that it has begun itself. -/
def Above (below : List Frame) (resume : Resume) (frames : List Frame) : Prop :=
  ∃ inner f, frames = inner ++ f :: below ∧ f.resume = resume

namespace Above

variable {below frames frames' others : List Frame} {resume : Resume} {f : Frame} {limit : Nat}
  {callable : Function → Prop} {fault : Option Fault}

/-- It is carried along as the frame of some call for which its caller waits so. -/
theorem iff_carries :
    Above below resume frames ↔ ∃ callee, callee.resume = resume ∧ Carries below callee frames := by
  constructor
  · rintro ⟨inner, f, hframes, hresume⟩
    exact ⟨f, hresume, inner, f.ip, hframes⟩
  · rintro ⟨callee, hresume, inner, ip, hframes⟩
    exact ⟨inner, { callee with ip := ip }, hframes, hresume⟩

theorem single (hresume : f.resume = resume) : Above below resume (f :: below) :=
  ⟨[], f, rfl, hresume⟩

/-- The frames of the callers lie below. -/
theorem suffix (h : Above below resume frames) : below <:+ frames := by
  obtain ⟨callee, -, hcallee⟩ := iff_carries.mp h
  exact hcallee.suffix

theorem length_lt (h : Above below resume frames) : below.length < frames.length := by
  obtain ⟨callee, -, hcallee⟩ := iff_carries.mp h
  exact hcallee.length_lt

/-- The innermost frame is the call's own, or it lies above that. -/
theorem head (h : Above below resume (f :: others)) :
    (others = below ∧ f.resume = resume) ∨ Above below resume others := by
  obtain ⟨callee, hresume, hcallee⟩ := iff_carries.mp h
  rcases hcallee.head with ⟨rfl, hf⟩ | hothers
  · exact .inl ⟨rfl, by rw [hf]; exact hresume⟩
  · exact .inr (iff_carries.mpr ⟨callee, hresume, hothers⟩)

/-- As long as the call's own code is not over, a step leaves its callers' frames alone, and without
a fault the call is still there. -/
theorem turn (h : Above below resume frames) (hturn : Turn limit callable frames fault frames')
    (hrunning : ∀ f, frames = f :: below → f.ip < f.function.code.size) :
    below <:+ frames' ∧ (fault = none → Above below resume frames') := by
  obtain ⟨callee, hresume, hcallee⟩ := iff_carries.mp h
  obtain ⟨hsuffix, hstill⟩ := hcallee.turn hturn hrunning
  exact ⟨hsuffix, fun hfault => iff_carries.mpr ⟨callee, hresume, hstill hfault⟩⟩

end Above

namespace Activity

/-- What comes of an action that has ended. -/
def ofEnding : Ending → Activity
  | .ok () m => ⟨m, none⟩
  | .error e m => ⟨m, some e⟩

/-- A step without a fault is the step of the machine. -/
theorem step_none (m : Machine) : step ⟨m, none⟩ = ofEnding (MachineM.step m) := by
  unfold step
  dsimp only
  cases MachineM.step m <;> rfl

/-- How a call that was begun at this depth returns, if it returns now. -/
def returning (depth : Nat) : Activity → Option Ending
  | ⟨m, some e⟩ => if m.depth = depth then some (.error e m) else none
  | ⟨m, none⟩ =>
    match m.frames with
    | [] => none
    | f :: others =>
      if others.length = depth ∧ f.function.code.size ≤ f.ip then some (MachineM.giveBack f m)
      else none

/-- Take steps until a call that was begun at this depth returns. -/
def untilReturn (depth : Nat) : Nat → Activity → Option Ending
  | 0, a => a.returning depth
  | fuel + 1, a =>
    match a.returning depth with
    | some ending => some ending
    | none => untilReturn depth fuel a.step

/-- What the caller makes of the end of its call. -/
def resumed (resume : Resume) : Ending → Activity
  | .ok () m => ofEnding ((do
      MachineM.perform resume
      MachineM.setIp fun caller => caller.ip + 1 : MachineM Unit) m)
  | .error e m => ⟨m, some e⟩

/-- A call that was begun with these frames has not returned yet. -/
structure Within (below : List Frame) (resume : Resume) (a : Activity) : Prop where
  /-- The frames of its callers are untouched. -/
  suffix : below <:+ a.machine.frames
  /-- As long as there is no fault, its own frame lies above them. -/
  above : a.fault = none → Above below resume a.machine.frames

variable {below : List Frame} {resume : Resume} {m : Machine} {e : Fault} {a : Activity}
  {ending : Ending} {depth : Nat}

theorem returning_some (m : Machine) (e : Fault) (depth : Nat) :
    returning depth ⟨m, some e⟩ = if m.depth = depth then some (.error e m) else none :=
  rfl

theorem returning_none {f : Frame} {others : List Frame} (hframes : m.frames = f :: others)
    (depth : Nat) :
    returning depth ⟨m, none⟩ =
      if others.length = depth ∧ f.function.code.size ≤ f.ip then some (MachineM.giveBack f m)
      else none := by
  simp only [returning, hframes]

/-- A call that does not return now is not at the end of its code. -/
theorem running_of_returning (hreturn : returning below.length ⟨m, none⟩ = none) (f : Frame)
    (hframes : m.frames = f :: below) : f.ip < f.function.code.size := by
  rw [returning_none hframes] at hreturn
  by_contra hover
  rw [if_pos ⟨rfl, Nat.le_of_not_lt hover⟩] at hreturn
  cases hreturn

/-- A call that has been begun, or refused. -/
theorem within_call (m : Machine) (module : ModuleId) (function : Function)
    (receiver : Option HeapId) (args : List Slot) (resume : Resume) :
    Within m.frames resume (ofEnding (MachineM.call module function receiver args resume m)) := by
  have hcall := MachineM.ends_call (Machine.Stays.refl m) module function receiver args resume
  cases hresult : MachineM.call module function receiver args resume m with
  | ok _ m' =>
    obtain ⟨heap, henters⟩ := hcall.of_ok hresult
    have habove : Above m.frames resume m'.frames := by
      rw [henters.frames]
      exact .single rfl
    exact ⟨habove.suffix, fun _ => habove⟩
  | error e m' =>
    have hframes : m'.frames = m.frames := (hcall.of_error hresult).stays.frames
    exact ⟨⟨[], hframes.symm⟩, nofun⟩

/-- A call that does not return now has not returned after the next step. -/
theorem Within.step (h : a.Within below resume) (hreturn : a.returning below.length = none) :
    a.step.Within below resume := by
  obtain ⟨m, fault⟩ := a
  cases fault with
  | some e =>
    cases hcrash : e.isCrash with
    | true =>
      rw [step_of_crash hcrash]
      exact h
    | false =>
      -- The fault leaves one frame, and the callers' are not reached yet.
      obtain ⟨above, habove⟩ := h.suffix
      rw [step_of_fault hcrash]
      refine ⟨?_, nofun⟩
      cases above with
      | nil =>
        have hdepth : m.depth = below.length := congrArg List.length habove.symm
        rw [returning_some, if_pos hdepth] at hreturn
        cases hreturn
      | cons f above => exact ⟨above, congrArg List.tail habove⟩
  | none =>
    have habove := h.above rfl
    have hne : m.frames ≠ [] := List.ne_nil_of_length_pos (Nat.zero_lt_of_lt habove.length_lt)
    obtain ⟨hsuffix, hstill⟩ := habove.turn (turns_step hne).turn (running_of_returning hreturn)
    exact ⟨hsuffix, hstill⟩

/-- The step at the end of a call's code gives the frame back, and the rest is the caller's. -/
theorem step_of_over {f : Frame} {others : List Frame} (hframes : m.frames = f :: others)
    (hover : f.function.code.size ≤ f.ip) :
    step ⟨m, none⟩ = resumed f.resume (MachineM.giveBack f m) := by
  have hstep : MachineM.step m = MachineM.leave f m := by
    have hget : (get : MachineM Machine) m = .ok m m := rfl
    have hcode : f.function.code[f.ip]? = none := Array.getElem?_eq_none_iff.mpr hover
    unfold MachineM.step
    rw [bind_of_ok hget]
    simp only [hframes, hcode]
  rw [step_none, hstep, MachineM.leave_eq]
  cases hgive : MachineM.giveBack f m with
  | ok _ m' =>
    rw [bind_of_ok hgive]
    rfl
  | error e m' =>
    rw [bind_of_error hgive]
    rfl

/-- Whether or not its value could be handed over, the frame of a call that has ended is gone. -/
theorem frames_giveBack {f : Frame} {others : List Frame} (hframes : m.frames = f :: others) :
    (ofEnding (MachineM.giveBack f m)).machine.frames = others := by
  have hgive := MachineM.ends_giveBack hframes
  cases hresult : MachineM.giveBack f m with
  | ok _ m' => exact (hgive.of_ok hresult).frames
  | error e m' => exact (hgive.of_error hresult).stays.frames

/-- A call returns with its callers' frames as they were, and the machine goes on with what the
caller makes of it. -/
theorem Within.of_returning (h : a.Within below resume)
    (hreturn : a.returning below.length = some ending) :
    (ofEnding ending).machine.frames = below ∧
      ∃ n, Activity.step^[n] a = resumed resume ending := by
  obtain ⟨m, fault⟩ := a
  cases fault with
  | some e =>
    rw [returning_some] at hreturn
    split at hreturn
    · rename_i hdepth
      cases hreturn
      have hframes : below = m.frames := h.suffix.eq_of_length hdepth.symm
      exact ⟨hframes.symm, 0, rfl⟩
    · cases hreturn
  | none =>
    have habove : Above below resume m.frames := h.above rfl
    cases hframes : m.frames with
    | nil =>
      have hlength := habove.length_lt
      rw [hframes] at hlength
      exact absurd hlength (Nat.not_lt_zero _)
    | cons f others =>
      rw [returning_none hframes] at hreturn
      split at hreturn
      · rename_i hover
        cases hreturn
        rw [hframes] at habove
        rcases habove.head with ⟨rfl, rfl⟩ | hothers
        · exact ⟨frames_giveBack hframes, 1, step_of_over hframes hover.2⟩
        · have hlength := hothers.length_lt
          omega
      · cases hreturn

/-- A call that returns after some steps leaves its callers' frames as they were, and the machine
comes to what the caller makes of it. -/
theorem Within.of_untilReturn (h : a.Within below resume) {fuel : Nat}
    (hreturn : a.untilReturn below.length fuel = some ending) :
    (ofEnding ending).machine.frames = below ∧
      ∃ n, Activity.step^[n] a = resumed resume ending := by
  induction fuel generalizing a with
  | zero => exact h.of_returning hreturn
  | succ fuel ih =>
    unfold untilReturn at hreturn
    split at hreturn
    · rename_i ending' hnow
      cases hreturn
      exact h.of_returning hnow
    · rename_i hlater
      obtain ⟨hframes, n, hn⟩ := ih (h.step hlater) hreturn
      refine ⟨hframes, n + 1, ?_⟩
      rw [Function.iterate_succ_apply]
      exact hn

/-- A call returns if the machine's steps bring it back to the depth at which the call was begun. -/
theorem Within.exists_untilReturn (h : a.Within below resume) {n : Nat}
    (hback : (Activity.step^[n] a).machine.depth ≤ below.length) :
    ∃ fuel ending, a.untilReturn below.length fuel = some ending := by
  induction n generalizing a with
  | zero =>
    obtain ⟨m, fault⟩ := a
    have hdepth : m.depth ≤ below.length := hback
    cases fault with
    | some e =>
      have hlength : below.length ≤ m.depth := h.suffix.length_le
      refine ⟨0, .error e m, ?_⟩
      rw [untilReturn, returning_some, if_pos (Nat.le_antisymm hdepth hlength)]
    | none =>
      have hlength : below.length < m.depth := (h.above rfl).length_lt
      omega
  | succ n ih =>
    cases hreturn : a.returning below.length with
    | some ending => exact ⟨0, ending, hreturn⟩
    | none =>
      rw [Function.iterate_succ_apply] at hback
      obtain ⟨fuel, ending, hlater⟩ := ih (h.step hreturn) hback
      refine ⟨fuel + 1, ending, ?_⟩
      rw [untilReturn, hreturn]
      exact hlater

end Activity

end SlotMachine
