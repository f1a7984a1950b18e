import SlotMachine.Proofs.CallStack
import Mathlib.Tactic.Common

/-!
# Operands

What decoding promises of the operands of an instruction is what its execution relies on. An
instruction is given to the handler of its opcode, which takes its operands apart; a handler that
reads positions instead of taking the whole list apart reads only positions that are there. In a
session all code is decoded, so that an instruction lacks operands only if it is a call that hands
over no slot.
-/

namespace SlotMachine

open SlotMachine.Action Fault

/-- The groups in which instructions are handled. -/
inductive Handler where
  /-- Instructions that do nothing. -/
  | idle
  /-- Instructions that are kept for older programs. -/
  | retired
  /-- Operations on numbers, bits and texts. -/
  | arithmetic
  /-- Comparisons. -/
  | comparison
  /-- Jumps. -/
  | control
  /-- Aliases, copies, constants and casts. -/
  | memory
  /-- Allocation, elements and members. -/
  | objects
  /-- Calls. -/
  | calls
  deriving DecidableEq

/-- The handler to which instructions with the opcode are given. -/
def Opcode.handler : Opcode → Handler
  | nop | wide => .idle
  | load | store | ptr => .retired
  | add | sub | mul | div | rem | neg | shl | shr | and | or | xor => .arithmetic
  | cmp => .comparison
  | branch | jump => .control
  | refer | copy | loadConst | convert | freeze => .memory
  | new | array | loadMember => .objects
  | invoke | invokeMethod => .calls

namespace MachineM

/-- What the handler of calls does. The name and the receiver are read by their positions. -/
def handleCall? (f : Frame) (i : Instruction) : Option (MachineM Flow) :=
  let leading := if i.opcode = .invokeMethod then 3 else 2
  match callSlots i leading with
  | .error e => some (throw e)
  | .ok slots => do
    let name ← i.operands[leading - 2]?
    match i.opcode with
    | .invoke => some (invoke f (.invoke name slots))
    | .invokeMethod =>
      let receiver ← i.operands[0]?
      some (invokeMethod f (.invokeMethod receiver name slots))
    | _ => none

/-- What a handler does with an instruction. It has nothing to do where it has no branch for the
opcode, or where it reads the position of an operand that is not there. -/
def handle? (f : Frame) (i : Instruction) : Handler → Option (MachineM Flow)
  | .idle => some (pure .next)
  | .retired => some (onStore do
      StoreM.warn (.deprecatedOpcode i.opcode)
      pure .next)
  | .arithmetic =>
    if i.opcode = .neg then some (onStore (Simple.negate f i))
    else (BinaryOp.ofOpcode? i.opcode).map fun op => onStore (Simple.arithmetic f op i)
  | .comparison => some (onStore (Simple.compare f i))
  | .control =>
    match i.opcode with
    | .branch => some (onStore (Simple.branch f i))
    | .jump => some (onStore (Simple.jump f i))
    | _ => none
  | .memory =>
    match i.opcode with
    | .refer => some (onStore (Simple.refer f i))
    | .copy => some (onStore (Simple.onSlots f i StoreM.copy))
    | .loadConst => some (do
        let registry := (← get).registry
        onStore (Simple.loadConst registry f i))
    | .convert => some (onStore (Simple.onSlots f i StoreM.cast))
    | .freeze => some (onStore (Simple.onSlots f i StoreM.bindConst))
    | _ => none
  | .objects =>
    match i.opcode with
    | .new => some (new f i)
    | .array => some (array f i)
    | .loadMember => some (loadMember f i)
    | _ => none
  | .calls => handleCall? f i

variable {i : Instruction} {slots : List UInt64} {leading : Nat} {e : Fault}

/-- What passes the check of a call: behind the leading operands, of which the last one is the count,
stand as many slots as it says. -/
theorem operands_of_callSlots (h : callSlots i (leading + 1) = .ok slots) :
    ∃ front, front.length = leading ∧
      i.operands = front ++ UInt64.ofNat slots.length :: slots := by
  unfold callSlots at h
  dsimp only at h
  split at h
  · rename_i hcheck
    cases h
    obtain ⟨hlength, -, hcount⟩ := hcheck
    have hlast : leading < i.operands.length := hlength
    have hsame : UInt64.ofNat (i.operands.drop (leading + 1)).length = i.operands[leading] := by
      rw [hcount, Nat.add_sub_cancel, List.getElem?_eq_getElem hlast]
      exact UInt64.ofNat_toNat
    refine ⟨i.operands.take leading, List.length_take_of_le hlast.le, ?_⟩
    rw [hsame, ← List.drop_eq_getElem_cons hlast, List.take_append_drop]
  · cases h

/-- An action that first checks something fails if the check does. -/
theorem bind_of_check {α : Type} {check : Except Fault α} {next : α → MachineM Flow}
    (h : check = .error e) : (ask (fun _ => check) >>= next) = throw e := by
  subst h
  rfl

/-- A call of a free function reads its name where it is. -/
theorem handleCall?_of_invoke (f : Frame) (hopcode : i.opcode = .invoke) :
    handleCall? f i = some (invoke f i) := by
  obtain ⟨opcode, operands⟩ := i
  subst hopcode
  unfold handleCall?
  simp only [reduceCtorEq, if_false]
  cases hslots : callSlots ⟨.invoke, operands⟩ 2 with
  | error e =>
    have hfails : invoke f ⟨.invoke, operands⟩ = throw e := bind_of_check hslots
    rw [hfails]
  | ok slots =>
    obtain ⟨front, hfront, hoperands⟩ := operands_of_callSlots hslots
    obtain ⟨name, rfl⟩ := List.length_eq_one_iff.mp hfront
    subst hoperands
    rfl

/-- A call of a method reads its receiver and its name where they are. -/
theorem handleCall?_of_invokeMethod (f : Frame) (hopcode : i.opcode = .invokeMethod) :
    handleCall? f i = some (invokeMethod f i) := by
  obtain ⟨opcode, operands⟩ := i
  subst hopcode
  unfold handleCall?
  simp only [if_true]
  cases hslots : callSlots ⟨.invokeMethod, operands⟩ 3 with
  | error e =>
    have hfails : invokeMethod f ⟨.invokeMethod, operands⟩ = throw e := bind_of_check hslots
    rw [hfails]
  | ok slots =>
    obtain ⟨front, hfront, hoperands⟩ := operands_of_callSlots hslots
    obtain ⟨receiver, name, rfl⟩ := List.length_eq_two.mp hfront
    subst hoperands
    rfl

/-- Every instruction is executed by the handler of its opcode, which has a branch for it and finds
the operands that it reads. -/
theorem handle?_handler (f : Frame) (i : Instruction) :
    handle? f i i.opcode.handler = some (execute f i) := by
  obtain ⟨opcode, operands⟩ := i
  cases opcode
  case invoke => exact handleCall?_of_invoke f rfl
  case invokeMethod => exact handleCall?_of_invokeMethod f rfl
  all_goals rfl

end MachineM

/-- The opcodes that count their operands are the calls. -/
theorem Opcode.isCall_of_counted {op : Opcode} {leading : Nat} (h : op.arity = .counted leading) :
    op = .invoke ∧ leading = 2 ∨ op = .invokeMethod ∧ leading = 3 := by
  cases op <;> cases h
  · exact .inl ⟨rfl, rfl⟩
  · exact .inr ⟨rfl, rfl⟩

namespace Instruction

variable {i : Instruction} {e : Fault}

/-- A call that hands over no slot, not even one for the value that it returns. -/
def HandsOverNothing (i : Instruction) : Prop :=
  i.opcode = .invoke ∧ i.operands[1]? = some 0 ∨
    i.opcode = .invokeMethod ∧ i.operands[2]? = some 0

/-- The check of a call whose operands are as many as its count says fails only on the count. -/
theorem count_of_callSlots {leading : Nat} {count : UInt64}
    (hcount : i.operands[leading - 1]? = some count)
    (hlength : i.operands.length = leading + count.toNat) (hsmall : leading + 1 < UInt64.size)
    (h : MachineM.callSlots i leading = .error e) :
    count = 0 ∧ e = i.wrongCount (leading + 1) := by
  unfold MachineM.callSlots at h
  have hslots : (i.operands.drop leading).length = count.toNat := by
    rw [List.length_drop]
    omega
  have hleading : leading ≤ i.operands.length := by omega
  simp only [hcount, Option.getD_some, hslots, hleading, true_and, and_true] at h
  split at h
  · cases h
  · rename_i hpositive
    have hzero : count = 0 := UInt64.toNat_inj.mp (Nat.eq_zero_of_not_pos hpositive)
    subst hzero
    have hneeded : leading + max (UInt64.toNat 0) 1 = leading + 1 := rfl
    rw [hneeded, if_pos hsmall] at h
    exact ⟨rfl, (Except.error.inj h).symm⟩

/-- An instruction that has the operands its opcode demands lacks operands only if it is a call that
hands over nothing, and then one more would do. -/
theorem HasArity.handsOverNothing (hi : i.HasArity) (h : i.Miscounts e) :
    i.HandsOverNothing ∧ e = i.wrongCount (i.operands.length + 1) := by
  unfold HasArity at hi
  unfold Miscounts at h
  cases harity : i.opcode.arity with
  | fixed count =>
    rw [harity] at hi h
    exact absurd hi h.1
  | counted leading =>
    rw [harity] at hi h
    obtain ⟨count, hcount, hlength⟩ := hi
    rcases Opcode.isCall_of_counted harity with ⟨hopcode, rfl⟩ | ⟨hopcode, rfl⟩
    · obtain ⟨rfl, rfl⟩ := count_of_callSlots hcount hlength (by decide) h
      rw [hlength]
      exact ⟨.inl ⟨hopcode, hcount⟩, rfl⟩
    · obtain ⟨rfl, rfl⟩ := count_of_callSlots hcount hlength (by decide) h
      rw [hlength]
      exact ⟨.inr ⟨hopcode, hcount⟩, rfl⟩

end Instruction

/-- The native functions never answer that an instruction lacks operands. -/
def NativeTable.NeverMiscounts (natives : NativeTable) : Prop :=
  ∀ op expected got, ¬ natives.Raises (.operandCount op expected got)

/-- The standard ones do not. -/
theorem NativeTable.neverMiscounts_standard : standard.NeverMiscounts := by
  intro op expected got h
  rcases runOrRefused_of_standard h with (hrun | hcrash) | ⟨reason, hrefused⟩
  · cases hrun
  · cases hcrash
  · cases hrefused

/-- The source never answers that an instruction lacks operands. -/
def Source.NeverMiscounts (fetch : String → Except Fault (List UInt8)) : Prop :=
  ∀ file op expected got, fetch file ≠ .error (.operandCount op expected got)

/-- With such a source no fault that may arise says so. -/
theorem Source.NeverMiscounts.not_arises {fetch : String → Except Fault (List UInt8)}
    (h : NeverMiscounts fetch) (op : Opcode) (expected got : Nat) :
    ¬ Arises fetch (.operandCount op expected got) := by
  rintro ((hrun | hcrash) | hload | ⟨file, hfile⟩)
  · cases hrun
  · cases hcrash
  · cases hload
  · exact h file op expected got hfile

/-- A source that fails only for a reason outside the machine is one. -/
theorem Source.FailsOutside.neverMiscounts {fetch : String → Except Fault (List UInt8)}
    (h : FailsOutside fetch) : NeverMiscounts fetch := by
  intro file op expected got hfile
  obtain ⟨path, reason, hio⟩ := h file _ hfile
  cases hio

namespace Session

/-- The step that comes next is a call that hands over nothing, and the fault says that one operand
more is needed. -/
structure CallsWithNothing (s : Session) (e : Fault) : Prop where
  /-- So far there is no fault. -/
  none_before : s.fault = none
  /-- The call comes next, and it is what the fault is about. -/
  about : ∃ i, s.machine.present? = some i ∧ i.HandsOverNothing ∧
    e = i.wrongCount (i.operands.length + 1)
  /-- The next step raises the fault. -/
  raised : s.tick.fault = some e

section Decoded

variable {settings : Settings} {source : Source} {sink : Sink} {natives : NativeTable}

/-- A machine on which nothing is loaded provides only what can be read from bytes. -/
theorem legible_of_create {f : Function}
    (h : (Machine.create settings source sink natives).registry.Provides f) : f.Legible := by
  rcases h with ⟨name, c, hc, -⟩ | hlegible
  · cases hc
  · exact hlegible

/-- In a session that begins with such a machine, all code that is run has been decoded. -/
theorem legible_frames (events : List HostEvent) :
    ∀ f ∈ ((Machine.create settings source sink natives).atRest.play events).machine.frames,
      f.function.Legible := by
  intro f hf
  have hs : ((Machine.create settings source sink natives).atRest.play events).Disciplined
      (Machine.create settings source sink natives) fun _ => True :=
    Machine.disciplined_play rfl (fun _ => trivial) (fun _ _ _ _ => trivial)
      fun _ _ _ _ _ => trivial
  exact legible_of_create (hs.callable f hf)

/-- The instruction that comes next has the operands that its opcode demands. -/
theorem hasArity_present (events : List HostEvent) {i : Instruction}
    (h : ((Machine.create settings source sink natives).atRest.play events).machine.present? =
      some i) : i.HasArity := by
  obtain ⟨f, hf, hcode⟩ := Option.bind_eq_some_iff.mp h
  have hlegible := legible_frames events f (List.mem_of_mem_head? hf)
  exact hlegible.code_arity i (Array.mem_of_getElem? hcode)

/-- A fault that says that operands are lacking was raised by an instruction that lacks them. -/
theorem miscounts_of_fault {m : Machine} (hframes : m.frames = [])
    (hnatives : m.natives.NeverMiscounts) {events : List HostEvent}
    (hsources : ∀ fetch ∈ m.sources events, Source.NeverMiscounts fetch) {op : Opcode}
    {expected got : Nat}
    (h : (m.atRest.play events).fault = some (.operandCount op expected got)) :
    ∃ earlier later, events = earlier ++ .tick :: later ∧
      (m.atRest.play earlier).Miscounts (.operandCount op expected got) := by
  have hs : (m.atRest.play events).Disciplined m fun e => ∀ op expected got,
      e = .operandCount op expected got → ∃ earlier later, events = earlier ++ .tick :: later ∧
        (m.atRest.play earlier).Miscounts e := by
    apply Machine.disciplined_play hframes
    · rintro e he op expected got rfl
      exact absurd he (hnatives op expected got)
    · rintro fetch hfetch e he op expected got rfl
      exact absurd he ((hsources fetch hfetch).not_arises op expected got)
    · intro earlier later hevents e he _ _ _ _
      exact ⟨earlier, later, hevents, he⟩
  exact hs.kind_of_fault h op expected got rfl

end Decoded

/-- Decoding and execution agree on operands. Whatever is decoded has the operands that the opcodes
demand, a parameter that collects wherever a method is variadic, and complete types. Every
instruction goes to a handler that has a branch for it and reads only operands that are there. And
in every session, whose code is all decoded, the fault that operands are lacking is raised by a call
that hands over nothing, unless the host's own functions or sources of modules give that answer. -/
theorem operands_decoded_and_handled :
    (∀ (bytes : List UInt8) (image : Image), Image.decode bytes = .ok image →
      (∀ tags ∈ image.heap, Tag.IsComplete tags) ∧
      ∀ c ∈ image.classes, (∀ member ∈ c.members, Tag.IsComplete member.tags) ∧
        ∀ f ∈ c.methods, (f.variadic = true → 2 ≤ f.params.length) ∧
          ∀ i ∈ f.code, i.HasArity) ∧
    (∀ (f : Frame) (i : Instruction),
      MachineM.handle? f i i.opcode.handler = some (MachineM.execute f i)) ∧
    ∀ (settings : Settings) (source : Source) (sink : Sink) (natives : NativeTable)
        (events : List HostEvent),
      let m := Machine.create settings source sink natives
      (∀ f ∈ (m.atRest.play events).machine.frames, ∀ i ∈ f.function.code, i.HasArity) ∧
      (natives.NeverMiscounts → (∀ fetch ∈ m.sources events, Source.NeverMiscounts fetch) →
        ∀ op expected got, (m.atRest.play events).fault = some (.operandCount op expected got) →
          ∃ earlier later, events = earlier ++ .tick :: later ∧
            (m.atRest.play earlier).CallsWithNothing (.operandCount op expected got)) := by
  refine ⟨?_, MachineM.handle?_handler, ?_⟩
  · intro bytes image hdecode
    have hlegible := Image.legible_of_decode hdecode
    refine ⟨hlegible.heap_complete, ?_⟩
    intro c hc
    have hclass := hlegible.classes_legible c hc
    refine ⟨fun member hmember => (hclass.members_legible member hmember).tags_complete, ?_⟩
    intro f hf
    have hmethod := hclass.methods_legible f hf
    exact ⟨hmethod.variadic_params, hmethod.code_arity⟩
  · intro settings source sink natives events m
    refine ⟨fun f hf => (legible_frames events f hf).code_arity, ?_⟩
    intro hnatives hsources op expected got hfault
    obtain ⟨earlier, later, hevents, hnone, ⟨i, hpresent, hi⟩, hraised⟩ :=
      miscounts_of_fault rfl hnatives hsources hfault
    have hempty := (hasArity_present earlier hpresent).handsOverNothing hi
    exact ⟨earlier, later, hevents, hnone, ⟨i, hpresent, hempty⟩, hraised⟩

/-- A program whose entry method calls a method of its own instance and hands over nothing. -/
def hollow : Image where
  constants := #[.text "gather"]
  heap := [[Tag.untyped], [Tag.untyped], [Tag.untyped], [Tag.untyped], [Tag.array, Tag.long]]
  classes := [⟨Image.topClass, [⟨"kept", [Tag.const, Tag.string]⟩],
    [⟨Image.entryMethod, false, [], #[⟨.loadConst, [3, 0]⟩, ⟨.invokeMethod, [0, 3, 0]⟩]⟩,
      ⟨"gather", true, [3, 4], #[]⟩]⟩]

/-- A machine to run it. -/
def plainMachine : Machine :=
  Machine.create ⟨".", 2, 100⟩ (Source.ofFiles []) Sink.empty NativeTable.standard

/-- Loading and starting the program, up to the call and beyond. -/
def throughTheCall : List HostEvent :=
  [.load hollow.encode, .start, .tick, .tick, .tick, .tick]

/-- Decoding lets the call pass, and running it raises the fault. -/
theorem callsWithNothing_hollow :
    Image.decode hollow.encode = .ok hollow ∧
      (∀ c ∈ hollow.classes, ∀ f ∈ c.methods, ∀ i ∈ f.code, i.HasArity) ∧
      (plainMachine.atRest.play throughTheCall).fault = some (.operandCount .invokeMethod 4 3) ∧
      ∃ earlier later, throughTheCall = earlier ++ .tick :: later ∧
        (plainMachine.atRest.play earlier).CallsWithNothing (.operandCount .invokeMethod 4 3) := by
  have hdecode : Image.decode hollow.encode = .ok hollow := by decide +kernel
  have hfault : (plainMachine.atRest.play throughTheCall).fault =
      some (.operandCount .invokeMethod 4 3) := by decide +kernel
  have hsources : ∀ fetch ∈ plainMachine.sources throughTheCall, Source.NeverMiscounts fetch := by
    intro fetch hfetch
    obtain rfl := List.mem_singleton.mp hfetch
    exact (Source.failsOutside_ofFiles []).neverMiscounts
  obtain ⟨hdecoded, -, hruns⟩ := operands_decoded_and_handled
  obtain ⟨-, hclasses⟩ := hdecoded _ _ hdecode
  obtain ⟨-, hcalls⟩ := hruns ⟨".", 2, 100⟩ (Source.ofFiles []) Sink.empty NativeTable.standard
    throughTheCall
  exact ⟨hdecode, fun c hc f hf => ((hclasses c hc).2 f hf).2, hfault,
    hcalls NativeTable.neverMiscounts_standard hsources _ _ _ hfault⟩

end Session

end SlotMachine
