import SlotMachine.Proofs.Integrity
import SlotMachine.Proofs.Machine.Locality
import SlotMachine.Proofs.Operation
import SlotMachine.Proofs.Starting
import Mathlib.Tactic.Common

/-!
# Texts that instructions build

The settings limit the bytes of a text that an instruction may build. There are two ways to build
one: a text is repeated, or two texts are joined. A repeated text keeps to the limit in every state
of every session; joined texts are not measured, and so they are the only ones that can exceed it.
-/

namespace SlotMachine

/-- The text has at most so many bytes, or more than any text can have. -/
def Text.Within (maxLen : Nat) (t : String) : Prop :=
  t.utf8ByteSize < UInt64.size → t.utf8ByteSize ≤ maxLen

namespace Operation

variable {op : BinaryOp} {v left right : Value} {maxLen : Nat}

/-- The operation is to join two texts into this one. -/
def Joins (op : BinaryOp) (left right : Value) (t : String) : Prop :=
  op = .add ∧ ∃ a b, left = .text a ∧ right = .text b ∧ t = a ++ b

/-- A repeated text has as many bytes as all its copies together. -/
theorem utf8ByteSize_join_replicate (t : String) (count : Nat) :
    (String.join (List.replicate count t)).utf8ByteSize = t.utf8ByteSize * count := by
  induction count with
  | zero => simp
  | succ count ih =>
    rw [List.replicate_succ, String.join_cons, String.utf8ByteSize_append, ih, Nat.mul_succ,
      Nat.add_comm]

/-- Repeating gives a text that keeps to the limit. -/
theorem within_repeatText {t : String} {count : Nat} (h : repeatText maxLen t count = .ok v) :
    ∃ built, v = .text built ∧ Text.Within maxLen built := by
  unfold repeatText at h
  dsimp only at h
  split at h
  · cases h
  · rename_i hlimit
    split at h
    · cases h
      exact ⟨"", rfl, fun _ => Nat.zero_le maxLen⟩
    · cases h
      refine ⟨_, rfl, fun hsize => ?_⟩
      rw [utf8ByteSize_join_replicate] at hsize ⊢
      omega

/-- What comes out of an operation: a number, an array handle, or a text that was joined or keeps to
the limit. -/
theorem result_of_binary (h : binary op left right maxLen = .ok v) :
    v.isNumeric = true ∨ (∃ a, v = .array a) ∨
      ∃ t, v = .text t ∧ (Joins op left right t ∨ Text.Within maxLen t) := by
  have hrepeated : ∀ {t : String} {count : Nat}, repeatText maxLen t count = .ok v →
      ∃ t, v = .text t ∧ (Joins op left right t ∨ Text.Within maxLen t) := by
    intro t count hrepeat
    obtain ⟨built, hv, hwithin⟩ := within_repeatText hrepeat
    exact ⟨built, hv, .inr hwithin⟩
  unfold binary at h
  split at h
  · exact .inl (isNumeric_of_numeric h)
  · split at h
    · cases h
      exact .inr (.inr ⟨_, rfl, .inl ⟨rfl, _, _, rfl, rfl, rfl⟩⟩)
    · split at h
      · exact .inr (.inr (hrepeated h))
      · cases h
    · split at h
      · exact .inr (.inr (hrepeated h))
      · cases h
    · split at h <;> cases h
      exact .inr (.inl ⟨_, rfl⟩)
    · split at h <;> cases h
      exact .inr (.inl ⟨_, rfl⟩)
    · split at h <;> cases h
      exact .inl rfl
    · split at h <;> cases h
      exact .inr (.inl ⟨_, rfl⟩)
    · cases h

end Operation

/-- Whether the instruction computes a number, a text or a handle from its operands. -/
def Opcode.isArithmetic (o : Opcode) : Bool :=
  o = .neg ∨ (BinaryOp.ofOpcode? o).isSome

/-- Arithmetic neither calls nor allocates. -/
theorem Opcode.isSimple_of_isArithmetic {o : Opcode} (h : o.isArithmetic = true) :
    o.isSimple = true := by
  cases o <;> first | rfl | cases h

/-- A text that a write has put into a cell is the value that was written. -/
theorem StoreM.eq_text_of_write {s s' : Store} {slot x : Slot} {v : Value} {c : Cell} {t : String}
    (hv : ∀ target, v ≠ .ref target) (h : write slot v s = .ok () s') (hc : s'.cell x = .ok c)
    (htext : c.value = .text t) (hnew : s.cell x ≠ .ok c) : v = .text t := by
  obtain ⟨landing, before, after, -, -, hafter, htakes, hdiffers⟩ := landing_of_write hv h
  obtain rfl : x = landing := by
    by_contra hother
    exact hnew ((hdiffers.cell_other x hother).symm.trans hc)
  obtain rfl : after = c := by simpa [hafter] using hc
  cases htakes with
  | undeclared _ => exact htext
  | declared _ _ => exact htext
  | converted _ _ _ hconvert =>
    have hnumeric := (Value.tag_of_convert? hconvert).2
    dsimp only at htext
    rw [htext] at hnumeric
    cases hnumeric

namespace Simple

open StoreM

variable {s s' : Store} {f : Frame} {i : Instruction} {op : BinaryOp} {flow : Flow}

/-- The instruction joins the texts that its operands have into this one. -/
def JoinsTexts (f : Frame) (i : Instruction) (s : Store) (t : String) : Prop :=
  i.opcode = .add ∧ ∃ result left right a b, i.operands = [result, left, right] ∧
    s.value (f.slot left) = .ok (.text a) ∧ s.value (f.slot right) = .ok (.text b) ∧ t = a ++ b

/-- An operation on two values that ends well has written its result. -/
theorem arithmetic_eq_ok (h : arithmetic f op i s = .ok flow s') :
    ∃ result left right l r v, i.operands = [result, left, right] ∧
      s.value (f.slot left) = .ok l ∧ s.value (f.slot right) = .ok r ∧
      Operation.binary op l r s.maxLen = .ok v ∧ write (f.slot result) v s = .ok () s' := by
  unfold arithmetic at h
  simp only [Action.bind_eq_ok_iff, ask_eq_ok_iff] at h
  obtain ⟨operands, _, ⟨hoperands, rfl⟩, l, _, ⟨hl, rfl⟩, r, _, ⟨hr, rfl⟩, v, _,
    ⟨hv, rfl⟩, _, s₁, hwrite, hpure⟩ := h
  cases hpure
  refine ⟨_, _, _, l, r, v, ?_, hl, hr, hv, hwrite⟩
  rw [Instruction.operands_of_exactly hoperands]
  obtain ⟨⟨listed⟩, hlength⟩ := operands
  obtain ⟨result, left, right, rfl⟩ := List.length_eq_three.mp hlength
  rfl

/-- A negation that ends well has written a number. -/
theorem negate_eq_ok (h : negate f i s = .ok flow s') :
    ∃ slot v, v.isNumeric = true ∧ write slot v s = .ok () s' := by
  unfold negate at h
  simp only [Action.bind_eq_ok_iff, ask_eq_ok_iff] at h
  obtain ⟨operands, _, ⟨-, rfl⟩, v, _, ⟨-, rfl⟩, negated, _, ⟨hneg, rfl⟩, _, s₁, hwrite, hpure⟩ := h
  cases hpure
  exact ⟨_, negated, Operation.isNumeric_of_neg hneg, hwrite⟩

/-- A text that an arithmetic instruction has put into a cell was joined from texts or keeps to the
limit. -/
theorem text_of_execute {r : Registry} (hi : i.opcode.isArithmetic = true)
    (h : execute r f i s = .ok flow s') {x : Slot} {c : Cell} {t : String}
    (hc : s'.cell x = .ok c) (htext : c.value = .text t) (hnew : s.cell x ≠ .ok c) :
    JoinsTexts f i s t ∨ Text.Within s.maxLen t := by
  have hnumber : ∀ {slot : Slot} {v : Value}, v.isNumeric = true → write slot v s ≠ .ok () s' := by
    intro slot v hnumeric hwrite
    have hv : ∀ target, v ≠ .ref target := by
      rintro target rfl
      cases hnumeric
    rw [eq_text_of_write hv hwrite hc htext hnew] at hnumeric
    cases hnumeric
  unfold execute at h
  cases hop : BinaryOp.ofOpcode? i.opcode with
  | none =>
    obtain hneg : i.opcode = .neg := by simpa [Opcode.isArithmetic, hop] using hi
    simp only [hneg] at h
    obtain ⟨slot, v, hnumeric, hwrite⟩ := negate_eq_ok h
    exact absurd hwrite (hnumber hnumeric)
  | some op =>
    simp only [hop] at h
    obtain ⟨result, left, right, l, r, v, hoperands, hl, hr, hv, hwrite⟩ := arithmetic_eq_ok h
    rcases Operation.result_of_binary hv with hnumeric | ⟨a, rfl⟩ | ⟨built, rfl, hbuilt⟩
    · exact absurd hwrite (hnumber hnumeric)
    · cases eq_text_of_write (by simp) hwrite hc htext hnew
    · obtain rfl : built = t := by
        simpa using eq_text_of_write (by simp) hwrite hc htext hnew
      rcases hbuilt with ⟨rfl, a, b, rfl, rfl, hjoined⟩ | hwithin
      · have hadd : i.opcode = .add := by
          cases hopcode : i.opcode <;> rw [hopcode] at hop <;> first | rfl | cases hop
        exact .inl ⟨hadd, result, left, right, a, b, hoperands, hl, hr, hjoined⟩
      · exact .inr hwithin

end Simple

namespace MachineM

variable {m m' : Machine} {f : Frame} {others : List Frame} {i : Instruction}

/-- Going where an instruction leads leaves the store alone. -/
theorem store_follow (f : Frame) (flow : Flow) (m : Machine) :
    Action.Ends (follow f flow) m (fun _ m' => m'.store = m.store)
      fun _ m' => m'.store = m.store := by
  have hset : ∀ next : Frame → Nat, Action.Ends (setIp next) m (fun _ m' => m'.store = m.store)
      fun _ m' => m'.store = m.store := fun next => Action.ends_of_ok (setIp_eq next m) rfl
  cases flow with
  | next => exact hset _
  | jump target =>
    rw [follow]
    split
    · exact hset _
    · exact Action.ends_throw rfl
  | enter => exact Action.ends_pure rfl

/-- A step at a simple instruction leaves the store as it was or as the instruction makes it. -/
theorem store_step (hframes : m.frames = f :: others) (hcode : f.function.code[f.ip]? = some i)
    (hi : i.opcode.isSimple = true) :
    let Result := fun s' : Store =>
      s' = m.store ∨ ∃ flow, Simple.execute m.registry f i m.store = .ok flow s'
    Action.Ends step m (fun _ m' => Result m'.store) fun _ m' => Result m'.store := by
  intro Result
  unfold step
  apply Action.ends_get_bind
  rw [hframes]
  dsimp only
  rw [hcode]
  dsimp only
  have hexecute : Action.Ends (execute f i) m (fun _ m' => Result m'.store)
      fun _ m' => Result m'.store := by
    have hlocal := Simple.local_execute m.registry f i m.store
    rw [Action.Ends, execute_of_isSimple hi, onStore_eq]
    cases hresult : Simple.execute m.registry f i m.store with
    | ok flow s' => exact .inr ⟨flow, hresult⟩
    | error e s' => exact .inl (hlocal.of_error hresult)
  refine hexecute.bind fun flow m₁ hm₁ => ?_
  apply (store_follow f flow m₁).mono
  · intro _ m₂ hm₂
    rw [hm₂]
    exact hm₁
  · intro _ m₂ hm₂
    rw [hm₂]
    exact hm₁

end MachineM

namespace Session

variable {s : Session} {f : Frame} {others : List Frame} {i : Instruction}

/-- A tick at a simple instruction leaves the store as it was or as the instruction makes it. -/
theorem store_tick (hframes : s.machine.frames = f :: others)
    (hcode : f.function.code[f.ip]? = some i) (hi : i.opcode.isSimple = true) :
    (s.act .tick).machine.store = s.machine.store ∨
      ∃ flow, Simple.execute s.machine.registry f i s.machine.store =
        .ok flow (s.act .tick).machine.store := by
  by_cases hphase : s.phase = .idle
  · left
    simp only [act, tick, hphase]
  · rw [machine_tick hphase hframes]
    cases hfault : s.fault with
    | some e =>
      obtain ⟨frames, -, hstep⟩ := Activity.step_some s.machine e
      rw [hstep]
      exact .inl rfl
    | none =>
      have hstep := MachineM.store_step hframes hcode hi
      rw [Activity.step_none]
      cases hresult : MachineM.step s.machine with
      | ok _ m' => exact hstep.of_ok hresult
      | error e m' => exact hstep.of_error hresult

/-- A text that comes out of an operation has at most as many bytes as the limit allows, unless it
was joined from two texts, which is never refused. So in every state of every session, a text that
an arithmetic instruction puts into a cell keeps to the limit of the settings, unless it is an
addition whose operands have texts that it joins. -/
theorem texts_keep_to_limit_unless_joined (settings : Settings) (source : Source) (sink : Sink)
    (events : List HostEvent) :
    let s := (create settings source sink).play events
    let next := (s.act .tick).machine
    (∀ op left right maxLen t, Operation.binary op left right maxLen = .ok (.text t) →
      Operation.Joins op left right t ∨ Text.Within maxLen t) ∧
    (∀ a b maxLen, Operation.binary .add (.text a) (.text b) maxLen = .ok (.text (a ++ b)) ∧
      (a ++ b).utf8ByteSize = a.utf8ByteSize + b.utf8ByteSize) ∧
    ∀ f others i x c t, s.machine.frames = f :: others → f.function.code[f.ip]? = some i →
      i.opcode.isArithmetic = true → next.store.cell x = .ok c → c.value = .text t →
      s.machine.store.cell x ≠ .ok c →
      Simple.JoinsTexts f i s.machine.store t ∨ Text.Within settings.maxObjectLen t := by
  intro s next
  refine ⟨?_, fun a b maxLen => ⟨rfl, String.utf8ByteSize_append⟩, ?_⟩
  · intro op left right maxLen t h
    rcases Operation.result_of_binary h with hnumeric | ⟨a, ha⟩ | ⟨built, hbuilt, hlimit⟩
    · cases hnumeric
    · cases ha
    · cases hbuilt
      exact hlimit
  · intro f others i x c t hframes hcode hi hc htext hnew
    obtain ⟨hsound, hsettings, -⟩ := sound_session settings source sink events []
    have hlimit : s.machine.store.maxLen = settings.maxObjectLen := by
      rw [hsound.maxLen, hsettings]
    rcases store_tick hframes hcode (Opcode.isSimple_of_isArithmetic hi) with
      hsame | ⟨flow, hexecute⟩
    · rw [show next.store = s.machine.store from hsame] at hc
      exact absurd hc hnew
    · rw [← hlimit]
      exact Simple.text_of_execute hi hexecute hc htext hnew

/-- Settings under which an instruction may build texts of four bytes. -/
def fourBytes : Settings := { Settings.standard with maxObjectLen := 4 }

/-- A program whose entry method computes with two constants. -/
def computing (opcode : Opcode) (left right : Value) : Image where
  constants := #[left, right]
  heap := List.replicate 6 [Tag.untyped]
  classes := [⟨Image.topClass, [], [⟨Image.entryMethod, false, [],
    #[⟨.loadConst, [3, 0]⟩, ⟨.loadConst, [4, 1]⟩, ⟨opcode, [5, 3, 4]⟩]⟩]⟩]

/-- The program is started, up to where it computes. -/
def startedComputing (opcode : Opcode) (left right : Value) : List HostEvent :=
  [.load (computing opcode left right).encode, .start, .tick, .tick, .tick]

/-- A text that is repeated up to the limit keeps to it. -/
theorem repeated_within_fourBytes :
    let s := (create fourBytes Source.empty Sink.empty).play
      (startedComputing .mul (.text "ab") (.long 2))
    (s.act .tick).machine.store.cell ⟨1, 5⟩ = .ok (Cell.holding (.text "abab")) ∧
      s.machine.store.cell ⟨1, 5⟩ = .ok Cell.free ∧
      "abab".utf8ByteSize ≤ fourBytes.maxObjectLen := by
  intro s
  have hbuilt : (s.act .tick).machine.store.cell ⟨1, 5⟩ = .ok (Cell.holding (.text "abab")) := by
    decide +kernel
  have hbefore : s.machine.store.cell ⟨1, 5⟩ = .ok Cell.free := by decide +kernel
  have hlength : s.machine.frames.length = 1 := by decide +kernel
  have hpresent : s.machine.present?.map Instruction.opcode = some .mul := by decide +kernel
  obtain ⟨f, hframes⟩ := List.length_eq_one_iff.mp hlength
  obtain ⟨i, hi, hmul⟩ := Option.map_eq_some_iff.mp hpresent
  have hcode : f.function.code[f.ip]? = some i := by
    rw [Machine.present?, hframes] at hi
    exact hi
  have hnew : s.machine.store.cell ⟨1, 5⟩ ≠ .ok (Cell.holding (.text "abab")) := by
    rw [hbefore]
    decide
  obtain ⟨-, -, htexts⟩ := texts_keep_to_limit_unless_joined fourBytes Source.empty Sink.empty
    (startedComputing .mul (.text "ab") (.long 2))
  refine ⟨hbuilt, hbefore, ?_⟩
  rcases htexts f [] i ⟨1, 5⟩ _ "abab" hframes hcode (by rw [hmul]; rfl) hbuilt rfl hnew with
    ⟨hadd, -⟩ | hwithin
  · rw [hmul] at hadd
    cases hadd
  · exact hwithin (by decide)

/-- Two texts of three bytes are joined into one of six. -/
theorem joined_beyond_fourBytes :
    Operation.binary .add (.text "abc") (.text "def") fourBytes.maxObjectLen =
      .ok (.text "abcdef") ∧
    (((create fourBytes Source.empty Sink.empty).play
        (startedComputing .add (.text "abc") (.text "def"))).act .tick).machine.store.cell ⟨1, 5⟩ =
      .ok (Cell.holding (.text "abcdef")) ∧
    fourBytes.maxObjectLen < "abcdef".utf8ByteSize := by
  refine ⟨?_, ?_, ?_⟩ <;> decide +kernel

end Session

end SlotMachine
