import SlotMachine.Machine.Call
import SlotMachine.Proofs.Image.Faults
import SlotMachine.Proofs.Linkage
import SlotMachine.Proofs.Store.Faults
import Mathlib.Data.List.Basic

/-!
# Faults of instructions, native functions and linking

Instructions that work on values and on the store alone fail with run faults, or because they lack
operands. A standard native function may besides pass on the refusal of the sink, and linking the
faults of reading a module and whatever the source of modules answers.
-/

namespace SlotMachine

namespace Operation

open Answer Fault

theorem raises_long (op : BinaryOp) (a b : Int64) : Raises Run (long op a b) := by
  cases op <;> simp only [long] <;> repeat' split
  all_goals first | exact raises_ok _ | exact raises_error rfl

theorem raises_uint64 (op : BinaryOp) (a b : UInt64) : Raises Run (uint64 op a b) := by
  cases op <;> simp only [uint64] <;> repeat' split
  all_goals first | exact raises_ok _ | exact raises_error rfl

theorem raises_double (op : BinaryOp) (a b : Double) : Raises Run (double op a b) := by
  cases op <;> first | exact raises_ok _ | exact raises_error rfl

theorem raises_numeric (op : BinaryOp) (left right : Value) : Raises Run (numeric op left right) := by
  unfold numeric
  split
  · exact (raises_long op _ _).map _
  · exact raises_long op _ _
  · exact raises_uint64 op _ _
  · exact raises_double op _ _
  · exact raises_error rfl

theorem raises_repeatText (maxLen : Nat) (s : String) (count : Nat) :
    Raises Run (repeatText maxLen s count) := by
  unfold repeatText
  dsimp only
  split
  · exact raises_error rfl
  · split <;> exact raises_ok _

/-- An operation on two values fails with run faults only. -/
theorem raises_binary (op : BinaryOp) (left right : Value) (maxLen : Nat) :
    Raises Run (binary op left right maxLen) := by
  unfold binary
  split
  · exact raises_numeric op left right
  · repeat' split
    all_goals first | exact raises_ok _ | exact raises_error rfl | exact raises_repeatText _ _ _

theorem raises_neg (v : Value) : Raises Run (neg v) := by
  cases v <;> first | exact raises_ok _ | exact raises_error rfl

theorem raises_compare (op : Comparison) (left right : Value) :
    Raises Run (compare op left right) := by
  unfold compare
  repeat' split
  all_goals first | exact raises_ok _ | exact raises_error rfl

end Operation

namespace Instruction

variable {i : Instruction} {count : Nat} {e : Fault}

/-- The fault says that the instruction lacks operands that it needs: as many as its opcode demands,
and in a call at least one slot to hand over. -/
def Miscounts (i : Instruction) (e : Fault) : Prop :=
  match i.opcode.arity with
  | .fixed count => i.operands.length ≠ count ∧ e = i.wrongCount count
  | .counted leading => MachineM.callSlots i leading = .error e

theorem miscounts_of_fixed (h : i.opcode.arity = .fixed count)
    (hlength : i.operands.length ≠ count) : i.Miscounts (i.wrongCount count) := by
  rw [Miscounts, h]
  exact ⟨hlength, rfl⟩

/-- Whatever the instruction lacks, the fault names its opcode and says how many operands it has; but
the machine breaks down over a number of operands that is too large to be said. -/
theorem Miscounts.eq_wrongCount (h : i.Miscounts e) :
    (∃ expected, e = i.wrongCount expected) ∨ e = .crash .addition := by
  unfold Miscounts at h
  split at h
  · exact .inl ⟨_, h.2⟩
  · unfold MachineM.callSlots at h
    dsimp only at h
    split at h
    · cases h
    · cases h
      split
      · exact .inl ⟨_, rfl⟩
      · exact .inr rfl

/-- The operands are checked against the number that the opcode demands. -/
theorem raises_exactly (h : i.opcode.arity = .fixed count) :
    Answer.Raises i.Miscounts (i.exactly count) := by
  unfold exactly
  split
  · exact Answer.raises_ok _
  · rename_i hlength
    exact Answer.raises_error (miscounts_of_fixed h hlength)

end Instruction

namespace Simple

open SlotMachine.Action Fault StoreM

variable {i : Instruction}

/-- The fault is one of running a program, or says that the instruction lacks operands. -/
def Fails (i : Instruction) (e : Fault) : Prop :=
  e.Run ∨ i.Miscounts e

/-- Operands are checked before anything else is done. -/
theorem fails_checked {α β : Type} {check : Except Fault α} {next : α → StoreM β}
    (hcheck : Answer.Raises i.Miscounts check) (hnext : ∀ a, Raises Run (next a)) :
    Raises (Fails i) (ask (fun _ => check) >>= next) := by
  have hask : Raises (Fails i) (ask fun _ => check) := raises_ask fun _ e he => .inr (hcheck e he)
  apply hask.bind
  intro a
  exact (hnext a).mono fun _ he => .inl he

theorem raises_comparison (code : UInt64) : Answer.Raises Run (comparison code) := by
  unfold comparison
  split
  · exact Answer.raises_ok _
  · exact Answer.raises_error rfl

theorem raises_module (r : Registry) (id : ModuleId) : Answer.Raises Run (r.module id) := by
  unfold Registry.module
  split
  · exact Answer.raises_ok _
  · exact Answer.raises_error rfl

theorem raises_constant (r : Registry) (id : ModuleId) (index : UInt64) :
    Answer.Raises Run (r.constant id index) := by
  unfold Registry.constant
  cases hmodule : r.module id with
  | error e => exact Answer.raises_error (raises_module r id e hmodule)
  | ok m =>
    dsimp only
    split
    · exact Answer.raises_ok _
    · exact Answer.raises_error rfl

theorem raises_onSlots (f : Frame) (harity : i.opcode.arity = .fixed 2)
    {action : Slot → Slot → StoreM Unit} (h : ∀ target source, Raises Run (action target source)) :
    Raises (Fails i) (onSlots f i action) :=
  fails_checked (Instruction.raises_exactly harity) fun _ => (h _ _).bind fun _ => raises_pure _

theorem raises_arithmetic (f : Frame) (op : BinaryOp) (harity : i.opcode.arity = .fixed 3) :
    Raises (Fails i) (arithmetic f op i) :=
  fails_checked (Instruction.raises_exactly harity) fun _ => (raises_value _).bind fun _ =>
    (raises_value _).bind fun _ => (raises_ask fun _ => Operation.raises_binary _ _ _ _).bind
      fun _ => (raises_write _ _).bind fun _ => raises_pure _

theorem raises_negate (f : Frame) (harity : i.opcode.arity = .fixed 2) :
    Raises (Fails i) (negate f i) :=
  fails_checked (Instruction.raises_exactly harity) fun _ => (raises_value _).bind fun _ =>
    (raises_ask fun _ => Operation.raises_neg _).bind fun _ =>
      (raises_write _ _).bind fun _ => raises_pure _

theorem raises_compare (f : Frame) (harity : i.opcode.arity = .fixed 4) :
    Raises (Fails i) (compare f i) :=
  fails_checked (Instruction.raises_exactly harity) fun _ =>
    (raises_ask fun _ => raises_comparison _).bind fun _ => (raises_value _).bind fun _ =>
      (raises_value _).bind fun _ => (raises_ask fun _ => Operation.raises_compare _ _ _).bind
        fun _ => (raises_write _ _).bind fun _ => raises_pure _

theorem raises_branch (f : Frame) (harity : i.opcode.arity = .fixed 3) :
    Raises (Fails i) (branch f i) := by
  apply fails_checked (Instruction.raises_exactly harity)
  intro operands
  apply (raises_value _).bind
  intro v
  split
  · exact raises_pure _
  · exact raises_throw rfl

theorem raises_jump (f : Frame) (harity : i.opcode.arity = .fixed 1) :
    Raises (Fails i) (jump f i) :=
  fails_checked (Instruction.raises_exactly harity) fun _ => (raises_readUInt64 _).bind fun _ =>
    raises_pure _

theorem raises_refer (f : Frame) (harity : i.opcode.arity = .fixed 2) :
    Raises (Fails i) (refer f i) :=
  fails_checked (Instruction.raises_exactly harity) fun _ => (raises_origin _).bind fun _ =>
    (raises_bind _ _ _).bind fun _ => raises_pure _

theorem raises_loadConst (r : Registry) (f : Frame) (harity : i.opcode.arity = .fixed 2) :
    Raises (Fails i) (loadConst r f i) :=
  fails_checked (Instruction.raises_exactly harity) fun _ =>
    (raises_ask fun _ => raises_constant _ _ _).bind fun _ =>
      (raises_write _ _).bind fun _ => raises_pure _

/-- Operations on two values have three operands. -/
theorem arity_of_binary {opcode : Opcode} {op : BinaryOp}
    (h : BinaryOp.ofOpcode? opcode = some op) : opcode.arity = .fixed 3 := by
  cases opcode <;> first | rfl | cases h

/-- A simple instruction fails with run faults, or because it lacks operands. -/
theorem raises_execute (r : Registry) (f : Frame) (i : Instruction) :
    Raises (Fails i) (execute r f i) := by
  have hwarn : Raises (Fails i) (do
      warn (.deprecatedOpcode i.opcode)
      pure .next : StoreM Flow) := (raises_modify _).bind fun _ => raises_pure _
  have harity : ∀ {opcode : Opcode} {a : Arity}, i.opcode = opcode → opcode.arity = a →
      i.opcode.arity = a := fun hopcode h => hopcode ▸ h
  unfold execute
  split
  · rename_i op hop
    exact raises_arithmetic f op (arity_of_binary hop)
  · split
    · exact hwarn
    · exact hwarn
    · exact hwarn
    · rename_i h
      exact raises_negate f (harity h rfl)
    · rename_i h
      exact raises_compare f (harity h rfl)
    · rename_i h
      exact raises_branch f (harity h rfl)
    · rename_i h
      exact raises_jump f (harity h rfl)
    · rename_i h
      exact raises_refer f (harity h rfl)
    · rename_i h
      exact raises_onSlots f (harity h rfl) raises_copy
    · rename_i h
      exact raises_loadConst r f (harity h rfl)
    · rename_i h
      exact raises_onSlots f (harity h rfl) raises_cast
    · rename_i h
      exact raises_onSlots f (harity h rfl) fun target source => raises_bind target source .const
    · exact raises_pure _

end Simple

/-- What goes wrong while a program is at work, or the refusal of a sink. -/
def Fault.RunOrRefused (e : Fault) : Prop :=
  e.AtWork ∨ ∃ reason, e = Sink.refused reason

namespace Sink

/-- The sink refuses a text or a flush with this fault. -/
def Refuses (k : Sink) (e : Fault) : Prop :=
  ∃ reason, e = refused reason ∧ (k.writeRefusal = some reason ∨ k.flushRefusal = some reason)

/-- All faults with which the sink refuses are among these. -/
def RefusesOnly (k : Sink) (refusals : Fault → Prop) : Prop :=
  ∀ e, k.Refuses e → refusals e

/-- Flushing fails only because the sink refuses. -/
theorem refuses_of_flush {k : Sink} {e : Fault} (h : k.flush = .error e) : k.Refuses e := by
  unfold flush at h
  cases hrefusal : k.flushRefusal with
  | none => simp [hrefusal] at h
  | some reason =>
    simp only [hrefusal] at h
    cases h
    exact ⟨reason, rfl, .inr hrefusal⟩

end Sink

namespace WorldM

open SlotMachine.Action Fault

variable {α : Type} {refusals : Fault → Prop}

/-- If these are all the refusals of the sink before the action, they are all afterwards, and the
action fails with what goes wrong at work and with these refusals only. -/
def PassesOn (refusals : Fault → Prop) (x : WorldM α) : Prop :=
  Accounts (fun w => w.sink.RefusesOnly refusals) (fun e _ => e.AtWork ∨ refusals e) x

theorem passesOn_onStore {action : StoreM α} (h : Raises AtWork action) :
    PassesOn refusals (onStore action) := by
  rintro ⟨store, sink⟩ hsink
  unfold Ends onStore
  dsimp only
  cases haction : action store with
  | ok a store' => exact hsink
  | error e store' => exact ⟨hsink, .inl (h _ _ _ haction)⟩

theorem passesOn_ask {question : Store → Except Fault α}
    (h : ∀ s, Answer.Raises Run (question s)) : PassesOn refusals (ask question) :=
  passesOn_onStore (StoreM.raises_ask h).atWork

theorem passesOn_write (text : String) : PassesOn refusals (write text) := by
  rintro ⟨store, written, writeRefusal, flushRefusal⟩ hsink
  have hlater : (Sink.mk (written ++ text) writeRefusal flushRefusal).RefusesOnly refusals := hsink
  unfold Ends write
  dsimp only
  cases hrefusal : if text.isEmpty then none else writeRefusal with
  | some reason =>
    have hwrite : writeRefusal = some reason := by
      split at hrefusal
      · cases hrefusal
      · exact hrefusal
    exact ⟨hsink, .inr (hsink _ ⟨reason, rfl, .inl hwrite⟩)⟩
  | none =>
    dsimp only
    cases hflush : (Sink.mk (written ++ text) writeRefusal flushRefusal).flush with
    | ok _ => exact hlater
    | error e => exact ⟨hlater, .inr (hlater e (Sink.refuses_of_flush hflush))⟩

end WorldM

namespace Native

open SlotMachine.Action WorldM Fault

variable {refusals : Fault → Prop}

theorem raises_printable (name : String) (v : Value) : Answer.Raises Run (printable name v) := by
  cases v <;> first | exact Answer.raises_ok _ | exact Answer.raises_error rfl

theorem passesOn_print (result argument : Slot) : PassesOn refusals (print result argument) :=
  (passesOn_ask fun _ => Store.raises_value _).bind fun _ =>
    (passesOn_ask fun _ => raises_printable _ _).bind fun _ => (passesOn_write _).bind fun _ =>
      passesOn_onStore (StoreM.raises_write _ _).atWork

theorem passesOn_printElements (a : ArrayHandle) (count index written : Nat) :
    PassesOn refusals (printElements a count index written) := by
  induction count generalizing index written with
  | zero => exact accounts_pure _
  | succ count ih =>
    refine (passesOn_ask fun _ => Store.raises_element? _ _).bind fun element => ?_
    split
    · exact accounts_pure _
    · refine (passesOn_ask fun _ => Store.raises_value _).bind fun v => ?_
      split
      · exact ih _ _
      · exact (passesOn_ask fun _ => raises_printable _ _).bind fun _ =>
          (passesOn_write _).bind fun _ => ih _ _

theorem raises_remaining (len : Nat) (offset : Int64) :
    Answer.Raises AtWork (remaining len offset) := by
  unfold remaining
  dsimp only
  split
  · exact Answer.raises_ok _
  · exact Answer.raises_error (.inr rfl)

theorem passesOn_printAll (result argument : Slot) :
    PassesOn refusals (printAll result argument) :=
  (passesOn_ask fun _ => Store.raises_array _).bind fun _ =>
    (passesOn_ask fun _ => Store.raises_elementCount _).bind fun _ =>
      (passesOn_onStore (StoreM.raises_ask fun _ => raises_remaining _ _)).bind fun _ =>
        (passesOn_printElements _ _ _ _).bind fun _ => passesOn_onStore (StoreM.raises_write _ _).atWork

theorem raises_absValue (v : Value) : Answer.Raises Run (absValue v) := by
  cases v <;> simp only [absValue] <;> repeat' split
  all_goals first | exact Answer.raises_ok _ | exact Answer.raises_error rfl

theorem passesOn_abs (result argument : Slot) : PassesOn refusals (abs result argument) :=
  (passesOn_ask fun _ => Store.raises_value _).bind fun _ =>
    (passesOn_ask fun _ => raises_absValue _).bind fun _ =>
      passesOn_onStore (StoreM.raises_write _ _).atWork

theorem passesOn_unary {f : Slot → Slot → WorldM Unit}
    (h : ∀ result argument, PassesOn refusals (f result argument)) (depth : Nat)
    (slots : List Slot) : PassesOn refusals ((unary f).run depth slots) := by
  unfold unary
  dsimp only
  split
  · exact h _ _
  · exact accounts_pure _

/-- A standard native function fails with what goes wrong at work, or because the sink refuses. -/
theorem passesOn_standard {name : String} {native : Native}
    (hnative : NativeTable.standard.find? name = some native) (refusals : Fault → Prop)
    (depth : Nat) (slots : List Slot) : PassesOn refusals (native.run depth slots) := by
  unfold NativeTable.find? NativeTable.standard at hnative
  simp only [List.lookup_cons] at hnative
  split at hnative
  · cases hnative
    exact passesOn_unary passesOn_print depth slots
  · split at hnative
    · cases hnative
      exact passesOn_unary passesOn_printAll depth slots
    · split at hnative
      · cases hnative
        exact passesOn_unary passesOn_abs depth slots
      · cases hnative

end Native

/-- A native function of the table answers some call with the fault. -/
def NativeTable.Raises (t : NativeTable) (e : Fault) : Prop :=
  ∃ name native, t.find? name = some native ∧
    ∃ depth slots w w', native.run depth slots w = .error e w'

/-- Faults of the standard native functions. -/
theorem NativeTable.runOrRefused_of_standard {e : Fault} (h : standard.Raises e) :
    e.RunOrRefused := by
  obtain ⟨name, native, hnative, depth, slots, w, w', hrun⟩ := h
  have hsink : w.sink.RefusesOnly fun e => ∃ reason, e = Sink.refused reason := by
    rintro e ⟨reason, he, -⟩
    exact ⟨reason, he⟩
  exact ((Native.passesOn_standard hnative _ depth slots w hsink).of_error hrun).2

/-- A fault that may arise in a machine with this source of modules: while a program is at work, from
loading, or because the source answers with it. -/
def Fault.Arises (fetch : String → Except Fault (List UInt8)) (e : Fault) : Prop :=
  e.AtWork ∨ e.Load ∨ ∃ file, fetch file = .error e

/-- How far linking changes the registry: the source stays, and no function is provided that was not
provided before. -/
structure Linkage.Leads (l l' : Linkage) : Prop where
  /-- The source stays. -/
  fetch : l'.registry.source.fetch = l.registry.source.fetch
  /-- Functions come from where they came from. -/
  provides : ∀ {f : Function}, l'.registry.Provides f → l.registry.Provides f

theorem Linkage.Leads.refl (l : Linkage) : l.Leads l :=
  ⟨rfl, id⟩

theorem Linkage.Leads.trans {l l' l'' : Linkage} (h₁ : l.Leads l') (h₂ : l'.Leads l'') :
    l.Leads l'' :=
  ⟨h₂.fetch.trans h₁.fetch, fun h => h₁.provides (h₂.provides h)⟩

namespace LinkM

open SlotMachine.Action Fault

variable {α β : Type} {x : LinkM α} {f : α → LinkM β} {e : Fault} {P : α → Linkage → Prop}
  {Q : β → Linkage → Prop}

/-- The action changes the registry only as linking does, and fails only with faults that may arise
with its source. -/
def Heeds (x : LinkM α) (P : α → Linkage → Prop) : Prop :=
  ∀ l, Ends x l (fun a l' => l.Leads l' ∧ P a l') fun e l' =>
    l.Leads l' ∧ e.Arises l.registry.source.fetch

theorem heeds_pure (a : α) : Heeds (pure a) fun _ _ => True :=
  fun l => ends_pure ⟨.refl l, trivial⟩

theorem heeds_throw (h : e.Run ∨ e.Load) : Heeds (throw e) P :=
  fun l => ends_throw ⟨.refl l, h.imp .inl .inl⟩

/-- A sequence of actions keeps to the source if each of them does. -/
theorem Heeds.bind (hx : Heeds x P) (hf : ∀ a, Heeds (f a) Q) : Heeds (x >>= f) Q := by
  intro l
  apply (hx l).bind
  rintro a l₁ ⟨hl₁, -⟩
  apply (hf a l₁).mono
  · rintro b l₂ ⟨hl₂, hb⟩
    exact ⟨hl₁.trans hl₂, hb⟩
  · rintro e l₂ ⟨hl₂, he⟩
    rw [hl₁.fetch] at he
    exact ⟨hl₁.trans hl₂, he⟩

/-- Installing a module that has been read. -/
theorem heeds_install (file : Option String) {image : Image} (himage : image.Legible) :
    Heeds (install file image) fun _ _ => True := by
  rintro ⟨registry, store⟩
  have hsource := Registry.source_enter registry store.heaps.size file image
  refine ends_of_ok rfl ⟨⟨congrArg Source.fetch hsource, ?_⟩, trivial⟩
  exact fun h => Registry.provides_of_enter himage h

theorem heeds_fetch (file : String) : Heeds (fetch file) fun _ _ => True := by
  intro l
  unfold Ends fetch
  dsimp only
  cases hfetch : l.registry.source.fetch file with
  | ok bytes => exact ⟨⟨rfl, id⟩, trivial⟩
  | error e => exact ⟨⟨rfl, id⟩, .inr (.inr ⟨file, hfetch⟩)⟩

/-- Loading a file passes on what the source answers and what is wrong with the bytes. -/
theorem heeds_requireFile (file : String) : Heeds (requireFile file) fun _ _ => True := by
  intro l
  apply ends_get_bind
  split
  · exact heeds_pure _ l
  · apply (heeds_fetch file).bind
    intro bytes
    cases hdecode : Image.decode bytes with
    | ok image => exact heeds_install (some file) (Image.legible_of_decode hdecode)
    | error e => exact heeds_throw (.inr (Image.raises_decode bytes e hdecode))

theorem raises_splitClassName (name : String) : Answer.Raises Run (splitClassName name) := by
  unfold splitClassName
  dsimp only
  split
  · split
    · split
      · exact Answer.raises_error rfl
      · exact Answer.raises_ok _
    · exact Answer.raises_error rfl
  · exact Answer.raises_error rfl

/-- The class is known. -/
def Lists (c : Class) (l : Linkage) : Prop :=
  ∃ name, l.registry.class? name = some c

/-- Looking for a class that may have to be loaded. -/
theorem heeds_findClass (name : String) : Heeds (findClass name) Lists := by
  intro l
  apply ends_get_bind
  split
  · rename_i c hc
    exact ends_pure ⟨.refl l, name, hc⟩
  · extract_lets again
    have hagain : ∀ u, Heeds (again u) Lists := by
      intro u l'
      apply ends_get_bind
      split
      · rename_i c hc
        exact ends_pure ⟨.refl l', name, hc⟩
      · exact heeds_throw (.inl rfl) l'
    split
    · split
      · exact (heeds_requireFile _).bind (fun _ => hagain ()) l
      · rename_i e hsplit
        have hthrow : Heeds (throw e : LinkM PUnit) fun _ _ => True :=
          heeds_throw (.inl (raises_splitClassName name e hsplit))
        exact hthrow.bind hagain l
    · exact hagain () l

theorem heeds_topClass (id : ModuleId) : Heeds (topClass id) Lists := by
  intro l
  apply ends_get_bind
  cases hname : l.registry.qualifiedIn id Image.topClass with
  | ok name => exact heeds_findClass name l
  | error e => exact heeds_throw (.inl ((Simple.raises_module _ _).map _ e hname)) l

end LinkM

end SlotMachine
