import SlotMachine.Image.Decode
import SlotMachine.Proofs.Image.Reading
import Mathlib.Tactic.IntervalCases

/-!
# What a decoded image looks like

Whatever the bytes of a module are, the image read from them is legible: its constants have a byte
form, its types are complete, its names can be closed by a zero byte, and its code has the operands
that the opcodes demand. Its lists are addressable: they are counted by 64-bit numbers.
-/

namespace SlotMachine

/-- A complete type: any number of wrapper tags, then one tag that ends the sequence. -/
def Tag.IsComplete (tags : List Tag) : Prop :=
  ∃ wrappers last, tags = wrappers ++ [last] ∧
    (∀ t ∈ wrappers, t ∈ [Tag.array, Tag.ref, Tag.const]) ∧
    last ∈ [Tag.untyped, Tag.byte, Tag.long, Tag.double, Tag.uint64, Tag.string, Tag.object,
      Tag.origin]

/-- The instruction has the operands that its opcode demands. A call has, besides the leading
operands, as many as the last of them says. -/
def Instruction.HasArity (i : Instruction) : Prop :=
  match i.opcode.arity with
  | .fixed count => i.operands.length = count
  | .counted leading =>
    ∃ count, i.operands[leading - 1]? = some count ∧ i.operands.length = leading + count.toNat

/-- What decoding guarantees of a method. The count of the parameters of a method that is not
variadic must not begin with the byte that marks variadic ones. -/
structure Function.Legible (f : Function) : Prop where
  /-- The name has no zero character. -/
  name_closed : '\x00' ∉ f.name.toList
  /-- There is a parameter that collects, besides the one for the return value. -/
  variadic_params : f.variadic = true → 2 ≤ f.params.length
  /-- The first byte of the parameter count is not the variadic marker. -/
  plain_params : f.variadic = false → f.params.length < 128 ∨ f.params.length % 128 ≠ 127
  /-- Every instruction has its operands. -/
  code_arity : ∀ i ∈ f.code, i.HasArity

/-- What decoding guarantees of a member. -/
structure Member.Legible (m : Member) : Prop where
  /-- The name has no zero character. -/
  name_closed : '\x00' ∉ m.name.toList
  /-- The type is complete. -/
  tags_complete : Tag.IsComplete m.tags

/-- What decoding guarantees of a class. -/
structure ClassDecl.Legible (c : ClassDecl) : Prop where
  /-- The name has no zero character. -/
  name_closed : '\x00' ∉ c.name.toList
  /-- The members are legible. -/
  members_legible : ∀ m ∈ c.members, m.Legible
  /-- The methods are legible. -/
  methods_legible : ∀ f ∈ c.methods, f.Legible

/-- What decoding guarantees of an image. -/
structure Image.Legible (m : Image) : Prop where
  /-- Every constant is a number or a text. -/
  constants_poolable : ∀ v ∈ m.constants, Image.isPoolable v = true
  /-- Every heap cell has a complete type. -/
  heap_complete : ∀ tags ∈ m.heap, Tag.IsComplete tags
  /-- The classes are legible. -/
  classes_legible : ∀ c ∈ m.classes, c.Legible

/-- The lists of a method are counted by 64-bit numbers. -/
structure Function.Addressable (f : Function) : Prop where
  /-- There are fewer than `2 ^ 64` parameters. -/
  params_length : f.params.length < 2 ^ 64
  /-- There are fewer than `2 ^ 64` instructions. -/
  code_size : f.code.toList.length < 2 ^ 64

/-- The lists of a class are counted by 64-bit numbers. -/
structure ClassDecl.Addressable (c : ClassDecl) : Prop where
  /-- There are fewer than `2 ^ 64` members. -/
  members_length : c.members.length < 2 ^ 64
  /-- There are fewer than `2 ^ 64` methods. -/
  methods_length : c.methods.length < 2 ^ 64
  /-- The methods are addressable. -/
  methods_addressable : ∀ f ∈ c.methods, f.Addressable

/-- The lists of an image are counted by 64-bit numbers. A text is counted with the zero byte that
closes it. -/
structure Image.Addressable (m : Image) : Prop where
  /-- There are fewer than `2 ^ 64` constants. -/
  constants_size : m.constants.size < 2 ^ 64
  /-- Every text and its closing byte take fewer than `2 ^ 64` bytes. -/
  texts_length : ∀ s, Value.text s ∈ m.constants → (Text.utf8 s).length + 1 < 2 ^ 64
  /-- There are fewer than `2 ^ 64` heap cells. -/
  heap_length : m.heap.length < 2 ^ 64
  /-- The classes are addressable. -/
  classes_addressable : ∀ c ∈ m.classes, c.Addressable

/-- A known tag that is no wrapper ends a type. -/
theorem Tag.ends_of_known {t : Tag} (hknown : t.isKnown = true) (hwrapper : t.isWrapper = false) :
    t ∈ [Tag.untyped, Tag.byte, Tag.long, Tag.double, Tag.uint64, Tag.string, Tag.object,
      Tag.origin] := by
  have hle : t.toNat ≤ 10 := UInt8.le_iff_toNat_le.mp (by simpa [Tag.isKnown] using hknown)
  have ht : t = UInt8.ofNat t.toNat := by simp
  generalize t.toNat = n at hle ht
  subst ht
  interval_cases n <;> revert hwrapper <;> decide

/-- An opcode with counted operands has a leading operand that counts them. -/
theorem Opcode.leading_pos {op : Opcode} {leading : Nat} (h : op.arity = .counted leading) :
    0 < leading := by
  cases op <;> simp_all [Opcode.arity] <;> omega

namespace Read

/-- A number that fits eight bytes. Any bytes will do. -/
private theorem yields_value {α : Type} {P : Value → Prop} (item : Read α) {f : α → Value}
    (hf : ∀ a, P (f a)) : Yields (item >>= fun a => pure (f a)) P :=
  (yields_true item).bind fun a _ => yields_pure (hf a)

/-- Every constant that is read is a number or a text. -/
theorem yields_constant : Yields constant fun v => Image.isPoolable v = true := by
  refine (yields_true byte).bind fun t _ => ?_
  split
  · exact yields_value byte fun _ => rfl
  split
  · exact yields_value fixedWord fun _ => rfl
  split
  · exact yields_value fixedWord fun _ => rfl
  split
  · exact yields_value fixedWord fun _ => rfl
  split
  · exact yields_value text fun _ => rfl
  · exact yields_throw _

/-- Tags that are read from the front of the bytes form a complete type. -/
theorem isComplete_of_tagsFrom {bytes : List UInt8} {position : Nat} {tags : List Tag}
    {c : Cursor} (h : tagsFrom position bytes = .ok tags c) : Tag.IsComplete tags := by
  induction bytes generalizing position tags with
  | nil => cases h
  | cons t rest ih =>
    simp only [tagsFrom] at h
    split at h
    · cases h
    split at h
    · rename_i hwrapper
      split at h
      · rename_i others _ hothers
        cases h
        obtain ⟨wrappers, last, rfl, hwrappers, hlast⟩ := ih hothers
        refine ⟨t :: wrappers, last, rfl, ?_, hlast⟩
        intro u hu
        rcases List.mem_cons.mp hu with rfl | hu
        · simpa [Tag.isWrapper, or_assoc] using hwrapper
        · exact hwrappers u hu
      · cases h
    · rename_i hknown hwrapper
      cases h
      refine ⟨[], t, rfl, by simp, ?_⟩
      exact Tag.ends_of_known (by simpa using hknown) (by simpa using hwrapper)

/-- A type that is read is complete. -/
theorem yields_tags : Yields tags Tag.IsComplete := fun _ _ _ h => isComplete_of_tagsFrom h

/-- An instruction that is read has its operands. -/
theorem yields_instruction : Yields instruction Instruction.HasArity := by
  refine (yields_true byte).bind fun code _ => ?_
  cases hcode : Opcode.ofCode? code with
  | none => exact yields_throw _
  | some opcode =>
    simp only
    cases harity : opcode.arity with
    | fixed count =>
      refine (yields_times (yields_true word) count).bind fun operands hoperands => ?_
      exact yields_pure (by simpa [Instruction.HasArity, harity] using hoperands.1)
    | counted leading =>
      refine (yields_times (yields_true word) leading).bind fun operands hoperands => ?_
      refine (yields_times (yields_true word) _).bind fun further hfurther => yields_pure ?_
      obtain ⟨hlength, -⟩ := hoperands
      have hpositive : 0 < leading := Opcode.leading_pos harity
      -- the count is the last of the leading operands
      have hcount : operands[leading - 1]? = some (operands.getLast?.getD 0) := by
        rw [← hlength, ← List.getLast?_eq_getElem?]
        cases hlast : operands.getLast? with
        | none => simp_all
        | some count => rfl
      simp only [Instruction.HasArity, harity]
      refine ⟨operands.getLast?.getD 0, ?_, ?_⟩
      · rw [List.getElem?_append_left (by omega), hcount]
      · rw [List.length_append, hlength, hfurther.1]

/-- The count at the front of a list of numbers begins with the first byte. -/
theorem counted_word_head {c c' : Cursor} {params : List UInt64}
    (h : counted word c = .ok params c') :
    ∃ b rest, c.rest = b :: rest ∧ params.length % 128 = b.toNat % 128 ∧
      (b.toNat < 128 → params.length = b.toNat) := by
  obtain ⟨count, c₁, hcount, hparams⟩ := Action.bind_eq_ok_iff.mp h
  obtain ⟨hlength, -⟩ := yields_times (yields_true word) count.toNat hparams
  unfold word at hcount
  split at hcount
  · rename_i n used hdecode
    cases hcount
    obtain ⟨b, rest, hrest, hmod, hsmall⟩ := Uleb.decode_head hdecode
    have hn : (UInt64.ofNat n).toNat = n := by
      simpa using Nat.mod_eq_of_lt (Uleb.decode_lt hdecode)
    refine ⟨b, rest, hrest, ?_, ?_⟩
    · rw [hlength, hn, hmod]
    · intro hb
      rw [hlength, hn, hsmall hb]
  · cases hcount

/-- What follows the name and the marker of a method: parameters and code. -/
def functionRest (name : String) (variadic : Bool) : Read Function := do
  let params ← counted word
  if variadic && params.length < 2 then
    flawed (.nothingToCollect name)
  let code ← counted instruction
  pure ⟨name, variadic, params, code.toArray⟩

/-- A method is its name, the marker if it is variadic, and the rest. -/
theorem function_eq : function = (do
    let raw ← name
    let next ← peek
    if next == some Image.variadicMarker then
      let _ ← byte
      functionRest (methodName raw) (next == some Image.variadicMarker)
    else functionRest (methodName raw) (next == some Image.variadicMarker)) := rfl

/-- What the rest of a method yields: the name and the marker are passed on, the lists are
addressable, and the code has its operands. -/
theorem yields_functionRest (name : String) (variadic : Bool) :
    Yields (functionRest name variadic) fun f => f.name = name ∧ f.variadic = variadic ∧
      f.Addressable ∧ (f.variadic = true → 2 ≤ f.params.length) ∧ ∀ i ∈ f.code, i.HasArity := by
  refine (yields_counted (yields_true word)).bind fun params hparams => ?_
  dsimp only
  split
  · exact Yields.bind (P := fun _ => False) (yields_flawed _) fun _ hfalse => hfalse.elim
  · rename_i hcollects
    refine (yields_counted yields_instruction).bind fun code hcode => yields_pure ?_
    refine ⟨rfl, rfl, ⟨hparams.1, by simpa using hcode.1⟩, ?_, by simpa using hcode.2⟩
    rintro rfl
    simp only [Bool.true_and, decide_eq_true_eq, Nat.not_lt] at hcollects
    exact hcollects

/-- The rest of a method starts with its parameters. -/
theorem counted_of_functionRest {name : String} {variadic : Bool} {c c' : Cursor} {f : Function}
    (h : functionRest name variadic c = .ok f c') :
    ∃ c₁, counted word c = .ok f.params c₁ := by
  obtain ⟨params, c₁, hparams, hrest⟩ := Action.bind_eq_ok_iff.mp h
  refine ⟨c₁, ?_⟩
  dsimp only at hrest
  split at hrest
  · obtain ⟨_, _, hflawed, -⟩ := Action.bind_eq_ok_iff.mp hrest
    cases hflawed
  · obtain ⟨code, c₂, -, hpure⟩ := Action.bind_eq_ok_iff.mp hrest
    cases hpure
    exact hparams

/-- Dropping the point of a name brings no zero character into it. -/
theorem methodName_closed {s : String} (hs : '\x00' ∉ s.toList) :
    '\x00' ∉ (methodName s).toList := by
  unfold methodName
  split
  · rename_i rest hrest
    rw [hrest] at hs
    simpa using hs
  · exact hs

/-- A method that is read is legible and addressable. -/
theorem yields_function : Yields function fun f => f.Legible ∧ f.Addressable := by
  intro c f c' h
  rw [function_eq] at h
  obtain ⟨raw, c₁, hraw, h⟩ := Action.bind_eq_ok_iff.mp h
  obtain ⟨next, c₂, hnext, h⟩ := Action.bind_eq_ok_iff.mp h
  have hname := methodName_closed (yields_name hraw)
  obtain ⟨rfl, rfl⟩ : c₁.rest.head? = next ∧ c₁ = c₂ := by
    simpa [peek] using hnext
  split at h
  · rename_i hmarker
    obtain ⟨_, c₃, -, h⟩ := Action.bind_eq_ok_iff.mp h
    obtain ⟨hn, hv, haddressable, hcollects, harity⟩ := yields_functionRest _ _ h
    refine ⟨⟨by rwa [hn], hcollects, ?_, harity⟩, haddressable⟩
    rw [hv, hmarker]
    simp
  · rename_i hmarker
    obtain ⟨hn, hv, haddressable, hcollects, harity⟩ := yields_functionRest _ _ h
    refine ⟨⟨by rwa [hn], hcollects, ?_, harity⟩, haddressable⟩
    -- the count of the parameters stands where the marker would be
    intro _
    obtain ⟨c₃, hparams⟩ := counted_of_functionRest h
    obtain ⟨b, rest, hb, hmod, hsmall⟩ := counted_word_head hparams
    have hfirst : b.toNat ≠ 255 := by
      intro hmark
      apply hmarker
      have hbyte : b = Image.variadicMarker := UInt8.toNat_inj.mp hmark
      simp [hb, hbyte]
    have hbound := b.toNat_lt
    omega

/-- A member that is read is legible. -/
theorem yields_member : Yields member Member.Legible :=
  yields_name.bind fun _ hname => yields_tags.bind fun _ htags => yields_pure ⟨hname, htags⟩

/-- A class that is read is legible and addressable. -/
theorem yields_classDecl : Yields classDecl fun c => c.Legible ∧ c.Addressable := by
  refine yields_name.bind fun name hname => ?_
  refine (yields_counted yields_member).bind fun members hmembers => ?_
  refine (yields_counted yields_function).bind fun methods hmethods => yields_pure ⟨?_, ?_⟩
  · exact ⟨hname, hmembers.2, fun f hf => (hmethods.2 f hf).1⟩
  · exact ⟨hmembers.1, hmethods.1, fun f hf => (hmethods.2 f hf).2⟩

/-- Classes that are read are legible and addressable. -/
theorem yields_classes (n : Nat) :
    Yields (classes n) fun cs => ∀ c ∈ cs, c.Legible ∧ c.Addressable := by
  induction n with
  | zero => exact yields_pure (by simp)
  | succ n ih =>
    refine (yields_true get).bind fun cursor _ => ?_
    split
    · exact yields_pure (by simp)
    · refine yields_classDecl.bind fun first hfirst => ih.bind fun others hothers => ?_
      apply yields_pure
      intro c hc
      rcases List.mem_cons.mp hc with rfl | hc
      · exact hfirst
      · exact hothers c hc

/-- The constants, the heap and the classes that are read from a module. -/
theorem yields_image : Yields image fun m => m.Legible ∧ m.constants.size < 2 ^ 64 ∧
    m.heap.length < 2 ^ 64 ∧ ∀ c ∈ m.classes, c.Addressable := by
  refine (yields_true header).bind fun _ _ => ?_
  refine (yields_counted yields_constant).bind fun constants hconstants => ?_
  refine (yields_counted yields_tags).bind fun heap hheap => ?_
  refine (yields_true get).bind fun cursor _ => ?_
  refine (yields_classes _).bind fun classes hclasses => yields_pure ⟨⟨?_, ?_, ?_⟩, ?_⟩
  · simpa using hconstants.2
  · exact hheap.2
  · exact fun c hc => (hclasses c hc).1
  · exact ⟨by simpa using hconstants.1, hheap.1, fun c hc => (hclasses c hc).2⟩

end Read

/-- Decoding succeeds exactly if the reader of modules does. -/
theorem Image.decode_eq_ok_iff {bytes : List UInt8} {m : Image} :
    Image.decode bytes = .ok m ↔ ∃ c, Read.image (Cursor.ofBytes bytes) = .ok m c := by
  unfold Image.decode
  cases Read.image (Cursor.ofBytes bytes) with
  | ok m' c => simp
  | error e c => simp

/-- Every decoded image is legible. -/
theorem Image.legible_of_decode {bytes : List UInt8} {m : Image}
    (h : Image.decode bytes = .ok m) : m.Legible := by
  obtain ⟨c, hc⟩ := Image.decode_eq_ok_iff.mp h
  exact (Read.yields_image hc).1

end SlotMachine
