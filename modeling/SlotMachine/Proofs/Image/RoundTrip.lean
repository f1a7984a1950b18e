import SlotMachine.Proofs.Image.Legible

/-!
# Writing and reading images

Decoding the bytes of an image gives the image back exactly if the image is addressable and legible
and no method name begins with a point. The point is the only thing that legible images lose: it is
dropped when a method name is read, so that what comes back is the image without leading points.
-/

namespace SlotMachine

namespace Read

/-- Shifting in one more byte appends it to the number. -/
theorem toNat_shift_byte {n : UInt64} (b : UInt8) (hn : n.toNat < 2 ^ 56) :
    ((n <<< 8) ||| b.toUInt64).toNat = n.toNat * 256 + b.toNat := by
  have hb := b.toNat_lt
  have hshift : (n <<< 8).toNat = n.toNat <<< 8 := by
    rw [UInt64.toNat_shiftLeft]
    simp only [UInt64.reduceToNat, Nat.reduceMod, Nat.shiftLeft_eq]
    exact Nat.mod_eq_of_lt (by omega)
  rw [UInt64.toNat_or, hshift, UInt8.toNat_toUInt64, ← Nat.shiftLeft_add_eq_or_of_lt (by omega),
    Nat.shiftLeft_eq]

/-- Shifting in bytes is accumulation in base 256 as long as there is room for all of them. -/
theorem toNat_foldl_shift {bytes : List UInt8} {n : UInt64} (hlength : bytes.length ≤ 8)
    (hn : n.toNat < 2 ^ (64 - 8 * bytes.length)) :
    (bytes.foldl (fun (n : UInt64) b => (n <<< 8) ||| b.toUInt64) n).toNat =
      bytes.foldl (fun n b => n * 256 + b.toNat) n.toNat := by
  induction bytes generalizing n with
  | nil => rfl
  | cons b bytes ih =>
    simp only [List.length_cons] at hlength hn
    have hb := b.toNat_lt
    have hroom : 2 ^ (64 - 8 * bytes.length) = 256 * 2 ^ (64 - 8 * (bytes.length + 1)) := by
      have hexp : 64 - 8 * bytes.length = 8 + (64 - 8 * (bytes.length + 1)) := by omega
      rw [hexp, pow_add]
      norm_num
    have hsmall : 2 ^ (64 - 8 * (bytes.length + 1)) ≤ 2 ^ 56 :=
      Nat.pow_le_pow_right (by norm_num) (by omega)
    have hstep := toNat_shift_byte b (by omega : n.toNat < 2 ^ 56)
    rw [List.foldl_cons, List.foldl_cons, ih (by omega) (by omega), hstep]

/-- At most eight bytes denote their number in base 256. -/
theorem toNat_bigEndian {bytes : List UInt8} (hlength : bytes.length ≤ 8) :
    (bigEndian bytes).toNat = bytes.foldl (fun n b => n * 256 + b.toNat) 0 :=
  toNat_foldl_shift hlength (Nat.two_pow_pos _)

/-- One step of the accumulation undoes a shift by eight bits. -/
theorem shiftRight_mul_add_mod (n k : Nat) :
    (n >>> (k + 8)) * 256 + n >>> k % 2 ^ 8 = n >>> k := by
  rw [Nat.shiftRight_add, Nat.shiftRight_eq_div_pow (n >>> k)]
  exact Nat.div_add_mod' (n >>> k) 256

/-- One of the eight bytes of a number. -/
theorem toNat_byte (n shift : UInt64) :
    (n >>> shift).toUInt8.toNat = n.toNat >>> (shift.toNat % 64) % 2 ^ 8 := by
  rw [UInt64.toNat_toUInt8, UInt64.toNat_shiftRight]

/-- The number of eight bytes is the number that was written. -/
theorem bigEndian_bigEndian (n : UInt64) : bigEndian (Image.bigEndian n) = n := by
  have htop : n.toNat >>> 56 % 2 ^ 8 = n.toNat >>> 56 := by
    have hn := n.toNat_lt
    rw [Nat.shiftRight_eq_div_pow]
    omega
  have hstep := shiftRight_mul_add_mod n.toNat
  have hshifts : ([56, 48, 40, 32, 24, 16, 8, 0] : List UInt64).map (fun k => k.toNat % 64) =
      [56, 48, 40, 32, 24, 16, 8, 0] := rfl
  have hbytes : (Image.bigEndian n).map UInt8.toNat =
      [56, 48, 40, 32, 24, 16, 8, 0].map fun k => n.toNat >>> k % 2 ^ 8 := by
    rw [Image.bigEndian, List.map_map, ← hshifts, List.map_map]
    exact List.map_congr_left fun shift _ => toNat_byte n shift
  apply UInt64.toNat_inj.mp
  rw [toNat_bigEndian (by simp [Image.bigEndian]),
    ← List.foldl_map (g := fun n d => n * 256 + d), hbytes]
  simp only [List.map_cons, List.map_nil, List.foldl_cons, List.foldl_nil, Nat.zero_mul,
    Nat.zero_add]
  rw [htop, hstep 48, hstep 40, hstep 32, hstep 24, hstep 16, hstep 8, hstep 0]
  rfl

/-- Eight bytes are read as the number that was written. -/
theorem reads_fixedWord (n : UInt64) : Reads fixedWord (Image.bigEndian n) n := by
  have htake : Reads (take 8) (Image.bigEndian n) (Image.bigEndian n) :=
    reads_take (Image.bigEndian n)
  have hread := htake.map bigEndian
  rwa [bigEndian_bigEndian] at hread

/-- A text constant is read back. -/
theorem reads_text {s : String} (hs : (Text.utf8 s).length + 1 < 2 ^ 64) :
    Reads text (Uleb.encode ((Text.utf8 s).length + 1) ++ Image.encodeName s) s := by
  have hlength : (UInt64.ofNat ((Text.utf8 s).length + 1)).toNat = (Image.encodeName s).length := by
    simpa [Image.encodeName] using Nat.mod_eq_of_lt hs
  refine (reads_word hs).bind ?_
  intro position rest
  rw [hlength, Action.bind_of_ok (reads_take (Image.encodeName s) position rest)]
  simp only [Image.encodeName, List.getLast?_concat, List.dropLast_concat, if_true,
    Text.ofUtf8?_utf8]
  rfl

/-- A number or text is read back from the constant pool. -/
theorem reads_constant {v : Value} (hv : Image.isPoolable v = true)
    (htext : ∀ s, v = .text s → (Text.utf8 s).length + 1 < 2 ^ 64) :
    Reads constant (Image.encodeConstant v) v := by
  cases v with
  | byte n =>
    refine (reads_byte Tag.byte).bind ?_
    rw [if_pos rfl]
    exact (reads_byte n.toUInt8).map fun b => Value.byte b.toInt8
  | long n =>
    refine (reads_byte Tag.long).bind ?_
    rw [if_neg (by decide), if_pos rfl]
    exact (reads_fixedWord n.toUInt64).map fun w => Value.long w.toInt64
  | double d =>
    refine (reads_byte Tag.double).bind ?_
    rw [if_neg (by decide), if_neg (by decide), if_pos rfl]
    exact (reads_fixedWord d.bits).map fun w => Value.double ⟨w⟩
  | uint64 n =>
    refine (reads_byte Tag.uint64).bind ?_
    rw [if_neg (by decide), if_neg (by decide), if_neg (by decide), if_pos rfl]
    exact (reads_fixedWord n).map Value.uint64
  | text s =>
    refine (reads_byte Tag.string).bind ?_
    rw [if_neg (by decide), if_neg (by decide), if_neg (by decide), if_neg (by decide), if_pos rfl]
    exact (reads_text (htext s rfl)).map Value.text
  | _ => simp [Image.isPoolable] at hv

/-- A complete type is read back. -/
theorem reads_tags {types : List Tag} (h : Tag.IsComplete types) : Reads tags types types := by
  obtain ⟨wrappers, last, rfl, hwrappers, hlast⟩ := h
  induction wrappers with
  | nil =>
    intro position rest
    have hend : Tag.isKnown last = true ∧ Tag.isWrapper last = false := by
      simp only [List.mem_cons, List.not_mem_nil, or_false] at hlast
      rcases hlast with rfl | rfl | rfl | rfl | rfl | rfl | rfl | rfl <;> decide
    simp [tags, tagsFrom, hend.1, hend.2]
  | cons t wrappers ih =>
    intro position rest
    have hwrapper : Tag.isKnown t = true ∧ Tag.isWrapper t = true := by
      have ht := hwrappers t (by simp)
      simp only [List.mem_cons, List.not_mem_nil, or_false] at ht
      rcases ht with rfl | rfl | rfl <;> decide
    have hrest := ih (fun u hu => hwrappers u (by simp [hu])) (position + 1) rest
    simp only [tags] at hrest
    simp only [tags, List.cons_append, tagsFrom, hwrapper.1, hwrapper.2, hrest]
    simp; omega

/-- An operand or parameter is read back. -/
theorem reads_operand (n : UInt64) : Reads word (Image.encodeWord n) n := by
  have hread := reads_word n.toNat_lt
  rwa [UInt64.ofNat_toNat] at hread

/-- Operands are read back. -/
theorem reads_operands (operands : List UInt64) :
    Reads (times word operands.length) (operands.flatMap Image.encodeWord) operands := by
  have hword : ∀ n ∈ operands, Reads word (Image.encodeWord n) (id n) := fun n _ => reads_operand n
  simpa using reads_times hword

end Read

/-- Every opcode is found by its byte. -/
theorem Opcode.ofCode?_code (op : Opcode) : Opcode.ofCode? op.code = some op := by
  cases op <;> rfl

namespace Read

/-- An instruction that has its operands is read back. -/
theorem reads_instruction {i : Instruction} (hi : i.HasArity) :
    Reads instruction (Image.encodeInstruction i) i := by
  refine (reads_byte i.opcode.code).bind ?_
  rw [Opcode.ofCode?_code]
  obtain ⟨opcode, operands⟩ := i
  simp only [Instruction.HasArity] at hi ⊢
  cases harity : opcode.arity with
  | fixed count =>
    simp only [harity] at hi ⊢
    rw [← hi]
    exact (reads_operands operands).map fun operands => Instruction.mk opcode operands
  | counted leading =>
    simp only [harity] at hi ⊢
    obtain ⟨count, hcount, hlength⟩ := hi
    have hpositive : 0 < leading := Opcode.leading_pos harity
    -- the leading operands end in the count, and the rest are as many as it says
    have hleading : (operands.take leading).length = leading := by
      rw [List.length_take]; omega
    have hlast : ((operands.take leading).getLast?.getD 0) = count := by
      rw [List.getLast?_eq_getElem?, hleading, List.getElem?_take_of_lt (by omega), hcount]
      rfl
    have hfurther : (operands.drop leading).length = count.toNat := by
      rw [List.length_drop]; omega
    have hsplit : operands.flatMap Image.encodeWord =
        (operands.take leading).flatMap Image.encodeWord ++
          (operands.drop leading).flatMap Image.encodeWord := by
      rw [← List.flatMap_append, List.take_append_drop]
    have hfirst := reads_operands (operands.take leading)
    rw [hleading] at hfirst
    have hsecond := (reads_operands (operands.drop leading)).map fun further =>
      Instruction.mk opcode (operands.take leading ++ further)
    rw [hfurther, ← hlast, List.take_append_drop] at hsecond
    change Reads _ (operands.flatMap Image.encodeWord) _
    rw [hsplit]
    exact hfirst.bind hsecond

/-- The rest of a method is read back under the name and the marker read before. -/
theorem reads_functionRest {f : Function} (name : String) (hlegible : f.Legible)
    (haddressable : f.Addressable) :
    Reads (functionRest name f.variadic) (Image.encodeCounted Image.encodeWord f.params ++
      Image.encodeCounted Image.encodeInstruction f.code.toList) { f with name := name } := by
  have hparams : Reads (counted word) (Image.encodeCounted Image.encodeWord f.params) f.params := by
    have hword : ∀ n ∈ f.params, Reads word (Image.encodeWord n) (id n) := fun n _ => reads_operand n
    simpa using reads_counted haddressable.params_length hword
  have hcode : Reads (counted instruction)
      (Image.encodeCounted Image.encodeInstruction f.code.toList) f.code.toList := by
    have hitem : ∀ i ∈ f.code.toList, Reads instruction (Image.encodeInstruction i) (id i) :=
      fun i hi => reads_instruction (hlegible.code_arity i (by simpa using hi))
    simpa using reads_counted haddressable.code_size hitem
  refine hparams.bind ?_
  dsimp only
  rw [if_neg]
  · exact hcode.map fun code => Function.mk name f.variadic f.params code.toArray
  · intro hfew
    simp only [Bool.and_eq_true, decide_eq_true_eq] at hfew
    have htwo := hlegible.variadic_params hfew.1
    omega

end Read

/-- The method as it is read back: without the point in front of its name. -/
def Function.unpointed (f : Function) : Function := { f with name := Read.methodName f.name }

/-- The class as it is read back. -/
def ClassDecl.unpointed (c : ClassDecl) : ClassDecl :=
  { c with methods := c.methods.map Function.unpointed }

/-- The image as it is read back. -/
def Image.unpointed (m : Image) : Image :=
  { m with classes := m.classes.map ClassDecl.unpointed }

namespace Read

/-- The count of the parameters of a plain method does not look like the variadic marker. -/
theorem head?_encode_ne_marker {n : Nat} (hn : n < 128 ∨ n % 128 ≠ 127) :
    (Uleb.encode n).head? ≠ some Image.variadicMarker := by
  rw [Uleb.head?_encode]
  intro hmarker
  have hbyte := congrArg UInt8.toNat (Option.some.inj hmarker)
  have hmark : Image.variadicMarker.toNat = 255 := rfl
  rw [hmark, UInt8.toNat_ofNat'] at hbyte
  split at hbyte <;> omega

/-- A legible method is read back without the point in front of its name. -/
theorem reads_function {f : Function} (hlegible : f.Legible) (haddressable : f.Addressable) :
    Reads function (Image.encodeFunction f) f.unpointed := by
  have hrest := reads_functionRest (methodName f.name) hlegible haddressable
  rw [function_eq]
  unfold Image.encodeFunction
  rw [List.append_assoc, List.append_assoc]
  refine (reads_name hlegible.name_closed).bind fun position rest => ?_
  have hpeek : ∀ c : Cursor, peek c = .ok c.rest.head? c := fun _ => rfl
  rw [Action.bind_of_ok (hpeek _)]
  cases hvariadic : f.variadic with
  | true =>
    have hmarked : Reads (byte >>= fun _ => functionRest (methodName f.name) f.variadic)
        ([Image.variadicMarker] ++ (Image.encodeCounted Image.encodeWord f.params ++
          Image.encodeCounted Image.encodeInstruction f.code.toList)) f.unpointed :=
      (reads_byte Image.variadicMarker).bind hrest
    rw [hvariadic] at hmarked
    simpa using hmarked position rest
  | false =>
    have hhead : (Image.encodeCounted Image.encodeWord f.params ++
        Image.encodeCounted Image.encodeInstruction f.code.toList ++ rest).head? =
        (Uleb.encode f.params.length).head? := by
      simp [Image.encodeCounted, List.head?_append, Uleb.head?_encode]
    have hplain := head?_encode_ne_marker (hlegible.plain_params hvariadic)
    have hmarker : ((Uleb.encode f.params.length).head? == some Image.variadicMarker) = false := by
      simpa using hplain
    rw [hvariadic] at hrest
    simp only [Bool.false_eq_true, if_false, List.nil_append, hhead, hmarker]
    rw [hrest position rest, Function.unpointed, hvariadic]

/-- A legible member is read back. -/
theorem reads_member {m : Member} (hlegible : m.Legible) :
    Reads member (Image.encodeMember m) m :=
  (reads_name hlegible.name_closed).bind
    ((reads_tags hlegible.tags_complete).map fun tags => Member.mk m.name tags)

/-- A legible class is read back without the points in front of its method names. -/
theorem reads_classDecl {c : ClassDecl} (hlegible : c.Legible) (haddressable : c.Addressable) :
    Reads classDecl (Image.encodeClass c) c.unpointed := by
  have hmembers : Reads (counted member) (Image.encodeCounted Image.encodeMember c.members)
      (c.members.map id) :=
    reads_counted haddressable.members_length fun m hm => reads_member (hlegible.members_legible m hm)
  have hmethods : Reads (counted function) (Image.encodeCounted Image.encodeFunction c.methods)
      (c.methods.map Function.unpointed) :=
    reads_counted haddressable.methods_length fun f hf =>
      reads_function (hlegible.methods_legible f hf) (haddressable.methods_addressable f hf)
  rw [List.map_id] at hmembers
  unfold Image.encodeClass
  rw [List.append_assoc]
  exact (reads_name hlegible.name_closed).bind
    (hmembers.bind (hmethods.map fun methods => ClassDecl.mk c.name c.members methods))

/-- Classes are read back up to the end of the input, if there are bytes left to begin with for as
many classes. -/
theorem classes_encode {cs : List ClassDecl} (hlegible : ∀ c ∈ cs, c.Legible)
    (haddressable : ∀ c ∈ cs, c.Addressable) {n : Nat} (hn : cs.length ≤ n) (position : Nat) :
    classes n ⟨position, cs.flatMap Image.encodeClass⟩ =
      .ok (cs.map ClassDecl.unpointed)
        ⟨position + (cs.flatMap Image.encodeClass).length, []⟩ := by
  induction cs generalizing n position with
  | nil => cases n <;> rfl
  | cons c cs ih =>
    obtain ⟨n, rfl⟩ : ∃ k, n = k + 1 := ⟨n - 1, by simp at hn; omega⟩
    have hfirst := reads_classDecl (hlegible c (by simp)) (haddressable c (by simp)) position
      (cs.flatMap Image.encodeClass)
    have hothers := ih (fun d hd => hlegible d (by simp [hd])) (fun d hd => haddressable d (by simp [hd]))
      (by simpa using hn) (position + (Image.encodeClass c).length)
    have hmore : (Cursor.mk position ((c :: cs).flatMap Image.encodeClass)).atEnd = false := by
      simp [Cursor.atEnd, Image.encodeClass, Image.encodeName]
    have hget : (get : Read Cursor) ⟨position, (c :: cs).flatMap Image.encodeClass⟩ =
        .ok ⟨position, (c :: cs).flatMap Image.encodeClass⟩
          ⟨position, (c :: cs).flatMap Image.encodeClass⟩ := rfl
    unfold classes
    rw [Action.bind_of_ok hget, hmore, if_neg (by simp), List.flatMap_cons,
      Action.bind_of_ok hfirst, Action.bind_of_ok hothers]
    simp [Nat.add_assoc]
    rfl

/-- The magic and version bytes are recognised. -/
theorem reads_header : Reads header (Image.magic ++ Image.version) () := fun _ _ => rfl

/-- There are at most as many classes as bytes. -/
theorem length_le_flatMap_encodeClass (cs : List ClassDecl) :
    cs.length ≤ (cs.flatMap Image.encodeClass).length := by
  induction cs with
  | nil => simp
  | cons c cs ih =>
    have hone : 1 ≤ (Image.encodeClass c).length := by
      simp [Image.encodeClass, Image.encodeName]
      omega
    rw [List.flatMap_cons, List.length_append, List.length_cons]
    omega

/-- A legible image is read back without the points in front of its method names. -/
theorem image_encode {m : Image} (hlegible : m.Legible) (haddressable : m.Addressable) :
    ∃ c, image (Cursor.ofBytes m.encode) = .ok m.unpointed c := by
  have hconstants : Reads (counted constant)
      (Image.encodeCounted Image.encodeConstant m.constants.toList)
      (m.constants.toList.map id) := by
    refine reads_counted haddressable.constants_size fun v hv => ?_
    have hmem : v ∈ m.constants := by simpa using hv
    refine reads_constant (hlegible.constants_poolable v hmem) ?_
    rintro s rfl
    exact haddressable.texts_length s hmem
  have hheap : Reads (counted tags) (Image.encodeCounted id m.heap) (m.heap.map id) :=
    reads_counted haddressable.heap_length fun types htypes =>
      reads_tags (hlegible.heap_complete types htypes)
  rw [List.map_id] at hconstants hheap
  have hbytes : m.encode = (Image.magic ++ Image.version) ++
      (Image.encodeCounted Image.encodeConstant m.constants.toList ++
        (Image.encodeCounted id m.heap ++ m.classes.flatMap Image.encodeClass)) := by
    simp [Image.encode]
  have hget : ∀ c : Cursor, (get : Read Cursor) c = .ok c c := fun _ => rfl
  unfold image Cursor.ofBytes
  rw [hbytes, Action.bind_of_ok (reads_header _ _), Action.bind_of_ok (hconstants _ _),
    Action.bind_of_ok (hheap _ _), Action.bind_of_ok (hget _),
    Action.bind_of_ok (classes_encode hlegible.classes_legible haddressable.classes_addressable
      (length_le_flatMap_encodeClass m.classes) _)]
  exact ⟨_, rfl⟩

/-- A text whose length does not fit into 64 bits cannot be read. -/
theorem constant_encode_text_ne_ok {s : String} (hs : 2 ^ 64 ≤ (Text.utf8 s).length + 1)
    {position : Nat} {rest : List UInt8} {v : Value} {c : Cursor} :
    constant ⟨position, Image.encodeConstant (.text s) ++ rest⟩ ≠ .ok v c := by
  intro h
  obtain ⟨t, c₁, ht, h⟩ := Action.bind_eq_ok_iff.mp h
  cases ht
  change (text >>= fun s => pure (Value.text s)) _ = _ at h
  obtain ⟨_, c₂, htext, -⟩ := Action.bind_eq_ok_iff.mp h
  obtain ⟨length, c₃, hlength, -⟩ := Action.bind_eq_ok_iff.mp htext
  simp only [word, List.append_eq, List.append_assoc, Uleb.decode_encode_eq_none hs, flawed] at hlength
  cases hlength

/-- Constants that can be read from their bytes have texts whose length fits into 64 bits. -/
theorem texts_length_of_times {vs : List Value} (hpool : ∀ v ∈ vs, Image.isPoolable v = true)
    {position : Nat} {rest : List UInt8} {read : List Value} {c : Cursor}
    (h : times constant vs.length ⟨position, vs.flatMap Image.encodeConstant ++ rest⟩ = .ok read c) :
    ∀ s, Value.text s ∈ vs → (Text.utf8 s).length + 1 < 2 ^ 64 := by
  induction vs generalizing position read c with
  | nil => simp
  | cons v vs ih =>
    rw [List.length_cons, List.flatMap_cons, List.append_assoc] at h
    obtain ⟨first, c₁, hfirst, h⟩ := Action.bind_eq_ok_iff.mp h
    obtain ⟨others, c₂, hothers, -⟩ := Action.bind_eq_ok_iff.mp h
    have hshort : ∀ s, v = .text s → (Text.utf8 s).length + 1 < 2 ^ 64 := by
      rintro s rfl
      by_contra hlong
      exact constant_encode_text_ne_ok (by omega) hfirst
    have hread := reads_constant (hpool v (by simp)) hshort position
      (vs.flatMap Image.encodeConstant ++ rest)
    rw [hread] at hfirst
    cases hfirst
    intro s hs
    rcases List.mem_cons.mp hs with rfl | hs
    · exact hshort s rfl
    · exact ih (fun v hv => hpool v (by simp [hv])) hothers s hs

/-- An image that can be read from its bytes has texts whose length fits into 64 bits. -/
theorem texts_length_of_image {m read : Image} (hlegible : m.Legible)
    (hsize : m.constants.size < 2 ^ 64) {c : Cursor}
    (h : image (Cursor.ofBytes m.encode) = .ok read c) :
    ∀ s, Value.text s ∈ m.constants → (Text.utf8 s).length + 1 < 2 ^ 64 := by
  have hbytes : m.encode = (Image.magic ++ Image.version) ++
      (Uleb.encode m.constants.toList.length ++ (m.constants.toList.flatMap Image.encodeConstant ++
        (Image.encodeCounted id m.heap ++ m.classes.flatMap Image.encodeClass))) := by
    simp [Image.encode, Image.encodeCounted]
  have hword : (UInt64.ofNat m.constants.toList.length).toNat = m.constants.toList.length := by
    simpa using Nat.mod_eq_of_lt hsize
  have hlength : m.constants.toList.length < 2 ^ 64 := hsize
  unfold image Cursor.ofBytes at h
  rw [hbytes, Action.bind_of_ok (reads_header _ _)] at h
  obtain ⟨constants, c₁, hconstants, -⟩ := Action.bind_eq_ok_iff.mp h
  unfold counted at hconstants
  rw [Action.bind_of_ok (reads_word hlength _ _), hword] at hconstants
  intro s hs
  refine texts_length_of_times (fun v hv => ?_) hconstants s (by simpa using hs)
  exact hlegible.constants_poolable v (by simpa using hv)

end Read

/-- No method name begins with a point. -/
def Image.Unpointed (m : Image) : Prop :=
  ∀ c ∈ m.classes, ∀ f ∈ c.methods, f.name.toList.head? ≠ some '.'

/-- A name stays as it is when its point is dropped exactly if it has none. -/
theorem Read.methodName_eq_self_iff (s : String) :
    Read.methodName s = s ↔ s.toList.head? ≠ some '.' := by
  unfold Read.methodName
  split
  · rename_i rest hrest
    have hne : String.ofList rest ≠ s := by
      intro heq
      have hlength := congrArg List.length hrest
      rw [← heq] at hlength
      simp at hlength
    simp [hrest, hne]
  · rename_i hpoint
    simp only [true_iff, ne_eq]
    intro hhead
    obtain ⟨rest, hrest⟩ := List.head?_eq_some_iff.mp hhead
    exact hpoint rest hrest

private theorem map_eq_self_iff {α : Type} {f : α → α} {items : List α} :
    items.map f = items ↔ ∀ x ∈ items, f x = x := by
  simpa using List.map_inj_left (f := f) (g := id) (l := items)

/-- Reading loses nothing exactly if there are no points to drop. -/
theorem Image.unpointed_eq_self_iff (m : Image) : m.unpointed = m ↔ m.Unpointed := by
  have hfunction (f : Function) : f.unpointed = f ↔ f.name.toList.head? ≠ some '.' := by
    rw [← Read.methodName_eq_self_iff]
    obtain ⟨name, variadic, params, code⟩ := f
    simp [Function.unpointed]
  have hclass (c : ClassDecl) :
      c.unpointed = c ↔ ∀ f ∈ c.methods, f.name.toList.head? ≠ some '.' := by
    obtain ⟨name, members, methods⟩ := c
    simp only [ClassDecl.unpointed, ClassDecl.mk.injEq, true_and, map_eq_self_iff, hfunction]
  obtain ⟨constants, heap, classes⟩ := m
  simp only [Image.unpointed, Image.Unpointed, Image.mk.injEq, true_and, map_eq_self_iff, hclass]

/-- Decoding the bytes of an image gives the image back exactly if its lists are counted by 64-bit
numbers, it is legible, and no method name begins with a point. -/
theorem Image.decode_encode_eq_ok_iff (m : Image) :
    Image.decode m.encode = .ok m ↔ m.Addressable ∧ m.Legible ∧ m.Unpointed := by
  constructor
  · intro h
    obtain ⟨c, hc⟩ := Image.decode_eq_ok_iff.mp h
    obtain ⟨hlegible, hconstants, hheap, hclasses⟩ := Read.yields_image hc
    have htexts := Read.texts_length_of_image hlegible hconstants hc
    have haddressable : m.Addressable := ⟨hconstants, htexts, hheap, hclasses⟩
    obtain ⟨c', hc'⟩ := Read.image_encode hlegible haddressable
    have hsame : m = m.unpointed := by
      rw [hc] at hc'
      exact (EStateM.Result.ok.inj hc').1
    exact ⟨haddressable, hlegible, m.unpointed_eq_self_iff.mp hsame.symm⟩
  · rintro ⟨haddressable, hlegible, hunpointed⟩
    obtain ⟨c, hc⟩ := Read.image_encode hlegible haddressable
    rw [m.unpointed_eq_self_iff.mpr hunpointed] at hc
    exact Image.decode_eq_ok_iff.mpr ⟨c, hc⟩

end SlotMachine
