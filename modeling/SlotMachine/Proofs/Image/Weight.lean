import SlotMachine.Proofs.Image.Truncation
import Mathlib.Algebra.BigOperators.Group.List.Basic
import Mathlib.Tactic.Common

/-!
# What bytes can hold

Everything in an image stands for a byte that nothing else stands for: constants, classes, members,
methods and instructions for the byte at which they begin or the one that closes their name, and
bytes of texts and names, tags, parameters and operands for themselves. So an image that is decoded
weighs no more than the bytes. For the same reason no count can be met that is larger than the number
of bytes that are left, and decoding is the same when every count is cut down to the length of the
input.
-/

namespace SlotMachine

/-- What a constant weighs: itself, and the bytes of a text. -/
def Value.weight : Value → Nat
  | .text s => 1 + (Text.utf8 s).length
  | _ => 1

/-- What an instruction weighs: itself and its operands. -/
def Instruction.weight (i : Instruction) : Nat :=
  1 + i.operands.length

/-- What a method weighs: itself, the bytes of its name, its parameters and its instructions. -/
def Function.weight (f : Function) : Nat :=
  1 + (Text.utf8 f.name).length + f.params.length + (f.code.toList.map Instruction.weight).sum

/-- What a member weighs: itself, the bytes of its name and its tags. -/
def Member.weight (m : Member) : Nat :=
  1 + (Text.utf8 m.name).length + m.tags.length

/-- What a class weighs: itself, the bytes of its name, its members and its methods. -/
def ClassDecl.weight (c : ClassDecl) : Nat :=
  1 + (Text.utf8 c.name).length + (c.members.map Member.weight).sum +
    (c.methods.map Function.weight).sum

/-- What an image weighs: its constants, the tags of its heap cells and its classes. -/
def Image.weight (m : Image) : Nat :=
  (m.constants.toList.map Value.weight).sum + (m.heap.map List.length).sum +
    (m.classes.map ClassDecl.weight).sum

namespace Read

variable {α β : Type}

/-- With so many bytes in hand, the reader takes enough more for the weight of what it returns. -/
def Affords (item : Read α) (saved : Nat) (weight : α → Nat) : Prop :=
  ∀ ⦃c a c'⦄, item c = .ok a c' → c'.rest.length + weight a ≤ c.rest.length + saved

section Affording

variable {item : Read α} {next : α → Read β} {weight : α → Nat} {total : β → Nat} {saved : Nat}

/-- What is returned without reading must have been paid for. -/
theorem affords_pure {a : α} (h : weight a ≤ saved) : Affords (pure a) saved weight := by
  intro c b c' hread
  obtain ⟨rfl, rfl⟩ := Action.pure_eq_ok_iff.mp hread
  omega

theorem affords_throw (e : Fault) : Affords (throw e : Read α) saved weight := by
  intro c a c' h
  cases h

theorem affords_flawed (flaw : Flaw) : Affords (flawed flaw : Read α) saved weight := by
  intro c a c' h
  cases h

/-- What the first reader takes is in hand for the second. -/
theorem Affords.bind (hitem : Affords item 0 weight)
    (hnext : ∀ a, Affords (next a) (saved + weight a) total) :
    Affords (item >>= next) saved total := by
  intro c b c' h
  obtain ⟨a, c₁, ha, hb⟩ := Action.bind_eq_ok_iff.mp h
  have hfirst := hitem ha
  have hsecond := hnext a hb
  omega

/-- More may be in hand. -/
theorem Affords.more {more : Nat} (hitem : Affords item saved weight) (hsaved : saved ≤ more) :
    Affords item more weight := by
  intro c a c' h
  have hread := hitem h
  omega

/-- What is returned may weigh less. -/
theorem Affords.less {less : α → Nat} (hitem : Affords item saved weight)
    (hweight : ∀ a, less a ≤ weight a) : Affords item saved less := by
  intro c a c' h
  have hread := hitem h
  have hless := hweight a
  omega

/-- Items in a row are paid for one by one. -/
theorem affords_times (hitem : Affords item 0 weight) (n : Nat) :
    Affords (times item n) 0 fun items => (items.map weight).sum := by
  induction n with
  | zero => exact affords_pure le_rfl
  | succ n ih => exact hitem.bind fun first => ih.bind fun others => affords_pure (by simp)

end Affording

section Basic

theorem affords_byte : Affords byte 0 fun _ => 1 := by
  rintro ⟨position, rest⟩ b c' h
  cases rest with
  | nil => cases h
  | cons first others =>
    cases h
    exact le_rfl

theorem affords_take (count : Nat) : Affords (take count) 0 List.length := by
  intro c chunk c' h
  simp only [take] at h
  split at h
  · cases h
    simp only [Cursor.skip, List.length_drop, List.length_take]
    omega
  · cases h

theorem affords_word : Affords word 0 fun _ => 1 := by
  intro c n c' h
  unfold word at h
  split at h
  · rename_i hdecode
    cases h
    obtain ⟨numeral, rest, hrest, rfl, ⟨digits, last, rfl, -, -⟩, -⟩ :=
      Uleb.decodeFrom_numeral hdecode
    simp only [Cursor.skip, hrest, List.length_drop, List.length_append, List.length_singleton]
    omega
  · cases h

/-- A name is paid for with one byte to spare, the one that closes it. -/
theorem affords_name : Affords name 0 fun s => 1 + (Text.utf8 s).length := by
  intro c s c' h
  rw [rest_of_name h, Image.encodeName]
  simp only [List.length_append, List.length_singleton]
  omega

theorem affords_tags : Affords tags 0 List.length := by
  intro c types c' h
  have hrest : c.rest = types ++ c'.rest := rest_of_tagsFrom h
  rw [hrest, List.length_append]
  omega

theorem affords_peek : Affords peek 0 fun _ => 0 := by
  intro c b c' h
  cases h
  exact le_rfl

theorem affords_get : Affords get 0 fun _ => 0 := by
  intro c a c' h
  cases h
  exact le_rfl

/-- Counted items are paid for without the count. -/
theorem affords_counted {item : Read α} {weight : α → Nat} (hitem : Affords item 0 weight) :
    Affords (counted item) 0 fun items => (items.map weight).sum :=
  affords_word.bind fun _ => (affords_times hitem _).more (Nat.zero_le _)

end Basic

section Sections

theorem affords_text : Affords text 0 fun s => (Text.utf8 s).length := by
  refine affords_word.bind fun length => (affords_take _).bind fun raw => ?_
  dsimp only
  split
  · rename_i s hutf
    refine affords_pure ?_
    -- The closing byte is left out at most.
    rw [Text.utf8_of_ofUtf8? hutf]
    split
    · rw [List.length_dropLast]
      omega
    · omega
  · exact affords_flawed _

theorem affords_constant : Affords constant 0 Value.weight := by
  have hword : Affords fixedWord 0 fun _ => 0 :=
    (affords_take 8).bind fun _ => affords_pure (Nat.zero_le _)
  refine affords_byte.bind fun t => ?_
  repeat' split
  · exact affords_byte.bind fun _ => affords_pure (by simp [Value.weight])
  · exact hword.bind fun _ => affords_pure (by simp [Value.weight])
  · exact hword.bind fun _ => affords_pure (by simp [Value.weight])
  · exact hword.bind fun _ => affords_pure (by simp [Value.weight])
  · exact affords_text.bind fun _ => affords_pure (by simp [Value.weight])
  · exact affords_throw _

theorem affords_instruction : Affords instruction 0 Instruction.weight := by
  refine affords_byte.bind fun code => ?_
  split
  · exact affords_throw _
  · split
    · refine (affords_times affords_word _).bind fun operands => affords_pure ?_
      simp [Instruction.weight]
    · refine (affords_times affords_word _).bind fun operands => ?_
      refine (affords_times affords_word _).bind fun further => affords_pure ?_
      simp [Instruction.weight]
      omega

/-- Parameters and code are paid for if the method and its name are. -/
theorem affords_functionRest (name : String) (variadic : Bool) :
    Affords (functionRest name variadic) (1 + (Text.utf8 name).length) Function.weight := by
  refine (affords_counted affords_word).bind fun params => ?_
  have hcode : Affords (do
      let code ← counted instruction
      pure (⟨name, variadic, params, code.toArray⟩ : Function))
      (1 + (Text.utf8 name).length + (params.map fun _ => 1).sum) Function.weight := by
    refine (affords_counted affords_instruction).bind fun code => affords_pure ?_
    simp [Function.weight]
  dsimp only
  split
  · have hrefused : Affords (flawed (.nothingToCollect name) : Read PUnit) 0 fun _ => 0 :=
      affords_flawed _
    exact hrefused.bind fun _ => hcode
  · exact hcode

/-- A name does not grow when its point is dropped. -/
theorem length_utf8_methodName (s : String) :
    (Text.utf8 (methodName s)).length ≤ (Text.utf8 s).length := by
  unfold methodName
  split
  · rename_i rest hrest
    rw [Text.utf8_eq_flatMap, Text.utf8_eq_flatMap s, hrest, String.toList_ofList,
      List.flatMap_cons, List.length_append]
    omega
  · exact le_rfl

theorem affords_function : Affords function 0 Function.weight := by
  rw [function_eq]
  refine affords_name.bind fun raw => affords_peek.bind fun next => ?_
  have hname := length_utf8_methodName raw
  have hrest := fun variadic => (affords_functionRest (methodName raw) variadic)
  split
  · exact affords_byte.bind fun _ => (hrest _).more (by omega)
  · exact (hrest _).more (by omega)

theorem affords_member : Affords member 0 Member.weight :=
  affords_name.bind fun name => affords_tags.bind fun tags => affords_pure (by
    simp [Member.weight])

theorem affords_classDecl : Affords classDecl 0 ClassDecl.weight :=
  affords_name.bind fun name => (affords_counted affords_member).bind fun members =>
    (affords_counted affords_function).bind fun methods => affords_pure (by
      simp [ClassDecl.weight])

theorem affords_classes (n : Nat) :
    Affords (classes n) 0 fun cs => (cs.map ClassDecl.weight).sum := by
  induction n with
  | zero => exact affords_pure le_rfl
  | succ n ih =>
    refine affords_get.bind fun cursor => ?_
    split
    · exact affords_pure le_rfl
    · exact affords_classDecl.bind fun first => ih.bind fun others => affords_pure (by simp)

/-- The header takes eight bytes. -/
theorem affords_header : Affords header 0 fun _ => 8 := by
  have hversion : Affords (do
      let version ← take 4
      if version ≠ Image.version then throw (.unsupportedVersion version) : Read Unit) 4
      fun _ => 8 := by
    refine (affords_take 4).bind fun version => ?_
    split
    · exact affords_throw _
    · rename_i hversion
      rw [not_not.mp hversion]
      exact affords_pure (by decide)
  refine (affords_take 4).bind fun magic => ?_
  dsimp only
  split
  · have hrefused : Affords (throw (.badMagic magic) : Read PUnit) 0 fun _ => 4 := affords_throw _
    exact hrefused.bind fun _ => hversion.more (by omega)
  · rename_i hmagic
    rw [not_not.mp hmagic]
    exact hversion.more (by decide)

theorem affords_image : Affords image 0 Image.weight :=
  affords_header.bind fun _ => (affords_counted affords_constant).bind fun constants =>
    (affords_counted affords_tags).bind fun heap => affords_get.bind fun cursor =>
      (affords_classes _).bind fun classes => affords_pure (by simp [Image.weight])

end Sections

section Counts

/-- A reader takes a byte at least. -/
abbrev Advances (item : Read α) : Prop :=
  Affords item 0 fun _ => 1

/-- A reader gives no bytes back. -/
abbrev Shrinks (item : Read α) : Prop :=
  Affords item 0 fun _ => 0

theorem Affords.shrinks {item : Read α} {weight : α → Nat} (h : Affords item 0 weight) :
    Shrinks item :=
  h.less fun _ => Nat.zero_le _

/-- No more items are read than there are bytes left: counts that are larger fail alike. -/
theorem times_of_beyond {item : Read α} (hitem : Advances item) {n k : Nat} {c : Cursor}
    (hn : c.rest.length < n) (hk : c.rest.length < k) : times item n c = times item k c := by
  induction n generalizing k c with
  | zero => omega
  | succ n ih =>
    obtain ⟨k, rfl⟩ : ∃ j, k = j + 1 := ⟨k - 1, by omega⟩
    cases hfirst : item c with
    | error e c₁ => rw [times, times, Action.bind_of_error hfirst, Action.bind_of_error hfirst]
    | ok first c₁ =>
      have hshorter : c₁.rest.length + 1 ≤ c.rest.length := hitem hfirst
      rw [times, times, Action.bind_of_ok hfirst, Action.bind_of_ok hfirst]
      exact Action.bind_congr (ih (by omega) (by omega))

/-- So a count may be cut down to any number above that of the bytes left. -/
theorem times_cut {item : Read α} (hitem : Advances item) (n : Nat) {limit : Nat} {c : Cursor}
    (hc : c.rest.length < limit) : times item n c = times item (min n limit) c := by
  by_cases hn : n ≤ limit
  · rw [Nat.min_eq_left hn]
  · rw [Nat.min_eq_right (by omega)]
    exact times_of_beyond hitem (by omega) hc

/-- Classes are read until no bytes are left, however many more might be read. -/
theorem classes_of_enough {n k : Nat} {c : Cursor} (hn : c.rest.length ≤ n)
    (hk : c.rest.length ≤ k) : classes n c = classes k c := by
  induction n generalizing k c with
  | zero =>
    obtain ⟨position, rest⟩ := c
    obtain rfl : rest = [] := List.length_eq_zero_iff.mp (by simpa using hn)
    cases k <;> rfl
  | succ n ih =>
    obtain ⟨position, rest⟩ := c
    by_cases hrest : rest = []
    · subst hrest
      cases k <;> rfl
    · have hpos : 0 < rest.length := List.length_pos_iff.mpr hrest
      obtain ⟨k, rfl⟩ : ∃ j, k = j + 1 := ⟨k - 1, by simp only at hk; omega⟩
      rw [classes_succ n position hrest, classes_succ k position hrest]
      cases hfirst : classDecl ⟨position, rest⟩ with
      | error e c₁ => rw [Action.bind_of_error hfirst, Action.bind_of_error hfirst]
      | ok first c₁ =>
        have hshorter := affords_classDecl hfirst
        simp only [ClassDecl.weight] at hn hk hshorter
        rw [Action.bind_of_ok hfirst, Action.bind_of_ok hfirst]
        exact Action.bind_congr (ih (by omega) (by omega))

/-- Read a count and that many items, but no more than the limit allows. -/
def countedWithin (limit : Nat) (item : Read α) : Read (List α) := do
  let count ← word
  times item (min count.toNat limit)

/-- An instruction with no more counted operands than the limit allows. -/
def instructionWithin (limit : Nat) : Read Instruction := do
  let code ← byte
  match Opcode.ofCode? code with
  | none => throw (.unknownOpcode code)
  | some opcode =>
    match opcode.arity with
    | .fixed count =>
      let operands ← times word count
      pure ⟨opcode, operands⟩
    | .counted leading =>
      let operands ← times word leading
      let further ← times word (min (operands.getLast?.getD 0).toNat limit)
      pure ⟨opcode, operands ++ further⟩

/-- Parameters and code of a method within the limit. -/
def functionRestWithin (limit : Nat) (name : String) (variadic : Bool) : Read Function := do
  let params ← countedWithin limit word
  if variadic && params.length < 2 then
    flawed (.nothingToCollect name)
  let code ← countedWithin limit (instructionWithin limit)
  pure ⟨name, variadic, params, code.toArray⟩

/-- A method within the limit. -/
def functionWithin (limit : Nat) : Read Function := do
  let raw ← name
  let next ← peek
  if next == some Image.variadicMarker then
    let _ ← byte
    functionRestWithin limit (methodName raw) (next == some Image.variadicMarker)
  else functionRestWithin limit (methodName raw) (next == some Image.variadicMarker)

/-- A class within the limit. -/
def classDeclWithin (limit : Nat) : Read ClassDecl := do
  let name ← name
  let members ← countedWithin limit member
  let methods ← countedWithin limit (functionWithin limit)
  pure ⟨name, members, methods⟩

/-- Classes within the limit, up to the end of the input but no more than the number. -/
def classesWithin (limit : Nat) : Nat → Read (List ClassDecl)
  | 0 => pure []
  | n + 1 => do
    if (← get).atEnd then pure []
    else
      let first ← classDeclWithin limit
      let others ← classesWithin limit n
      pure (first :: others)

/-- A module in which nothing is repeated more often than the limit allows. -/
def imageWithin (limit : Nat) : Read Image := do
  header
  let constants ← countedWithin limit constant
  let heap ← countedWithin limit tags
  let classes ← classesWithin limit limit
  pure ⟨constants.toArray, heap, classes⟩

/-- With fewer bytes left than the limit, the two readers do the same. -/
def AgreeBelow (limit : Nat) (item item' : Read α) : Prop :=
  ∀ ⦃c : Cursor⦄, c.rest.length < limit → item c = item' c

variable {limit : Nat} {item item' : Read α} {next next' : α → Read β}

theorem agree_refl (limit : Nat) (item : Read α) : AgreeBelow limit item item :=
  fun _ _ => rfl

/-- Readers in a row agree if they agree one by one, since the bytes do not become more. -/
theorem AgreeBelow.bind (hitem : AgreeBelow limit item item') (hshrinks : Shrinks item)
    (hnext : ∀ a, AgreeBelow limit (next a) (next' a)) :
    AgreeBelow limit (item >>= next) (item' >>= next') := by
  intro c hc
  have hsame := hitem hc
  cases hfirst : item c with
  | error e c₁ =>
    rw [Action.bind_of_error hfirst, Action.bind_of_error (hsame.symm.trans hfirst)]
  | ok a c₁ =>
    have hshorter := hshrinks hfirst
    rw [Action.bind_of_ok hfirst, Action.bind_of_ok (hsame.symm.trans hfirst)]
    exact hnext a (by omega)

/-- The same reader comes first. -/
theorem Affords.agree_bind {weight : α → Nat} (hitem : Affords item 0 weight)
    (hnext : ∀ a, AgreeBelow limit (next a) (next' a)) :
    AgreeBelow limit (item >>= next) (item >>= next') :=
  (agree_refl limit item).bind hitem.shrinks hnext

theorem AgreeBelow.times (hitem : AgreeBelow limit item item') (hshrinks : Shrinks item) (n : Nat) :
    AgreeBelow limit (times item n) (times item' n) := by
  induction n with
  | zero => exact agree_refl limit _
  | succ n ih =>
    refine hitem.bind hshrinks fun first => ih.bind ?_ fun others => agree_refl limit _
    exact (affords_times hshrinks n).shrinks

/-- A count may be cut down, and each item be read within the limit. -/
theorem AgreeBelow.counted (hitem : AgreeBelow limit item item') (hadvances : Advances item) :
    AgreeBelow limit (counted item) (countedWithin limit item') := by
  refine affords_word.agree_bind fun count c hc => ?_
  rw [times_cut hadvances count.toNat hc]
  exact hitem.times hadvances.shrinks _ hc

theorem agree_instruction (limit : Nat) :
    AgreeBelow limit instruction (instructionWithin limit) := by
  refine affords_byte.agree_bind fun code => ?_
  cases Opcode.ofCode? code with
  | none => exact agree_refl limit _
  | some opcode =>
    dsimp only
    cases opcode.arity with
    | fixed count => exact agree_refl limit _
    | counted leading =>
      refine (affords_times affords_word _).agree_bind fun operands c hc => ?_
      exact Action.bind_congr (times_cut affords_word _ hc)

theorem agree_functionRest (limit : Nat) (name : String) (variadic : Bool) :
    AgreeBelow limit (functionRest name variadic) (functionRestWithin limit name variadic) := by
  have hadvances : Advances instruction :=
    affords_instruction.less fun i => Nat.le_add_right 1 _
  have hcode : ∀ params : List UInt64, AgreeBelow limit
      (do let code ← counted instruction
          pure (⟨name, variadic, params, code.toArray⟩ : Function))
      (do let code ← countedWithin limit (instructionWithin limit)
          pure (⟨name, variadic, params, code.toArray⟩ : Function)) := fun params =>
    ((agree_instruction limit).counted hadvances).bind
      (affords_counted affords_instruction).shrinks fun _ => agree_refl limit _
  refine ((agree_refl limit word).counted affords_word).bind
    (affords_counted affords_word).shrinks fun params => ?_
  dsimp only
  split
  · have hrefused : Shrinks (flawed (.nothingToCollect name) : Read PUnit) := affords_flawed _
    exact hrefused.agree_bind fun _ => hcode params
  · exact hcode params

theorem agree_function (limit : Nat) : AgreeBelow limit function (functionWithin limit) := by
  rw [function_eq]
  refine affords_name.agree_bind fun raw => affords_peek.agree_bind fun next => ?_
  split
  · exact affords_byte.agree_bind fun _ => agree_functionRest limit _ _
  · exact agree_functionRest limit _ _

theorem agree_classDecl (limit : Nat) : AgreeBelow limit classDecl (classDeclWithin limit) := by
  have hmember : Advances member := affords_member.less fun m => by
    rw [Member.weight]
    omega
  have hfunction : Advances function := affords_function.less fun f => by
    rw [Function.weight]
    omega
  refine affords_name.agree_bind fun name => ?_
  refine ((agree_refl limit member).counted hmember).bind
    (affords_counted affords_member).shrinks fun members => ?_
  exact ((agree_function limit).counted hfunction).bind
    (affords_counted affords_function).shrinks fun methods => agree_refl limit _

theorem agree_classes (limit n : Nat) :
    AgreeBelow limit (classes n) (classesWithin limit n) := by
  induction n with
  | zero => exact agree_refl limit _
  | succ n ih =>
    refine affords_get.agree_bind fun cursor => ?_
    split
    · exact agree_refl limit _
    · exact (agree_classDecl limit).bind affords_classDecl.shrinks fun first =>
        ih.bind (affords_classes n).shrinks fun others => agree_refl limit _

/-- With the limit of all bytes, a module is read as it is without a limit. -/
theorem image_eq_imageWithin (c : Cursor) : image c = imageWithin c.rest.length c := by
  have htags : Advances tags := fun c types c' h => by
    have hnonempty : types ≠ [] := by
      obtain ⟨wrappers, last, rfl, -, -⟩ := yields_tags h
      simp
    have hlength := List.length_pos_iff.mpr hnonempty
    have hread := affords_tags h
    dsimp only
    omega
  have hconstant : Advances constant := affords_constant.less fun v => by
    cases v <;> simp [Value.weight]
  have hclasses : ∀ c₁ : Cursor, c₁.rest.length < c.rest.length →
      classes c₁.rest.length c₁ = classesWithin c.rest.length c.rest.length c₁ := fun c₁ hc₁ => by
    rw [classes_of_enough le_rfl hc₁.le]
    exact agree_classes _ _ hc₁
  unfold image imageWithin
  cases hheader : header c with
  | error e c₁ => rw [Action.bind_of_error hheader, Action.bind_of_error hheader]
  | ok u c₁ =>
    have hshorter : c₁.rest.length + 8 ≤ c.rest.length := affords_header hheader
    rw [Action.bind_of_ok hheader, Action.bind_of_ok hheader]
    refine ((agree_refl _ constant).counted hconstant).bind
      (affords_counted affords_constant).shrinks (fun constants => ?_) (by omega)
    refine ((agree_refl _ tags).counted htags).bind
      (affords_counted affords_tags).shrinks fun heap c₂ hc₂ => ?_
    exact Action.bind_congr (hclasses c₂ hc₂)

end Counts

end Read

namespace Image

/-- The image that the bytes of a module denote, read with every count cut down to the limit. -/
def decodeWithin (limit : Nat) (bytes : List UInt8) : Except Fault Image :=
  match Read.imageWithin limit (Cursor.ofBytes bytes) with
  | .ok m _ => .ok m
  | .error e _ => .error e

/-- Whatever the bytes are, decoding answers with an image or a fault. An image weighs no more than the
bytes: its constants, the bytes of its texts, the tags of its heap cells and members, of which every
heap cell has one at least, its classes, members, methods, parameters, instructions and operands and
the bytes of their names together. And whatever the counts in the bytes claim, nothing is repeated
more often than there are bytes: the answer is the same when every count is cut down to their
number. -/
theorem decode_within_bytes (bytes : List UInt8) :
    ((∃ m, decode bytes = .ok m ∧ m.weight ≤ bytes.length ∧
        ∀ types ∈ m.heap, 1 ≤ types.length) ∨
      ∃ e, decode bytes = .error e) ∧
    decode bytes = decodeWithin bytes.length bytes := by
  constructor
  · cases hdecode : decode bytes with
    | error e => exact .inr ⟨e, rfl⟩
    | ok m =>
      obtain ⟨c, hread⟩ := decode_eq_ok_iff.mp hdecode
      have hweight : c.rest.length + m.weight ≤ bytes.length := Read.affords_image hread
      refine .inl ⟨m, rfl, by omega, ?_⟩
      intro types htypes
      obtain ⟨wrappers, last, rfl, -, -⟩ := (legible_of_decode hdecode).heap_complete types htypes
      simp
  · rw [decode, decodeWithin, Read.image_eq_imageWithin]
    rfl

end Image

end SlotMachine
