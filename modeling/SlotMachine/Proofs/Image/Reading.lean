import SlotMachine.Image.Cursor
import SlotMachine.Image.Encode
import SlotMachine.Proofs.Action
import SlotMachine.Proofs.Image.Bytes
import Mathlib.Data.List.TakeWhile

/-!
# Reading what was written

Two statements about a reader compose along its definition. `Read.Reads` says that the reader takes
exactly the given bytes for a value, whatever follows them. `Read.Yields` says what is true of every
value the reader can return, whatever the bytes are. The basic readers and counted repetition are
treated here for both.
-/

namespace SlotMachine.Read

variable {α β : Type}

/-- The reader takes exactly these bytes for `a`, whatever follows. -/
def Reads (item : Read α) (bytes : List UInt8) (a : α) : Prop :=
  ∀ position rest, item ⟨position, bytes ++ rest⟩ = .ok a ⟨position + bytes.length, rest⟩

/-- Every value that the reader returns has a property. -/
def Yields (item : Read α) (P : α → Prop) : Prop :=
  ∀ ⦃c a c'⦄, item c = .ok a c' → P a

/-- Returning a value takes no bytes. -/
theorem reads_pure (a : α) : Reads (pure a) [] a := fun _ _ => rfl

/-- Readers in a row take their bytes in a row. -/
theorem Reads.bind {item : Read α} {next : α → Read β} {first second : List UInt8} {a : α} {b : β}
    (hitem : Reads item first a) (hnext : Reads (next a) second b) :
    Reads (item >>= next) (first ++ second) b := by
  intro position rest
  rw [List.append_assoc, Action.bind_of_ok (hitem position (second ++ rest)), hnext]
  simp [Nat.add_assoc]

/-- A returned value can be changed afterwards. -/
theorem Reads.map {item : Read α} {bytes : List UInt8} {a : α} (hitem : Reads item bytes a)
    (f : α → β) : Reads (item >>= fun a => pure (f a)) bytes (f a) := by
  have hmapped : Reads (item >>= fun a => pure (f a)) (bytes ++ []) (f a) :=
    hitem.bind (reads_pure (f a))
  simpa using hmapped

/-- A property of everything that is read passes on to what is read next. -/
theorem Yields.bind {item : Read α} {next : α → Read β} {P : α → Prop} {Q : β → Prop}
    (hitem : Yields item P) (hnext : ∀ a, P a → Yields (next a) Q) :
    Yields (item >>= next) Q := by
  intro c b c' h
  obtain ⟨a, c₁, ha, hb⟩ := Action.bind_eq_ok_iff.mp h
  exact hnext a (hitem ha) hb

/-- A returned value has the properties it has. -/
theorem yields_pure {P : α → Prop} {a : α} (ha : P a) : Yields (pure a) P := by
  intro c b c' h
  obtain ⟨rfl, -⟩ := Action.pure_eq_ok_iff.mp h
  exact ha

/-- A failure returns nothing. -/
theorem yields_throw {P : α → Prop} (e : Fault) : Yields (throw e : Read α) P := by
  intro c a c' h
  cases h

/-- Failing at the present position returns nothing. -/
theorem yields_flawed {P : α → Prop} (flaw : Flaw) : Yields (flawed flaw : Read α) P := by
  intro c a c' h
  cases h

/-- Nothing need be known of what is read. -/
theorem yields_true (item : Read α) : Yields item fun _ => True := fun _ _ _ _ => trivial

section Basic

/-- One byte is read as itself. -/
theorem reads_byte (b : UInt8) : Reads byte [b] b := fun _ _ => rfl

/-- As many bytes as asked for are taken. -/
theorem reads_take (bytes : List UInt8) : Reads (take bytes.length) bytes bytes := by
  intro position rest
  simp [take, Cursor.skip]

/-- A number is read back from its shortest encoding. -/
theorem reads_word {n : Nat} (hn : n < 2 ^ 64) : Reads word (Uleb.encode n) (UInt64.ofNat n) := by
  intro position rest
  simp only [word, Uleb.decode_encode hn rest, Cursor.skip, List.drop_left]

/-- A name without a zero character is read back. -/
theorem reads_name {s : String} (hs : '\x00' ∉ s.toList) :
    Reads name (Image.encodeName s) s := by
  intro position rest
  rw [Image.encodeName]
  have hfree : ∀ b ∈ Text.utf8 s, (b != 0) = true := by
    intro b hb
    have hne : b ≠ 0 := by
      rintro rfl
      exact hs ((Text.zero_mem_utf8_iff s).mp hb)
    simpa using hne
  have hbytes : (Text.utf8 s ++ [0] ++ rest).takeWhile (· != 0) = Text.utf8 s := by
    rw [List.append_assoc, List.takeWhile_append_of_pos hfree]
    simp
  simp only [name, hbytes, Text.ofUtf8?_utf8]
  rw [if_neg (by simp)]
  simp [Cursor.skip]

/-- A name never has a zero character. -/
theorem yields_name : Yields name fun s => '\x00' ∉ s.toList := by
  intro c s c' h
  simp only [name] at h
  split at h
  · cases h
  · split at h
    · rename_i hutf
      cases h
      rw [← Text.zero_mem_utf8_iff, Text.utf8_of_ofUtf8? hutf]
      intro hzero
      simpa using List.mem_takeWhile_imp hzero
    · cases h

end Basic

section Repetition

variable {item : Read α}

/-- Items in a row are read in a row. What is read for an item may differ from the item. -/
theorem reads_times {encodeItem : β → List UInt8} {read : β → α} {items : List β}
    (hitems : ∀ x ∈ items, Reads item (encodeItem x) (read x)) :
    Reads (times item items.length) (items.flatMap encodeItem) (items.map read) := by
  induction items with
  | nil => exact reads_pure []
  | cons x items ih =>
    have hfirst := hitems x (by simp)
    have hothers := ih fun y hy => hitems y (by simp [hy])
    exact hfirst.bind (hothers.map fun others => read x :: others)

/-- A count and that many items are read back. -/
theorem reads_counted {encodeItem : β → List UInt8} {read : β → α} {items : List β}
    (hcount : items.length < 2 ^ 64) (hitems : ∀ x ∈ items, Reads item (encodeItem x) (read x)) :
    Reads (counted item) (Image.encodeCounted encodeItem items) (items.map read) := by
  have htimes := reads_times hitems
  have hword : (UInt64.ofNat items.length).toNat = items.length := by
    simpa using Nat.mod_eq_of_lt hcount
  rw [← hword] at htimes
  exact (reads_word hcount).bind htimes

/-- Repetition yields as many items as asked for, each with the property of an item. -/
theorem yields_times {P : α → Prop} (hitem : Yields item P) (n : Nat) :
    Yields (times item n) fun items => items.length = n ∧ ∀ x ∈ items, P x := by
  induction n with
  | zero => exact yields_pure ⟨rfl, by simp⟩
  | succ n ih =>
    refine hitem.bind fun first hfirst => ih.bind fun others hothers => yields_pure ⟨?_, ?_⟩
    · simp [hothers.1]
    · intro x hx
      rcases List.mem_cons.mp hx with rfl | hx
      · exact hfirst
      · exact hothers.2 x hx

/-- Counted repetition yields fewer than `2 ^ 64` items, each with the property of an item. -/
theorem yields_counted {P : α → Prop} (hitem : Yields item P) :
    Yields (counted item) fun items => items.length < 2 ^ 64 ∧ ∀ x ∈ items, P x := by
  refine (yields_true word).bind fun count _ => ?_
  intro c items c' h
  obtain ⟨hlength, hall⟩ := yields_times hitem count.toNat h
  exact ⟨by rw [hlength]; exact count.toNat_lt, hall⟩

end Repetition

end SlotMachine.Read
