import SlotMachine.Text.Utf8
import SlotMachine.Uleb
import Mathlib.Tactic.Ring

/-!
# The two basic byte forms

Texts as UTF-8 and numbers in base 128 are what every other byte form of a module is made of. Both
are read back from what is written, whatever follows. A zero byte stands for a zero character and
for nothing else, so that a zero byte can close a name.
-/

namespace SlotMachine

namespace Text

/-- The bytes of a text are the bytes of its characters in a row. -/
theorem utf8_eq_flatMap (s : String) : utf8 s = s.toList.flatMap String.utf8EncodeChar := by
  unfold utf8
  rw [String.toUTF8_eq_toByteArray, ← String.utf8Encode_toList, List.utf8Encode]
  simp

/-- A text is read back from its bytes. -/
@[simp] theorem ofUtf8?_utf8 (s : String) : ofUtf8? (utf8 s) = some s := by
  have hvalid : (⟨(utf8 s).toArray⟩ : ByteArray).IsValidUTF8 := by
    simpa [utf8] using s.isValidUTF8
  unfold ofUtf8? String.fromUTF8?
  rw [dif_pos hvalid]
  simp [utf8, String.fromUTF8]

/-- Bytes that denote a text are its bytes: no text has two byte forms. -/
theorem utf8_of_ofUtf8? {bytes : List UInt8} {s : String} (h : ofUtf8? bytes = some s) :
    utf8 s = bytes := by
  unfold ofUtf8? String.fromUTF8? at h
  split at h
  · obtain rfl := Option.some.inj h
    simp [utf8, String.fromUTF8]
  · cases h

/-- The byte form of a character has a zero byte only if the character is zero. -/
theorem zero_mem_utf8EncodeChar {c : Char} (h : (0 : UInt8) ∈ String.utf8EncodeChar c) :
    c = '\x00' := by
  have hfirst : c.val.toNat ≤ 127 ∧ (0 : UInt8) = UInt8.ofNat c.val.toNat := by
    unfold String.utf8EncodeChar at h
    simp only at h
    split at h
    · exact ⟨‹_›, by simpa using h⟩
    · -- every byte of a longer form carries a high bit
      exfalso
      split at h
      all_goals
        try split at h
      all_goals
        simp only [List.mem_cons, List.not_mem_nil, or_false, ← UInt8.toNat_inj, UInt8.toNat_zero,
          UInt8.toNat_ofNat'] at h
        omega
  obtain ⟨hsmall, hzero⟩ := hfirst
  have hval : c.val.toNat = 0 := by
    have := congrArg UInt8.toNat hzero
    simp only [UInt8.toNat_zero, UInt8.toNat_ofNat'] at this
    omega
  exact Char.ext (UInt32.toNat_inj.mp hval)

/-- A text has a zero byte exactly if it has a zero character. -/
theorem zero_mem_utf8_iff (s : String) : (0 : UInt8) ∈ utf8 s ↔ '\x00' ∈ s.toList := by
  rw [utf8_eq_flatMap, List.mem_flatMap]
  constructor
  · rintro ⟨c, hc, hzero⟩
    rwa [← zero_mem_utf8EncodeChar hzero]
  · intro h
    exact ⟨'\x00', h, by decide⟩

end Text

namespace Uleb

/-- The first byte of an encoding: the number itself, or its last digit with the mark that another
byte follows. -/
theorem head?_encode (n : Nat) :
    (encode n).head? = some (UInt8.ofNat (if n < 128 then n else n % 128 + 128)) := by
  unfold encode
  split <;> simp

/-- Below place 9 a digit makes room for a number 128 times as large. -/
theorem room_succ {place : Nat} (hplace : place ≤ 8) :
    2 ^ (64 - 7 * place) = 128 * 2 ^ (64 - 7 * (place + 1)) := by
  have hexp : 64 - 7 * place = 7 + (64 - 7 * (place + 1)) := by omega
  rw [hexp, pow_add]
  norm_num

/-- Decoding an encoding from a place on gives the number back if it fits into the places that are
left up to bit 63, and fails otherwise. -/
theorem decodeFrom_encode (rest : List UInt8) {n place : Nat} (hplace : place ≤ 10) :
    decodeFrom place (encode n ++ rest) =
      if place ≤ 9 ∧ n < 2 ^ (64 - 7 * place) then some (n, (encode n).length) else none := by
  induction n using Nat.strongRecOn generalizing place with
  | ind n ih =>
    unfold encode
    by_cases hn : n < 128
    · rw [if_pos hn]
      have hdigit : (UInt8.ofNat n).toNat = n := by simp; omega
      simp only [List.cons_append, List.nil_append, decodeFrom, hdigit, if_pos hn]
      have hmod : n % 128 = n := Nat.mod_eq_of_lt hn
      rw [hmod]
      by_cases hlow : place ≤ 8
      · have hroom := room_succ hlow
        have hpos : 0 < 2 ^ (64 - 7 * (place + 1)) := Nat.two_pow_pos _
        rw [if_neg (by omega), if_pos (by omega)]
        rfl
      · rcases (by omega : place = 9 ∨ place = 10) with rfl | rfl
        · by_cases hbit : 1 < n
          · rw [if_pos (by omega), if_neg (by norm_num; omega)]
          · rw [if_neg (by omega), if_pos (by norm_num; omega)]
            rfl
        · rw [if_pos (by omega), if_neg (by omega)]
    · rw [if_neg hn]
      have hdigit : (UInt8.ofNat (n % 128 + 128)).toNat = n % 128 + 128 := by simp; omega
      simp only [List.cons_append, decodeFrom, hdigit]
      by_cases hlow : place ≤ 8
      · have hroom := room_succ hlow
        rw [if_neg (by omega), if_neg (by omega), ih (n / 128) (by omega) (by omega)]
        by_cases hfits : n / 128 < 2 ^ (64 - 7 * (place + 1))
        · rw [if_pos ⟨by omega, hfits⟩, if_pos ⟨by omega, by omega⟩]
          simp; omega
        · rw [if_neg (by omega), if_neg (by omega)]
          rfl
      · -- no digit follows place 9, and none may stand in place 10
        have hnone : ¬ (place ≤ 9 ∧ n < 2 ^ (64 - 7 * place)) := by
          rcases (by omega : place = 9 ∨ place = 10) with rfl | rfl
          · norm_num; omega
          · omega
        rw [if_neg hnone]
        split
        · rfl
        · rw [if_neg (by omega), ih (n / 128) (by omega) (by omega), if_neg (by omega)]
          rfl

/-- Decoding undoes encoding for every 64-bit number, whatever follows. -/
theorem decode_encode {n : Nat} (hn : n < 2 ^ 64) (rest : List UInt8) :
    decode (encode n ++ rest) = some (n, (encode n).length) := by
  rw [decode, decodeFrom_encode rest (by omega), if_pos ⟨by omega, by simpa using hn⟩]

/-- A number of more than 64 bits cannot be decoded. -/
theorem decode_encode_eq_none {n : Nat} (hn : 2 ^ 64 ≤ n) (rest : List UInt8) :
    decode (encode n ++ rest) = none := by
  rw [decode, decodeFrom_encode rest (by omega), if_neg]
  simp only [Nat.mul_zero, Nat.sub_zero]
  omega

/-- What is decoded from a place on fits into the places that are left up to bit 63. -/
theorem decodeFrom_lt {bytes : List UInt8} {place n used : Nat}
    (h : decodeFrom place bytes = some (n, used)) : n < 2 ^ (64 - 7 * place) := by
  induction bytes generalizing place n used with
  | nil => simp [decodeFrom] at h
  | cons b rest ih =>
    simp only [decodeFrom] at h
    split at h
    · cases h
    rename_i hdigit
    have hpos : 0 < 2 ^ (64 - 7 * (place + 1)) := Nat.two_pow_pos _
    split at h
    · simp only [Option.some.injEq, Prod.mk.injEq] at h
      obtain ⟨rfl, -⟩ := h
      by_cases hlow : place ≤ 8
      · rw [room_succ hlow]
        omega
      · obtain rfl : place = 9 := by omega
        norm_num
        omega
    · obtain ⟨⟨high, len⟩, hhigh, hsum⟩ := Option.map_eq_some_iff.mp h
      simp only [Prod.mk.injEq] at hsum
      have hfits := ih hhigh
      by_cases hlow : place ≤ 8
      · rw [room_succ hlow]
        omega
      · obtain rfl : place = 9 := by omega
        norm_num at hfits ⊢
        omega

/-- Every number that can be decoded has at most 64 bits. -/
theorem decode_lt {bytes : List UInt8} {n used : Nat} (h : decode bytes = some (n, used)) :
    n < 2 ^ 64 :=
  decodeFrom_lt h

/-- What is decoded ends in the digit of the first byte, and is that digit if no byte follows. -/
theorem decode_head {bytes : List UInt8} {n used : Nat} (h : decode bytes = some (n, used)) :
    ∃ b rest, bytes = b :: rest ∧ n % 128 = b.toNat % 128 ∧ (b.toNat < 128 → n = b.toNat) := by
  cases bytes with
  | nil => simp [decode, decodeFrom] at h
  | cons b rest =>
    refine ⟨b, rest, rfl, ?_⟩
    simp only [decode, decodeFrom] at h
    split at h
    · cases h
    · split at h
      · simp only [Option.some.injEq, Prod.mk.injEq] at h
        omega
      · obtain ⟨⟨high, len⟩, -, hsum⟩ := Option.map_eq_some_iff.mp h
        simp only [Prod.mk.injEq] at hsum
        omega

/-- The bytes of one number: all but the last carry the mark that another byte follows. -/
def IsNumeral (bytes : List UInt8) : Prop :=
  ∃ digits last, bytes = digits ++ [last] ∧ (∀ b ∈ digits, 128 ≤ b.toNat) ∧ last.toNat < 128

/-- A number that is decoded stands in a numeral at the front, and what follows does not matter. -/
theorem decodeFrom_numeral {bytes : List UInt8} {place n used : Nat}
    (h : decodeFrom place bytes = some (n, used)) :
    ∃ numeral rest, bytes = numeral ++ rest ∧ numeral.length = used ∧ IsNumeral numeral ∧
      ∀ rest', decodeFrom place (numeral ++ rest') = some (n, used) := by
  induction bytes generalizing place n used with
  | nil => simp [decodeFrom] at h
  | cons b rest ih =>
    simp only [decodeFrom] at h
    split at h
    · cases h
    rename_i hdigit
    split at h
    · rename_i hlast
      simp only [Option.some.injEq, Prod.mk.injEq] at h
      obtain ⟨rfl, rfl⟩ := h
      have hnumeral : IsNumeral [b] := ⟨[], b, rfl, by simp, hlast⟩
      refine ⟨[b], rest, rfl, rfl, hnumeral, fun rest' => ?_⟩
      simp only [List.cons_append, List.nil_append, decodeFrom]
      rw [if_neg hdigit, if_pos hlast]
    · rename_i hmore
      obtain ⟨⟨high, len⟩, hhigh, hsum⟩ := Option.map_eq_some_iff.mp h
      simp only [Prod.mk.injEq] at hsum
      obtain ⟨rfl, rfl⟩ := hsum
      obtain ⟨others, rest, rfl, rfl, ⟨digits, last, rfl, hdigits, hlast⟩, hothers⟩ := ih hhigh
      have hmarked : ∀ d ∈ b :: digits, 128 ≤ d.toNat := by
        intro d hd
        rcases List.mem_cons.mp hd with rfl | hd
        · omega
        · exact hdigits d hd
      refine ⟨b :: (digits ++ [last]), rest, rfl, rfl, ⟨b :: digits, last, rfl, hmarked, hlast⟩,
        fun rest' => ?_⟩
      rw [List.cons_append, decodeFrom]
      dsimp only
      rw [if_neg hdigit, if_neg hmore, hothers rest']
      rfl

/-- Bytes that all ask for another one denote no number. -/
theorem decodeFrom_unfinished {bytes : List UInt8} (h : ∀ b ∈ bytes, 128 ≤ b.toNat) (place : Nat) :
    decodeFrom place bytes = none := by
  induction bytes generalizing place with
  | nil => rfl
  | cons b rest ih =>
    have hb : 128 ≤ b.toNat := h b List.mem_cons_self
    have hrest : ∀ d ∈ rest, 128 ≤ d.toNat := fun d hd => h d (List.mem_cons_of_mem b hd)
    simp only [decodeFrom]
    split
    · rfl
    · rw [if_neg (by omega), ih hrest]
      rfl

end Uleb

end SlotMachine
