import SlotMachine.Proofs.Image.Bytes
import Mathlib.Algebra.BigOperators.Ring.List
import Mathlib.Tactic.Common
import Mathlib.Tactic.Ring

/-!
# Numerals

The bytes of a number are a numeral: its digits in base 128, least significant first, all but the last
with the mark that another byte follows. A numeral is read exactly if it has at most ten digits and
its number at most 64 bits, and then as its number. A number has as many numerals as there is room
for zero digits behind it; the one that is written is the shortest.
-/

namespace SlotMachine.Uleb

variable {bytes numeral rest : List UInt8} {place n used : Nat}

/-- The number that the digits denote. -/
def digitSum (bytes : List UInt8) : Nat :=
  (bytes.mapIdx fun i b => b.toNat % 128 * 128 ^ i).sum

/-- The first digit counts once and all others 128 times as much as by themselves. -/
theorem digitSum_cons (b : UInt8) (rest : List UInt8) :
    digitSum (b :: rest) = b.toNat % 128 + 128 * digitSum rest := by
  have hshift : (rest.mapIdx fun i b => b.toNat % 128 * 128 ^ (i + 1)) =
      (rest.mapIdx fun i b => b.toNat % 128 * 128 ^ i).map fun d => 128 * d := by
    refine List.ext_getElem (by simp) fun i _ _ => ?_
    simp only [List.getElem_mapIdx, List.getElem_map]
    ring
  rw [digitSum, List.mapIdx_cons, List.sum_cons, hshift, List.sum_map_mul_left, List.map_id']
  simp [digitSum]

/-- A numeral is one byte without the mark, or a byte with the mark in front of a numeral. -/
theorem isNumeral_cons_iff {b : UInt8} :
    IsNumeral (b :: rest) ↔ (b.toNat < 128 ∧ rest = []) ∨ (128 ≤ b.toNat ∧ IsNumeral rest) := by
  constructor
  · rintro ⟨digits, last, heq, hdigits, hlast⟩
    cases digits with
    | nil =>
      obtain ⟨rfl, rfl⟩ := List.cons.inj heq
      exact .inl ⟨hlast, rfl⟩
    | cons d digits =>
      obtain ⟨rfl, rfl⟩ := List.cons.inj heq
      exact .inr ⟨hdigits b (by simp), digits, last, rfl,
        fun d hd => hdigits d (List.mem_cons_of_mem b hd), hlast⟩
  · rintro (⟨hlast, rfl⟩ | ⟨hmarked, digits, last, rfl, hdigits, hlast⟩)
    · exact ⟨[], b, rfl, by simp, hlast⟩
    · refine ⟨b :: digits, last, rfl, fun d hd => ?_, hlast⟩
      rcases List.mem_cons.mp hd with rfl | hd
      · exact hmarked
      · exact hdigits d hd

theorem IsNumeral.ne_nil (h : IsNumeral numeral) : numeral ≠ [] := by
  obtain ⟨digits, last, rfl, -, -⟩ := h
  simp

/-- Reading from a place on takes no more digits than there are places left, and gives the number that
they denote. -/
theorem digitSum_of_decodeFrom (h : decodeFrom place bytes = some (n, used)) :
    place + used ≤ 10 ∧ digitSum (bytes.take used) = n := by
  induction bytes generalizing place n used with
  | nil => simp [decodeFrom] at h
  | cons b rest ih =>
    simp only [decodeFrom] at h
    split at h
    · cases h
    rename_i hplace
    split at h
    · simp only [Option.some.injEq, Prod.mk.injEq] at h
      obtain ⟨rfl, rfl⟩ := h
      refine ⟨by omega, ?_⟩
      rw [List.take_succ_cons, List.take_zero, digitSum_cons]
      rfl
    · obtain ⟨⟨high, len⟩, hhigh, hsum⟩ := Option.map_eq_some_iff.mp h
      simp only [Prod.mk.injEq] at hsum
      obtain ⟨rfl, rfl⟩ := hsum
      obtain ⟨hplaces, hdigits⟩ := ih hhigh
      refine ⟨by omega, ?_⟩
      rw [List.take_succ_cons, digitSum_cons, hdigits]

/-- A numeral for which there are places enough, and room up to bit 63, is read as its number,
whatever follows. -/
theorem decodeFrom_of_numeral (hnumeral : IsNumeral numeral)
    (hplaces : place + numeral.length ≤ 10) (hfits : digitSum numeral < 2 ^ (64 - 7 * place))
    (rest : List UInt8) :
    decodeFrom place (numeral ++ rest) = some (digitSum numeral, numeral.length) := by
  induction numeral generalizing place with
  | nil => exact absurd rfl hnumeral.ne_nil
  | cons b others ih =>
    rw [digitSum_cons] at hfits ⊢
    simp only [List.length_cons] at hplaces ⊢
    rw [List.cons_append, decodeFrom]
    dsimp only
    rcases isNumeral_cons_iff.mp hnumeral with ⟨hlast, rfl⟩ | ⟨hmarked, hothers⟩
    · have hnone : digitSum [] = 0 := rfl
      rw [hnone] at hfits ⊢
      have hroom : ¬ (10 ≤ place ∨ place = 9 ∧ 1 < b.toNat % 128) := by
        rintro (htoofar | ⟨rfl, hdigit⟩)
        · simp only [List.length_nil] at hplaces
          omega
        · norm_num at hfits
          omega
      rw [if_neg hroom, if_pos hlast]
      rfl
    · have hpos : 0 < others.length := List.length_pos_iff.mpr hothers.ne_nil
      rw [room_succ (by omega)] at hfits
      rw [if_neg (by omega), if_neg (by omega), ih hothers (by omega) (by omega)]
      rfl

/-- The bytes begin with a numeral of at most ten digits, whose number has at most 64 bits. -/
structure Begins (bytes numeral : List UInt8) : Prop where
  /-- The numeral stands in front. -/
  front : numeral <+: bytes
  /-- Its last byte and no other is without the mark. -/
  isNumeral : IsNumeral numeral
  /-- There is a place for each of its digits. -/
  places : numeral.length ≤ 10
  /-- Its number fits. -/
  fits : digitSum numeral < 2 ^ 64

/-- What is read is the number of the numeral with which the bytes begin. -/
theorem decode_eq_some_iff :
    decode bytes = some (n, used) ↔
      ∃ numeral, Begins bytes numeral ∧ numeral.length = used ∧ digitSum numeral = n := by
  constructor
  · intro h
    obtain ⟨numeral, rest, rfl, rfl, hnumeral, -⟩ := decodeFrom_numeral h
    obtain ⟨hplaces, hsum⟩ := digitSum_of_decodeFrom h
    rw [List.take_left] at hsum
    have hfits : digitSum numeral < 2 ^ 64 := by
      rw [hsum]
      exact decode_lt h
    exact ⟨numeral, ⟨List.prefix_append _ _, hnumeral, by omega, hfits⟩, rfl, hsum⟩
  · rintro ⟨numeral, ⟨⟨rest, rfl⟩, hnumeral, hplaces, hfits⟩, rfl, rfl⟩
    exact decodeFrom_of_numeral hnumeral (by omega) hfits rest

/-- Nothing is read exactly if the bytes begin with no such numeral. -/
theorem decode_eq_none_iff : decode bytes = none ↔ ∀ numeral, ¬ Begins bytes numeral := by
  constructor
  · intro h numeral hbegins
    have hread := decode_eq_some_iff.mpr ⟨numeral, hbegins, rfl, rfl⟩
    rw [h] at hread
    cases hread
  · intro h
    by_contra hsome
    obtain ⟨⟨n, used⟩, hread⟩ := Option.ne_none_iff_exists'.mp hsome
    obtain ⟨numeral, hbegins, -⟩ := decode_eq_some_iff.mp hread
    exact h numeral hbegins

/-- What is written for a number is a numeral. -/
theorem isNumeral_encode (n : Nat) : IsNumeral (encode n) := by
  induction n using Nat.strongRecOn with
  | ind n ih =>
    unfold encode
    split
    · have hlast : (UInt8.ofNat n).toNat = n := by simp; omega
      exact isNumeral_cons_iff.mpr (.inl ⟨by omega, rfl⟩)
    · have hmarked : (UInt8.ofNat (n % 128 + 128)).toNat = n % 128 + 128 := by simp; omega
      exact isNumeral_cons_iff.mpr (.inr ⟨by omega, ih (n / 128) (by omega)⟩)

/-- An encoding is decoded as no other number. -/
theorem eq_of_decode_encode {k n used : Nat} (h : decode (encode k) = some (n, used)) : n = k := by
  by_cases hk : k < 2 ^ 64
  · have hdecode := decode_encode hk []
    rw [List.append_nil, h] at hdecode
    simp only [Option.some.injEq, Prod.mk.injEq] at hdecode
    exact hdecode.1
  · have hdecode := decode_encode_eq_none (Nat.not_lt.mp hk) []
    rw [List.append_nil, h] at hdecode
    cases hdecode

theorem encode_of_lt {n : Nat} (h : n < 128) : encode n = [UInt8.ofNat n] := by
  rw [encode, if_pos h]

/-- A number of several digits starts with its lowest digit and the mark that more follow. -/
theorem encode_of_high {b : UInt8} {high : Nat} (hb : 128 ≤ b.toNat) (hhigh : high ≠ 0) :
    encode (b.toNat % 128 + 128 * high) = b :: encode high := by
  have hbound := b.toNat_lt
  have hlow : (b.toNat % 128 + 128 * high) % 128 + 128 = b.toNat := by omega
  have hdiv : (b.toNat % 128 + 128 * high) / 128 = high := by omega
  rw [encode, if_neg (by omega), hlow, hdiv, UInt8.ofNat_toNat]

/-- A numeral is one byte, which is its number, or a digit in front of another numeral. -/
theorem numeral_cases {b : UInt8} {rest : List UInt8} {place n : Nat}
    (h : decodeFrom place (b :: rest) = some (n, (b :: rest).length)) :
    (b.toNat < 128 ∧ rest = [] ∧ n = b.toNat) ∨
      (128 ≤ b.toNat ∧ rest ≠ [] ∧ ∃ high, decodeFrom (place + 1) rest = some (high, rest.length) ∧
        n = b.toNat % 128 + 128 * high) := by
  simp only [decodeFrom] at h
  split at h
  · cases h
  split at h
  · rename_i hlast
    simp only [Option.some.injEq, Prod.mk.injEq, List.length_cons] at h
    obtain ⟨hn, hlength⟩ := h
    have hrest : rest = [] := List.length_eq_zero_iff.mp (by omega)
    exact .inl ⟨hlast, hrest, by rw [← hn, Nat.mod_eq_of_lt hlast]⟩
  · rename_i hmore
    obtain ⟨⟨high, len⟩, hhigh, hsum⟩ := Option.map_eq_some_iff.mp h
    simp only [Prod.mk.injEq, List.length_cons, Nat.add_right_cancel_iff] at hsum
    obtain ⟨rfl, rfl⟩ := hsum
    have hsome : rest ≠ [] := by
      rintro rfl
      cases hhigh
    exact .inr ⟨Nat.not_lt.mp hmore, hsome, high, hhigh, rfl⟩

/-- A numeral of the number zero ends in a zero digit. -/
theorem getLast?_of_zero {numeral : List UInt8} {place : Nat}
    (h : decodeFrom place numeral = some (0, numeral.length)) : numeral.getLast? = some 0 := by
  induction numeral generalizing place with
  | nil => simp [decodeFrom] at h
  | cons b rest ih =>
    rcases numeral_cases h with ⟨-, rfl, hb⟩ | ⟨-, hsome, high, hhigh, hsum⟩
    · have hzero : b = 0 := UInt8.toNat_inj.mp hb.symm
      rw [hzero]
      rfl
    · obtain rfl : high = 0 := by omega
      rw [List.getLast?_cons_of_ne_nil hsome]
      exact ih hhigh

/-- A numeral is the encoding of its number exactly if it has one byte or does not end in a zero
digit. -/
theorem encode_eq_iff {numeral : List UInt8} {place n : Nat}
    (h : decodeFrom place numeral = some (n, numeral.length)) :
    encode n = numeral ↔ numeral.length ≤ 1 ∨ numeral.getLast? ≠ some 0 := by
  induction numeral generalizing place n with
  | nil => simp [decodeFrom] at h
  | cons b rest ih =>
    rcases numeral_cases h with ⟨hlast, rfl, rfl⟩ | ⟨hmore, hsome, high, hhigh, rfl⟩
    · simp [encode_of_lt hlast]
    · have hrest := ih hhigh
      have hlength : 0 < rest.length := List.length_pos_iff.mpr hsome
      rw [List.getLast?_cons_of_ne_nil hsome, List.length_cons]
      by_cases hzero : high = 0
      · -- all digits behind the first one are zero
        subst hzero
        have hends := getLast?_of_zero hhigh
        constructor
        · intro heq
          rw [encode_of_lt (by omega)] at heq
          exact absurd (List.cons.inj heq).2.symm hsome
        · rintro (hshort | hdigit)
          · omega
          · exact absurd hends hdigit
      · rw [encode_of_high hmore hzero]
        constructor
        · intro heq
          right
          intro hends
          rcases hrest.mp (List.cons.inj heq).2 with hshort | hdigit
          · obtain ⟨last, rfl⟩ := List.length_eq_one_iff.mp (by omega : rest.length = 1)
            obtain rfl : last = 0 := by simpa using hends
            rcases numeral_cases hhigh with ⟨-, -, hvalue⟩ | ⟨-, hnone, -⟩
            · exact hzero hvalue
            · exact hnone rfl
          · exact hdigit hends
        · rintro (hshort | hdigit)
          · omega
          · rw [hrest.mpr (.inr hdigit)]

/-- Every other numeral of a number is longer than its encoding. -/
theorem length_encode_lt (h : decodeFrom place numeral = some (n, numeral.length))
    (hother : numeral ≠ encode n) : (encode n).length < numeral.length := by
  induction numeral generalizing place n with
  | nil => simp [decodeFrom] at h
  | cons b rest ih =>
    rcases numeral_cases h with ⟨hlast, rfl, rfl⟩ | ⟨hmore, hsome, high, hhigh, rfl⟩
    · exact absurd (by simp [encode_of_lt hlast]) hother
    · have hlength : 0 < rest.length := List.length_pos_iff.mpr hsome
      by_cases hzero : high = 0
      · -- One digit is enough, and there is another one.
        rw [hzero, encode_of_lt (by omega), List.length_cons]
        simpa using hlength
      · rw [encode_of_high hmore hzero] at hother ⊢
        have hrest := ih hhigh fun heq => hother (by rw [heq])
        rw [List.length_cons, List.length_cons]
        omega

/-- A number is read exactly if the bytes begin with a numeral of one to ten digits, all but the last
with the mark that another one follows, whose number is below `2 ^ 64`; then the number is the sum of
its digits, each times its power of 128, and otherwise nothing is read. Every such number is read
back from what is written for it, whatever follows, and all other bytes that are read as this number
to the last are longer. -/
theorem numerals_read_and_shortest_written :
    (∀ bytes n used, decode bytes = some (n, used) ↔
      ∃ numeral, Begins bytes numeral ∧ numeral.length = used ∧ digitSum numeral = n) ∧
    (∀ bytes, decode bytes = none ↔ ∀ numeral, ¬ Begins bytes numeral) ∧
    ∀ n < 2 ^ 64,
      (∀ rest, decode (encode n ++ rest) = some (n, (encode n).length)) ∧
      ∀ bytes, decode bytes = some (n, bytes.length) → bytes ≠ encode n →
        (encode n).length < bytes.length :=
  ⟨fun _ _ _ => decode_eq_some_iff, fun _ => decode_eq_none_iff, fun _ hn =>
    ⟨decode_encode hn, fun _ => length_encode_lt⟩⟩

/-- The largest number takes ten bytes and is read back in front of another byte. The number 5 is read
from three bytes, of which two are zero digits, and so takes fewer to write. -/
theorem largest_and_padded_numeral :
    decode (encode (2 ^ 64 - 1) ++ [7]) = some (2 ^ 64 - 1, 10) ∧
    decode [0x85, 0x80, 0x00] = some (5, 3) ∧ (encode 5).length < 3 := by
  obtain ⟨-, -, hnumbers⟩ := numerals_read_and_shortest_written
  have hten : (encode (2 ^ 64 - 1)).length = 10 := by simp [encode]
  have hpadded : decode [0x85, 0x80, 0x00] = some (5, 3) := by decide
  refine ⟨?_, hpadded, ?_⟩
  · rw [(hnumbers (2 ^ 64 - 1) (by decide)).1, hten]
  · exact (hnumbers 5 (by decide)).2 _ hpadded (by simp [encode])

end SlotMachine.Uleb
