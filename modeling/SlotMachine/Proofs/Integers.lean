import SlotMachine.Operation
import Mathlib.Data.Int.Bitwise
import Mathlib.Tactic.Common

/-!
# Integer arithmetic

An operation on two integers is the operation of mathematics on the integers that the operands
become in the wider of their kinds, brought back into that kind. Two bytes are computed with as
signed 64-bit integers, and what leaves the range of a byte is kept as a long, so that sums,
differences, products and bitwise results of bytes are never reduced at all. A quotient is an
integer when it is one and fits the kind, and a double otherwise; only a division by zero is
refused.
-/

namespace SlotMachine

/-- The kinds of integers. -/
inductive IntegerKind where
  /-- Signed 8-bit integers. -/
  | byte
  /-- Signed 64-bit integers. -/
  | long
  /-- Unsigned 64-bit integers. -/
  | uint64
  deriving DecidableEq

namespace IntegerKind

/-- The wider of two kinds, in the order byte, long, uint64. -/
def wider : IntegerKind → IntegerKind → IntegerKind
  | uint64, _ | _, uint64 => uint64
  | long, _ | _, long => long
  | byte, byte => byte

/-- The integer that differs from `i` by a multiple of `2 ^ 64` and lies in the range in which
operands of the kind are computed with. -/
def reduce : IntegerKind → Int → Int
  | uint64, i => i % (UInt64.size : Nat)
  | _, i => i.bmod UInt64.size

/-- The integer lies in that range. -/
def Fits : IntegerKind → Int → Prop
  | uint64, i => 0 ≤ i ∧ i < (UInt64.size : Nat)
  | _, i => -9223372036854775808 ≤ i ∧ i ≤ 9223372036854775807

/-- The kind of a result: what two bytes give is a byte if it can be. -/
def forResult : IntegerKind → Int → IntegerKind
  | byte, i => if -128 ≤ i ∧ i ≤ 127 then byte else long
  | kind, _ => kind

end IntegerKind

/-- The value is an integer of the kind. -/
inductive Value.IsInteger : Value → IntegerKind → Int → Prop
  /-- Bytes hold their signed reading. -/
  | byte (n : Int8) : IsInteger (.byte n) .byte n.toInt
  /-- Longs hold their signed reading. -/
  | long (n : Int64) : IsInteger (.long n) .long n.toInt
  /-- Unsigned integers hold their unsigned reading. -/
  | uint64 (n : UInt64) : IsInteger (.uint64 n) .uint64 n.toNat

/-- The result of an operation on integers without a width. Bitwise operations are on the
two's complement digits; a shift goes as far as its right operand says modulo 64, and one to the
right rounds down. -/
def BinaryOp.exact : BinaryOp → Int → Int → Int
  | add, i, j => i + j
  | sub, i, j => i - j
  | mul, i, j => i * j
  | div, i, j => i.tdiv j
  | rem, i, j => i.tmod j
  | shl, i, j => i * 2 ^ (j % 64).toNat
  | shr, i, j => i / 2 ^ (j % 64).toNat
  | and, i, j => i.land j
  | or, i, j => i.lor j
  | xor, i, j => i.xor j

/-! ### Binary digits -/

namespace Digits

/-- Two integers with the same binary digits are the same. -/
theorem eq_of_testBit_eq {m n : Int} (h : ∀ k, m.testBit k = n.testBit k) : m = n := by
  -- Far enough to the left the digits tell the sign.
  have sign (a b : Nat) : ¬ ∀ k, (Int.ofNat a).testBit k = (Int.negSucc b).testBit k := by
    intro h
    have hlt : max a b < 2 ^ max a b := Nat.lt_two_pow_self
    have ha : a.testBit (max a b) = false := Nat.testBit_lt_two_pow (by omega)
    have hb : b.testBit (max a b) = false := Nat.testBit_lt_two_pow (by omega)
    have hk := h (max a b)
    simp [Int.testBit, ha, hb] at hk
  cases m with
  | ofNat a =>
    cases n with
    | ofNat b => exact congrArg Int.ofNat (Nat.eq_of_testBit_eq fun k => h k)
    | negSucc b => exact absurd h (sign a b)
  | negSucc a =>
    cases n with
    | ofNat b => exact absurd (fun k => (h k).symm) (sign b a)
    | negSucc b =>
      refine congrArg Int.negSucc (Nat.eq_of_testBit_eq fun k => ?_)
      simpa [Int.testBit] using h k

/-- The digits of a signed word are its bits, and beyond them its sign. -/
theorem testBit_toInt {w : Nat} (x : BitVec w) (k : Nat) :
    x.toInt.testBit k = if k < w then x.getLsbD k else x.msb := by
  have hlt : x.toNat < 2 ^ w := x.isLt
  have hbeyond (hk : ¬k < w) : x.toNat.testBit k = false :=
    Nat.testBit_lt_two_pow
      (Nat.lt_of_lt_of_le hlt (Nat.pow_le_pow_right (by decide) (Nat.le_of_not_lt hk)))
  rw [BitVec.toInt_eq_msb_cond]
  cases hmsb : x.msb with
  | false =>
    change x.toNat.testBit k = _
    split
    · exact BitVec.testBit_toNat x
    · rename_i hk
      exact hbeyond hk
  | true =>
    have hneg : (x.toNat : Int) - (2 ^ w : Nat) = Int.negSucc (2 ^ w - (x.toNat + 1)) := by
      rw [Int.negSucc_eq]
      omega
    rw [if_pos rfl, hneg]
    change (!(2 ^ w - (x.toNat + 1)).testBit k) = _
    rw [Nat.testBit_two_pow_sub_succ hlt]
    split
    · rename_i hk
      simp only [hk, decide_true, Bool.true_and, Bool.not_not, BitVec.testBit_toNat]
    · rename_i hk
      simp only [hk, decide_false, Bool.false_and, Bool.not_false]

/-- The digits of a signed 64-bit integer. -/
theorem testBit_long (a : Int64) (k : Nat) :
    a.toInt.testBit k = if k < 64 then a.toBitVec.getLsbD k else a.toBitVec.msb :=
  testBit_toInt a.toBitVec k

/-- Which integer a signed word is can be told by its digits. -/
theorem toInt_eq_of_testBit {a : Int64} {i : Int}
    (hbits : ∀ k, k < 64 → a.toBitVec.getLsbD k = i.testBit k)
    (hsign : ∀ k, 64 ≤ k → a.toBitVec.msb = i.testBit k) : a.toInt = i := by
  apply eq_of_testBit_eq
  intro k
  rw [testBit_long]
  split
  · exact hbits k ‹_›
  · exact hsign k (Nat.le_of_not_lt ‹_›)

/-- The bitwise and of signed words. -/
theorem toInt_and (a b : Int64) : (a &&& b).toInt = a.toInt.land b.toInt := by
  apply toInt_eq_of_testBit <;> intro k hk
  · simp [testBit_long, hk]
  · simp [testBit_long, Nat.not_lt.2 hk, BitVec.msb_and]

/-- The bitwise or of signed words. -/
theorem toInt_or (a b : Int64) : (a ||| b).toInt = a.toInt.lor b.toInt := by
  apply toInt_eq_of_testBit <;> intro k hk
  · simp [testBit_long, hk]
  · simp [testBit_long, Nat.not_lt.2 hk, BitVec.msb_or]

/-- The bitwise exclusive or of signed words. -/
theorem toInt_xor (a b : Int64) : (a ^^^ b).toInt = a.toInt.xor b.toInt := by
  apply toInt_eq_of_testBit <;> intro k hk
  · simp [testBit_long, hk]
  · simp [testBit_long, Nat.not_lt.2 hk, BitVec.msb_xor]

/-- How far a shift by a signed word goes. -/
theorem toNat_distance (b : Int64) : (b.toBitVec.smod 64).toNat = (b.toInt % 64).toNat := by
  have hmod : (b.toBitVec.smod 64).toInt = b.toInt % 64 := by
    have hcount : (64 : BitVec 64).toInt = 64 := by decide
    rw [BitVec.toInt_smod, hcount, Int.fmod_eq_emod_of_nonneg _ (by decide)]
    rfl
  have hlow : 0 ≤ b.toInt % 64 := Int.emod_nonneg _ (by decide)
  have hlt := (b.toBitVec.smod 64).isLt
  rw [BitVec.toInt_eq_toNat_cond] at hmod
  split at hmod <;> omega

/-- A signed word shifted to the left. -/
theorem toInt_shiftLeft (a b : Int64) :
    (a <<< b).toInt = (a.toInt * 2 ^ (b.toInt % 64).toNat).bmod UInt64.size := by
  have hword : a.toInt = (a.toBitVec.toNat : Int).bmod UInt64.size :=
    BitVec.toInt_eq_toNat_bmod a.toBitVec
  rw [hword, Int.bmod_mul_bmod, Int64.toInt, Int64.toBitVec_shiftLeft, BitVec.shiftLeft_eq',
    BitVec.toInt_shiftLeft, toNat_distance, Nat.shiftLeft_eq]
  push_cast
  rfl

/-- A signed word shifted to the right, its sign moving in. -/
theorem toInt_shiftRight (a b : Int64) :
    (a >>> b).toInt = a.toInt / 2 ^ (b.toInt % 64).toNat := by
  rw [Int64.toInt, Int64.toBitVec_shiftRight, BitVec.sshiftRight_eq', BitVec.toInt_sshiftRight,
    toNat_distance, Int.shiftRight_eq_div_pow]
  push_cast
  rfl

end Digits

/-! ### One kind -/

namespace IntegerKind

/-- What an operation gives for two integers `i` and `j` that are computed with in a kind. -/
structure Computes (kind : IntegerKind) (op : BinaryOp) (i j : Int)
    (result : Except Fault Value) : Prop where
  /-- A division by zero is refused. -/
  refused : op = .div ∨ op = .rem → j = 0 → result = .error .divisionByZero
  /-- Every result but a quotient is exact up to the width of the kind. -/
  reduced : op ≠ .div → (op = .rem → j ≠ 0) → ∃ w, result = .ok w ∧
    w.IsInteger (kind.forResult (kind.reduce (op.exact i j))) (kind.reduce (op.exact i j))
  /-- A quotient that fits the kind is an integer. -/
  quotient : op = .div → j ≠ 0 → ∀ q, q * j = i → kind.Fits q →
    ∃ w, result = .ok w ∧ w.IsInteger (kind.forResult q) q
  /-- Any other quotient is a double. -/
  inexact : op = .div → j ≠ 0 → (¬∃ q, q * j = i ∧ kind.Fits q) →
    result = .ok (Operation.inexactQuotient i j)

/-- Signed 64-bit integers are in the range of their kind. -/
theorem reduce_toInt (n : Int64) : long.reduce n.toInt = n.toInt :=
  Int64.toInt_bmod_size n

/-- And so are unsigned ones. -/
theorem reduce_toNat (n : UInt64) : uint64.reduce n.toNat = n.toNat :=
  Int.emod_eq_of_lt (by omega) (by exact_mod_cast n.toNat_lt)

/-- What fits a kind is not changed by reducing it. -/
theorem reduce_of_fits {kind : IntegerKind} {i : Int} (h : kind.Fits i) : kind.reduce i = i := by
  have hsigned (h : -9223372036854775808 ≤ i ∧ i ≤ 9223372036854775807) :
      i.bmod UInt64.size = i := by
    have hsize : UInt64.size = 18446744073709551616 := rfl
    rw [hsize]
    apply Int.bmod_eq_of_le <;> omega
  cases kind with
  | byte => exact hsigned h
  | long => exact hsigned h
  | uint64 => exact Int.emod_eq_of_lt h.1 h.2

/-- Signed 64-bit integers fit their kind. -/
theorem fits_toInt (n : Int64) : long.Fits n.toInt :=
  ⟨Int64.minValue_le_toInt n, Int64.toInt_le n⟩

/-- Every operation on signed words but a quotient. -/
theorem long_reduced {op : BinaryOp} {a b : Int64} (hdiv : op ≠ .div)
    (hrem : op = .rem → b ≠ 0) : ∃ n : Int64, Operation.long op a b = .ok (.long n) ∧
      n.toInt = long.reduce (op.exact a.toInt b.toInt) := by
  cases op with
  | div => exact absurd rfl hdiv
  | add => exact ⟨a + b, rfl, Int64.toInt_add a b⟩
  | sub => exact ⟨a - b, rfl, Int64.toInt_sub a b⟩
  | mul => exact ⟨a * b, rfl, Int64.toInt_mul a b⟩
  | shl => exact ⟨a <<< b, rfl, Digits.toInt_shiftLeft a b⟩
  | rem =>
    refine ⟨a % b, if_neg (hrem rfl), ?_⟩
    rw [BinaryOp.exact, ← Int64.toInt_mod, reduce_toInt]
  | shr => exact ⟨a >>> b, rfl, by rw [BinaryOp.exact, ← Digits.toInt_shiftRight, reduce_toInt]⟩
  | and => exact ⟨a &&& b, rfl, by rw [BinaryOp.exact, ← Digits.toInt_and, reduce_toInt]⟩
  | or => exact ⟨a ||| b, rfl, by rw [BinaryOp.exact, ← Digits.toInt_or, reduce_toInt]⟩
  | xor => exact ⟨a ^^^ b, rfl, by rw [BinaryOp.exact, ← Digits.toInt_xor, reduce_toInt]⟩

/-- Every operation on unsigned words but a quotient. -/
theorem uint64_reduced {op : BinaryOp} {a b : UInt64} (hdiv : op ≠ .div)
    (hrem : op = .rem → b ≠ 0) : ∃ n : UInt64, Operation.uint64 op a b = .ok (.uint64 n) ∧
      (n.toNat : Int) = uint64.reduce (op.exact a.toNat b.toNat) := by
  cases op with
  | div => exact absurd rfl hdiv
  | add => exact ⟨a + b, rfl, by rw [UInt64.toNat_add]; push_cast; rfl⟩
  | sub =>
    refine ⟨a - b, rfl, ?_⟩
    have ha := a.toNat_lt
    have hb := b.toNat_lt
    rw [UInt64.toNat_sub]
    simp only [reduce, BinaryOp.exact, UInt64.size]
    omega
  | mul => exact ⟨a * b, rfl, by rw [UInt64.toNat_mul]; push_cast; rfl⟩
  | shl =>
    refine ⟨a <<< b, rfl, ?_⟩
    rw [UInt64.toNat_shiftLeft, Nat.shiftLeft_eq]
    push_cast
    rfl
  | rem =>
    refine ⟨a % b, if_neg (hrem rfl), ?_⟩
    have hexact : BinaryOp.rem.exact a.toNat b.toNat = ((a % b).toNat : Int) := by
      rw [UInt64.toNat_mod]
      rfl
    rw [hexact, reduce_toNat]
  | shr =>
    refine ⟨a >>> b, rfl, ?_⟩
    have hexact : BinaryOp.shr.exact a.toNat b.toNat = ((a >>> b).toNat : Int) := by
      rw [UInt64.toNat_shiftRight, Nat.shiftRight_eq_div_pow]
      push_cast
      rfl
    rw [hexact, reduce_toNat]
  | and => exact ⟨a &&& b, rfl, by rw [← reduce_toNat, UInt64.toNat_and]; rfl⟩
  | or => exact ⟨a ||| b, rfl, by rw [← reduce_toNat, UInt64.toNat_or]; rfl⟩
  | xor => exact ⟨a ^^^ b, rfl, by rw [← reduce_toNat, UInt64.toNat_xor]; rfl⟩

/-- A signed word is zero when its integer is. -/
theorem toInt_eq_zero_iff {b : Int64} : b.toInt = 0 ↔ b = 0 :=
  ⟨fun h => Int64.toInt_inj.1 h, fun h => h ▸ rfl⟩

/-- An unsigned word is zero when its integer is. -/
theorem toNat_eq_zero_iff {b : UInt64} : (b.toNat : Int) = 0 ↔ b = 0 :=
  ⟨fun h => UInt64.toNat_inj.1 (Int.ofNat_inj.1 h), fun h => h ▸ rfl⟩

/-- The division of signed words comes out even, in their range, unless a remainder is left or the
smallest one is divided by minus one. -/
theorem even_long_iff {a b : Int64} :
    (∃ q, q * b.toInt = a.toInt ∧ long.Fits q) ↔
      ¬(a % b ≠ 0 ∨ a = Int64.minValue ∧ b = -1) := by
  constructor
  · rintro ⟨q, hq, hfits⟩ (hrest | ⟨rfl, rfl⟩)
    · apply hrest
      rw [← toInt_eq_zero_iff, Int64.toInt_mod, ← hq, Int.mul_tmod_left]
    · have hmin : Int64.minValue.toInt = -9223372036854775808 := rfl
      have hone : (-1 : Int64).toInt = -1 := rfl
      have hle := hfits.2
      rw [hone, hmin] at hq
      omega
  · intro h
    obtain ⟨hrest, hcorner⟩ := not_or.1 h
    have hdvd : b.toInt ∣ a.toInt := by
      rw [Int.dvd_iff_tmod_eq_zero, ← Int64.toInt_mod, toInt_eq_zero_iff]
      exact not_not.1 hrest
    have hquotient : (a / b).toInt = a.toInt.tdiv b.toInt := by
      rcases Classical.not_and_iff_not_or_not.1 hcorner with ha | hb
      · exact Int64.toInt_div_of_ne_left a b ha
      · exact Int64.toInt_div_of_ne_right a b hb
    refine ⟨a.toInt.tdiv b.toInt, Int.tdiv_mul_cancel hdvd, ?_⟩
    rw [← hquotient]
    exact fits_toInt _

/-- The division of unsigned words comes out even unless a remainder is left. -/
theorem even_uint64_iff {a b : UInt64} :
    (∃ q, q * (b.toNat : Int) = a.toNat ∧ uint64.Fits q) ↔ ¬a % b ≠ 0 := by
  rw [not_not, ← toNat_eq_zero_iff, UInt64.toNat_mod, Int.natCast_eq_zero,
    ← Nat.dvd_iff_mod_eq_zero]
  constructor
  · rintro ⟨q, hq, hlow, -⟩
    obtain ⟨n, rfl⟩ := Int.eq_ofNat_of_zero_le hlow
    exact ⟨n, by rw [Nat.mul_comm]; exact_mod_cast hq.symm⟩
  · intro hdvd
    refine ⟨((a / b).toNat : Int), ?_, Int.natCast_nonneg _, by exact_mod_cast (a / b).toNat_lt⟩
    rw [UInt64.toNat_div]
    exact_mod_cast Nat.div_mul_cancel hdvd

/-- Operations on signed words. -/
theorem computes_long (op : BinaryOp) (a b : Int64) :
    long.Computes op a.toInt b.toInt (Operation.long op a b) where
  refused hop hb := by
    have hzero : b = 0 := toInt_eq_zero_iff.1 hb
    rcases hop with rfl | rfl <;> exact if_pos hzero
  reduced hdiv hrem := by
    obtain ⟨n, hn, hint⟩ := long_reduced (a := a) (b := b) hdiv
      fun hop => mt toInt_eq_zero_iff.2 (hrem hop)
    exact ⟨.long n, hn, hint ▸ .long n⟩
  quotient hop hb q hq hfits := by
    subst hop
    have hne : b ≠ 0 := mt toInt_eq_zero_iff.2 hb
    have heven := (even_long_iff).1 ⟨q, hq, hfits⟩
    have hint : (a / b).toInt = q := by
      rw [Int64.toInt_div, ← hq, Int.mul_tdiv_cancel q hb]
      exact reduce_of_fits hfits
    refine ⟨.long (a / b), ?_, hint ▸ .long (a / b)⟩
    rw [Operation.long, if_neg hne, if_neg heven]
  inexact hop hb hodd := by
    subst hop
    have hne : b ≠ 0 := mt toInt_eq_zero_iff.2 hb
    rw [even_long_iff, not_not] at hodd
    rw [Operation.long, if_neg hne, if_pos hodd]

/-- Operations on unsigned words. -/
theorem computes_uint64 (op : BinaryOp) (a b : UInt64) :
    uint64.Computes op a.toNat b.toNat (Operation.uint64 op a b) where
  refused hop hb := by
    have hzero : b = 0 := toNat_eq_zero_iff.1 hb
    rcases hop with rfl | rfl <;> exact if_pos hzero
  reduced hdiv hrem := by
    obtain ⟨n, hn, hint⟩ := uint64_reduced (a := a) (b := b) hdiv
      fun hop => mt toNat_eq_zero_iff.2 (hrem hop)
    exact ⟨.uint64 n, hn, hint ▸ .uint64 n⟩
  quotient hop hb q hq hfits := by
    subst hop
    have hne : b ≠ 0 := mt toNat_eq_zero_iff.2 hb
    have heven := even_uint64_iff.1 ⟨q, hq, hfits⟩
    have hint : ((a / b).toNat : Int) = q := by
      rw [UInt64.toNat_div, Int.natCast_ediv, ← hq, Int.mul_ediv_cancel q hb]
    refine ⟨.uint64 (a / b), ?_, hint ▸ .uint64 (a / b)⟩
    rw [Operation.uint64, if_neg hne, if_neg heven]
  inexact hop hb hodd := by
    subst hop
    have hne : b ≠ 0 := mt toNat_eq_zero_iff.2 hb
    rw [even_uint64_iff, not_not] at hodd
    rw [Operation.uint64, if_neg hne, if_pos hodd]

/-- A narrowed integer is a byte if it can be one. -/
theorem isInteger_narrow (n : Int64) :
    (Operation.narrow n).IsInteger (byte.forResult n.toInt) n.toInt := by
  by_cases hrange : -128 ≤ n.toInt ∧ n.toInt ≤ 127
  · have hint : (Int8.ofInt n.toInt).toInt = n.toInt :=
      Int8.toInt_ofInt_of_le (by omega) (by omega)
    have hbyte := Value.IsInteger.byte (Int8.ofInt n.toInt)
    rw [Operation.narrow, forResult, if_pos hrange, if_pos hrange]
    rwa [hint] at hbyte
  · rw [Operation.narrow, forResult, if_neg hrange, if_neg hrange]
    exact .long n

/-- Bytes are computed with as longs, and the integers among the results are narrowed. -/
theorem Computes.narrowed {op : BinaryOp} {i j : Int} {result : Except Fault Value}
    (h : long.Computes op i j result) {f : Value → Value}
    (hlong : ∀ n, f (.long n) = Operation.narrow n) (hdouble : ∀ d, f (.double d) = .double d) :
    byte.Computes op i j (result.map f) := by
  have hnarrow {x : Int} (hx : ∃ w, result = .ok w ∧ w.IsInteger .long x) :
      ∃ w, result.map f = .ok w ∧ w.IsInteger (byte.forResult x) x := by
    obtain ⟨w, rfl, hw⟩ := hx
    cases hw with
    | long n => exact ⟨Operation.narrow n, congrArg Except.ok (hlong n), isInteger_narrow n⟩
  exact
    { refused := fun hop hj => by rw [h.refused hop hj]; rfl
      reduced := fun hdiv hrem => hnarrow (h.reduced hdiv hrem)
      quotient := fun hop hj q hq hfits => hnarrow (h.quotient hop hj q hq hfits)
      inexact := fun hop hj hodd => by
        rw [h.inexact hop hj hodd]
        exact congrArg Except.ok (hdouble _) }

/-! ### Promotion -/

/-- The tag of a kind. -/
def tag : IntegerKind → Tag
  | byte => Tag.byte
  | long => Tag.long
  | uint64 => Tag.uint64

/-- The value of the kind that an integer becomes. -/
def value : IntegerKind → Int → Value
  | byte, i => .byte (Int8.ofInt i)
  | long, i => .long (Int64.ofInt i)
  | uint64, i => .uint64 (UInt64.ofInt i)

/-- Integers of every kind are promoted to the wider one. -/
theorem wider_tag (a b : IntegerKind) : Operation.wider a.tag b.tag = (a.wider b).tag := by
  cases a <;> cases b <;> rfl

/-- The unsigned word of an integer. -/
theorem toNat_ofInt (i : Int) : ((UInt64.ofInt i).toNat : Int) = uint64.reduce i := by
  have hlow : 0 ≤ i % (UInt64.size : Nat) := Int.emod_nonneg i (by decide)
  have hhigh : i % (UInt64.size : Nat) < (UInt64.size : Nat) := Int.emod_lt_of_pos i (by decide)
  have hword : (UInt64.ofInt i).toNat = (i % (UInt64.size : Nat)).toNat :=
    UInt64.toNat_ofNat_of_lt' ((Int.toNat_lt hlow).2 hhigh)
  rw [hword, Int.toNat_of_nonneg hlow]
  rfl

/-- Only two bytes are computed with as bytes. -/
theorem wider_eq_byte {a b : IntegerKind} (h : a.wider b = byte) : a = byte ∧ b = byte := by
  cases a <;> cases b <;> first | exact ⟨rfl, rfl⟩ | cases h

variable {l r v : Value} {a b kind : IntegerKind} {i j : Int}

/-- The tag of an integer. -/
theorem tag_of_isInteger (h : v.IsInteger kind i) : v.tag = kind.tag := by
  cases h <;> rfl

/-- What an integer is converted to. -/
theorem convert_of_isInteger (h : v.IsInteger kind i) (target : IntegerKind) :
    ∃ lossy, v.convert? target.tag = some (target.value i, lossy) := by
  cases h <;> cases target <;> exact ⟨_, rfl⟩

/-- Two integers in their wider kind. -/
theorem promote_integers (hl : l.IsInteger a i) (hr : r.IsInteger b j) :
    Operation.promote? l r = some ((a.wider b).value i, (a.wider b).value j) := by
  obtain ⟨lossyLeft, hleft⟩ := convert_of_isInteger hl (a.wider b)
  obtain ⟨lossyRight, hright⟩ := convert_of_isInteger hr (a.wider b)
  unfold Operation.promote?
  rw [tag_of_isInteger hl, tag_of_isInteger hr, wider_tag]
  simp only [hleft, hright, Option.bind_eq_bind, Option.bind_some, Option.pure_def]

/-- What an integer becomes in a kind of 64 bits lies in the range of the kind. -/
theorem fits_reduce (kind : IntegerKind) (i : Int) : kind.Fits (kind.reduce i) := by
  have hsigned : -9223372036854775808 ≤ i.bmod UInt64.size ∧
      i.bmod UInt64.size ≤ 9223372036854775807 := by
    have hword := fits_toInt (Int64.ofInt i)
    rwa [Int64.toInt_ofInt] at hword
  cases kind with
  | byte => exact hsigned
  | long => exact hsigned
  | uint64 => exact ⟨Int.emod_nonneg i (by decide), Int.emod_lt_of_pos i (by decide)⟩

/-- A remainder lies in every range that has the dividend in it. -/
theorem fits_tmod (h : kind.Fits i) (j : Int) : kind.Fits (i.tmod j) := by
  have hsmall : (i.tmod j).natAbs ≤ i.natAbs := by
    rw [Int.natAbs_tmod]
    exact Nat.mod_le _ _
  have hsign : 0 ≤ i → 0 ≤ i.tmod j := fun hi => Int.tmod_nonneg j hi
  have hflip : i ≤ 0 → i.tmod j ≤ 0 := fun hi => by
    have hneg := Int.tmod_nonneg j (show 0 ≤ -i by omega)
    rw [Int.neg_tmod] at hneg
    omega
  cases kind <;> simp only [Fits, UInt64.size] at h ⊢ <;> omega

/-- The range of bytes. -/
theorem byte_bounds (n : Int8) : -128 ≤ n.toInt ∧ n.toInt ≤ 127 :=
  ⟨n.minValue_le_toInt, n.toInt_le⟩

/-- The range of the integers of all kinds. -/
theorem bounds_of_isInteger (h : v.IsInteger kind i) :
    -9223372036854775808 ≤ i ∧ i < 18446744073709551616 := by
  cases h with
  | byte n =>
    have hbyte := byte_bounds n
    omega
  | long n =>
    have hfits := fits_toInt n
    unfold Fits at hfits
    omega
  | uint64 n =>
    have hlt := n.toNat_lt
    omega

/-- Promotion makes no zero and loses none. -/
theorem reduce_eq_zero_iff (h : v.IsInteger kind i) (target : IntegerKind) :
    target.reduce i = 0 ↔ i = 0 := by
  obtain ⟨hlow, hhigh⟩ := bounds_of_isInteger h
  have hdvd : target.reduce i = 0 ↔ ((UInt64.size : Nat) : Int) ∣ i := by
    cases target with
    | byte => exact Int.dvd_iff_bmod_eq_zero.symm
    | long => exact Int.dvd_iff_bmod_eq_zero.symm
    | uint64 => exact Int.dvd_iff_emod_eq_zero.symm
  rw [hdvd]
  simp only [UInt64.size]
  omega

/-- Operations on integers of any kinds. -/
theorem computes_numeric (hl : l.IsInteger a i) (hr : r.IsInteger b j) (op : BinaryOp) :
    (a.wider b).Computes op ((a.wider b).reduce i) ((a.wider b).reduce j)
      (Operation.numeric op l r) := by
  have hpromote := promote_integers hl hr
  unfold Operation.numeric
  rw [hpromote]
  cases hkind : a.wider b with
  | byte =>
    obtain ⟨rfl, rfl⟩ := wider_eq_byte hkind
    cases hl with
    | byte m =>
      cases hr with
      | byte n =>
        have hword := computes_long op (Int64.ofInt m.toInt) (Int64.ofInt n.toInt)
        rw [Int64.toInt_ofInt, Int64.toInt_ofInt] at hword
        simp only [value, Int8.ofInt_toInt]
        exact hword.narrowed (fun _ => rfl) (fun _ => rfl)
  | long =>
    have hword := computes_long op (Int64.ofInt i) (Int64.ofInt j)
    rwa [Int64.toInt_ofInt, Int64.toInt_ofInt] at hword
  | uint64 =>
    have hword := computes_uint64 op (UInt64.ofInt i) (UInt64.ofInt j)
    rwa [toNat_ofInt, toNat_ofInt] at hword

/-- Every byte is a long. -/
theorem exists_long (m : Int8) : ∃ n : Int64, n.toInt = m.toInt := by
  obtain ⟨hlow, hhigh⟩ := byte_bounds m
  exact ⟨Int64.ofInt m.toInt, Int64.toInt_ofInt_of_le (by omega) (by omega)⟩

/-- So bytes are promoted unchanged. -/
theorem reduce_byte (m : Int8) : byte.reduce m.toInt = m.toInt := by
  obtain ⟨n, hn⟩ := exists_long m
  rw [← hn]
  exact reduce_toInt n

/-- Only a shift to the left takes two bytes out of the range of longs. -/
theorem fits_of_bytes {op : BinaryOp} (m n : Int8) (hshl : op ≠ .shl) (hdiv : op ≠ .div) :
    byte.Fits (op.exact m.toInt n.toInt) := by
  have hm := byte_bounds m
  have hn := byte_bounds n
  have hmul : (m.toInt * n.toInt).natAbs ≤ 128 * 128 := by
    rw [Int.natAbs_mul]
    exact Nat.mul_le_mul (by omega) (by omega)
  obtain ⟨p, hp⟩ := exists_long m
  obtain ⟨q, hq⟩ := exists_long n
  cases op with
  | shl => exact absurd rfl hshl
  | div => exact absurd rfl hdiv
  | add => simp only [Fits, BinaryOp.exact]; omega
  | sub => simp only [Fits, BinaryOp.exact]; omega
  | mul => simp only [Fits, BinaryOp.exact]; omega
  | rem => rw [← hp, ← hq, BinaryOp.exact, ← Int64.toInt_mod]; exact fits_toInt _
  | shr => rw [← hp, ← hq, BinaryOp.exact, ← Digits.toInt_shiftRight]; exact fits_toInt _
  | and => rw [← hp, ← hq, BinaryOp.exact, ← Digits.toInt_and]; exact fits_toInt _
  | or => rw [← hp, ← hq, BinaryOp.exact, ← Digits.toInt_or]; exact fits_toInt _
  | xor => rw [← hp, ← hq, BinaryOp.exact, ← Digits.toInt_xor]; exact fits_toInt _

/-! ### Results -/

/-- A quotient as a double is no integer. -/
theorem not_isInteger_inexactQuotient {m n : Int} :
    ¬(Operation.inexactQuotient m n).IsInteger kind i := nofun

/-- A value is an integer of one kind only, and only one integer. -/
theorem isInteger_unique (h : v.IsInteger a i) (h' : v.IsInteger b j) : a = b ∧ i = j := by
  cases h <;> cases h' <;> exact ⟨rfl, rfl⟩

variable {op : BinaryOp} {result : Except Fault Value}

/-- Only a division by zero has no result. -/
theorem Computes.answers (h : kind.Computes op i j result)
    (hzero : ¬((op = .div ∨ op = .rem) ∧ j = 0)) : ∃ w, result = .ok w := by
  by_cases hop : op = .div
  · have hj : j ≠ 0 := fun hj => hzero ⟨.inl hop, hj⟩
    by_cases heven : ∃ q, q * j = i ∧ kind.Fits q
    · obtain ⟨q, hq, hfits⟩ := heven
      obtain ⟨w, hw, -⟩ := h.quotient hop hj q hq hfits
      exact ⟨w, hw⟩
    · exact ⟨_, h.inexact hop hj heven⟩
  · obtain ⟨w, hw, -⟩ := h.reduced hop fun hrem hj => hzero ⟨.inr hrem, hj⟩
    exact ⟨w, hw⟩

/-- When an operation fails, and how. -/
theorem Computes.error_iff (h : kind.Computes op i j result) (fault : Fault) :
    result = .error fault ↔ fault = .divisionByZero ∧ (op = .div ∨ op = .rem) ∧ j = 0 := by
  constructor
  · intro hfault
    by_cases hzero : (op = .div ∨ op = .rem) ∧ j = 0
    · have hrefused := h.refused hzero.1 hzero.2
      rw [hfault] at hrefused
      exact ⟨Except.error.inj hrefused, hzero⟩
    · obtain ⟨w, hw⟩ := h.answers hzero
      rw [hfault] at hw
      cases hw
  · rintro ⟨rfl, hop, hj⟩
    exact h.refused hop hj

/-- Which integers are quotients. -/
theorem Computes.quotient_iff (h : kind.Computes .div i j result) (hj : j ≠ 0)
    (k : IntegerKind) (q : Int) : (∃ w, result = .ok w ∧ w.IsInteger k q) ↔
      q * j = i ∧ kind.Fits q ∧ k = kind.forResult q := by
  constructor
  · rintro ⟨w, hw, hinteger⟩
    by_cases heven : ∃ q, q * j = i ∧ kind.Fits q
    · obtain ⟨p, hp, hfits⟩ := heven
      obtain ⟨w', hw', hinteger'⟩ := h.quotient rfl hj p hp hfits
      cases hw.symm.trans hw'
      obtain ⟨rfl, rfl⟩ := isInteger_unique hinteger hinteger'
      exact ⟨hp, hfits, rfl⟩
    · cases hw.symm.trans (h.inexact rfl hj heven)
      exact absurd hinteger not_isInteger_inexactQuotient
  · rintro ⟨hq, hfits, rfl⟩
    exact h.quotient rfl hj q hq hfits

end IntegerKind

namespace Operation

open IntegerKind

/-- Integers are numbers, so the operation on them is the numeric one. -/
theorem binary_integers {l r : Value} {a b : IntegerKind} {i j : Int}
    (hl : l.IsInteger a i) (hr : r.IsInteger b j) (op : BinaryOp) (maxLen : Nat) :
    binary op l r maxLen = numeric op l r := by
  apply if_pos
  cases hl <;> cases hr <;> rfl

/-- An operation on two integers brings them to the wider of their kinds and gives what the
operation of mathematics gives, reduced to that kind. Two bytes are not reduced on the way, and
neither is their result unless it is shifted to the left: it is a byte if it can be and a long
otherwise. A remainder is the truncated one. A quotient is an integer exactly when there is one
that fits the kind, and a double otherwise. The only fault is a division by zero. -/
theorem integer_arithmetic_exact {l r : Value} {a b : IntegerKind} {i j : Int}
    (hl : l.IsInteger a i) (hr : r.IsInteger b j) (op : BinaryOp) (maxLen : Nat) :
    let kind := a.wider b
    let i' := kind.reduce i
    let j' := kind.reduce j
    let result := binary op l r maxLen
    (∀ fault, result = .error fault ↔
      fault = .divisionByZero ∧ (op = .div ∨ op = .rem) ∧ j = 0) ∧
    (op ≠ .div → op ≠ .rem → ∃ w, result = .ok w ∧
      w.IsInteger (kind.forResult (kind.reduce (op.exact i' j'))) (kind.reduce (op.exact i' j'))) ∧
    (a = .byte → b = .byte → i' = i ∧ j' = j ∧
      (op ≠ .shl → op ≠ .div → kind.reduce (op.exact i' j') = op.exact i j)) ∧
    (op = .rem → j ≠ 0 → ∃ w, result = .ok w ∧
      w.IsInteger (kind.forResult (i'.tmod j')) (i'.tmod j')) ∧
    (op = .div → j ≠ 0 →
      (∀ k q, (∃ w, result = .ok w ∧ w.IsInteger k q) ↔
        q * j' = i' ∧ kind.Fits q ∧ k = kind.forResult q) ∧
      ((¬∃ q, q * j' = i' ∧ kind.Fits q) → result = .ok (inexactQuotient i' j'))) := by
  intro kind i' j' result
  have hresult : result = numeric op l r := binary_integers hl hr op maxLen
  have hcomputes : kind.Computes op i' j' result := hresult ▸ computes_numeric hl hr op
  have hzero : j' = 0 ↔ j = 0 := reduce_eq_zero_iff hr kind
  refine ⟨?_, ?_, ?_, ?_, ?_⟩
  · intro fault
    rw [hcomputes.error_iff, hzero]
  · intro hdiv hrem
    exact hcomputes.reduced hdiv fun hop => absurd hop hrem
  · rintro rfl rfl
    cases hl with
    | byte m =>
      cases hr with
      | byte n =>
        have hi' : i' = m.toInt := reduce_byte m
        have hj' : j' = n.toInt := reduce_byte n
        refine ⟨hi', hj', fun hshl hdiv => ?_⟩
        rw [hi', hj']
        exact reduce_of_fits (fits_of_bytes m n hshl hdiv)
  · rintro rfl hj
    have hfits := fits_tmod (fits_reduce kind i) j'
    have hreduced := hcomputes.reduced nofun fun _ => mt hzero.1 hj
    rwa [BinaryOp.exact, reduce_of_fits hfits] at hreduced
  · rintro rfl hj
    have hj' : j' ≠ 0 := mt hzero.1 hj
    exact ⟨hcomputes.quotient_iff hj', hcomputes.inexact rfl hj'⟩

/-- The smallest long divided by minus one, a byte, leaves the range of longs, which is no fault:
the quotient is a double. Their remainder is zero. -/
theorem smallest_long_divided :
    (Value.long Int64.minValue).IsInteger .long (-9223372036854775808) ∧
    (Value.byte (-1)).IsInteger .byte (-1) ∧
    binary .div (.long Int64.minValue) (.byte (-1)) 0 =
      .ok (inexactQuotient (-9223372036854775808) (-1)) ∧
    (∃ w, binary .rem (.long Int64.minValue) (.byte (-1)) 0 = .ok w ∧ w.IsInteger .long 0) := by
  have hl : (Value.long Int64.minValue).IsInteger .long (-9223372036854775808) :=
    .long Int64.minValue
  have hr : (Value.byte (-1)).IsInteger .byte (-1) := .byte (-1)
  have hdiv := (integer_arithmetic_exact hl hr .div 0).2.2.2.2 rfl (by decide)
  have hrem := (integer_arithmetic_exact hl hr .rem 0).2.2.2.1 rfl (by decide)
  refine ⟨hl, hr, hdiv.2 ?_, hrem⟩
  rintro ⟨q, hq, -, hhigh⟩
  have hq' : q * -1 = -9223372036854775808 := hq
  omega

end Operation

end SlotMachine
