import SlotMachine.Double
import Mathlib.Algebra.Order.Field.Power
import Mathlib.Data.Rat.Floor
import Mathlib.Order.Monotone.Basic
import Mathlib.Tactic.Linarith
import Mathlib.Tactic.Ring
import Mathlib.Tactic.NormNum

/-!
# The numbers that doubles denote

The bits of a finite double denote a rational number. All of them are multiples of `2 ^ -1074`, and
counted in these units they grow with the bits, so that the order of the bits is the order of the
numbers. Against a grid of any width a double is a multiple of it or less than `2 ^ 52` times it,
which is why the nearest multiple on the grid of the significand is the nearest double. Integers of
64 bits are rounded to it, a half to the even neighbour; truncation drops the fraction.
-/

namespace SlotMachine

/-- The nearest integer to a quotient is at least as near as any other, and even if another one is
as near. -/
theorem roundDiv_nearest (num den : Nat) (hden : 0 < den) (k : Int) :
    |(num : Int) - roundDiv num den * den| ≤ |(num : Int) - k * den| ∧
      (|(num : Int) - k * den| = |(num : Int) - roundDiv num den * den| →
        k = roundDiv num den ∨ Even (roundDiv num den)) := by
  have hrest : num % den < den := Nat.mod_lt _ hden
  have hnum : (num : Int) = (num / den : Nat) * den + (num % den : Nat) := by
    rw [mul_comm]
    exact_mod_cast (Nat.div_add_mod num den).symm
  have hdist (m : Int) : (num : Int) - ((num / den : Nat) + m) * den =
      (num % den : Nat) - m * den := by
    conv_lhs => rw [hnum]
    ring
  have hrounded : roundDiv num den = num / den ∧ 2 * (num % den) < den ∨
      roundDiv num den = num / den + 1 ∧ den < 2 * (num % den) ∨
      roundDiv num den = num / den + num / den % 2 ∧ 2 * (num % den) = den := by
    simp only [roundDiv]
    split
    · omega
    · split <;> omega
  -- Integers further away than the ones on either side of the quotient are one step further off.
  obtain ⟨m, rfl⟩ : ∃ m : Int, k = (num / den : Nat) + m := ⟨k - (num / den : Nat), by ring⟩
  have hstep : m ≤ -1 ∧ m * den ≤ -den ∨ m = 0 ∧ m * den = 0 ∨ m = 1 ∧ m * den = den ∨
      2 ≤ m ∧ 2 * (den : Int) ≤ m * den := by
    rcases lt_trichotomy m 0 with h | rfl | h
    · exact .inl ⟨by omega, by nlinarith⟩
    · simp
    · rcases eq_or_lt_of_le (show 1 ≤ m by omega) with rfl | h
      · simp
      · exact .inr (.inr (.inr ⟨by omega, by nlinarith⟩))
  have hdown : (num : Int) - (num / den : Nat) * den = (num % den : Nat) := by
    simpa using hdist 0
  have hup : (num : Int) - ((num / den : Nat) + 1) * den = (num % den : Nat) - den := by
    simpa using hdist 1
  rw [hdist m]
  generalize m * (den : Int) = away at hstep ⊢
  rcases hrounded with ⟨hr, hlt⟩ | ⟨hr, hlt⟩ | ⟨hr, heq⟩
  · rw [hr, hdown]
    simp only [abs_eq_max_neg]
    exact ⟨by omega, fun h => .inl (by omega)⟩
  · rw [hr]
    push_cast at hup ⊢
    rw [hup]
    simp only [abs_eq_max_neg]
    exact ⟨by omega, fun h => .inl (by omega)⟩
  · have htie : |(num : Int) - (roundDiv num den : Nat) * den| = (num % den : Nat) := by
      rcases Nat.mod_two_eq_zero_or_one (num / den) with h | h
      · rw [hr, h, Nat.add_zero, hdown, abs_eq_max_neg]
        omega
      · rw [hr, h, Nat.cast_add, Nat.cast_one, hup, abs_eq_max_neg]
        omega
    rw [htie, abs_eq_max_neg]
    exact ⟨by omega, fun _ => .inr ⟨roundDiv num den / 2, by omega⟩⟩

namespace Double

/-! ### Values -/

/-- The bits denote a number. -/
def IsFinite (d : Double) : Prop :=
  d.magnitude < infinityMagnitude

instance (d : Double) : Decidable d.IsFinite :=
  inferInstanceAs (Decidable (d.magnitude < infinityMagnitude))

/-- The number that the bits of a finite double denote. -/
def value (d : Double) : ℚ :=
  (if d.isNegative then -1 else 1) * (d.significand * (2 : ℚ) ^ d.scale)

/-- The number in units of `2 ^ -1074`, by the bits without the sign. -/
def unitsOf (magnitude : Nat) : Nat :=
  (if magnitude / exponentWeight = 0 then magnitude % exponentWeight
    else exponentWeight + magnitude % exponentWeight) * 2 ^ (magnitude / exponentWeight - 1)

/-- The same by exponent bits and fraction bits. -/
theorem unitsOf_fields {e fraction : Nat} (h : fraction < exponentWeight) :
    unitsOf (e * exponentWeight + fraction) =
      (if e = 0 then fraction else exponentWeight + fraction) * 2 ^ (e - 1) := by
  have hweight : 0 < exponentWeight := by decide
  have hdiv : (e * exponentWeight + fraction) / exponentWeight = e := by
    rw [Nat.mul_comm, Nat.mul_add_div hweight, Nat.div_eq_of_lt h, Nat.add_zero]
  have hmod : (e * exponentWeight + fraction) % exponentWeight = fraction := by
    exact Nat.mul_add_mod_of_lt h
  rw [unitsOf, hdiv, hmod]

/-- Numbers grow with their bits. -/
theorem unitsOf_strictMono : StrictMono unitsOf := by
  apply strictMono_nat_of_lt_succ
  intro m
  obtain ⟨e, fraction, hfraction, rfl⟩ :
      ∃ e fraction, fraction < exponentWeight ∧ m = e * exponentWeight + fraction :=
    ⟨m / exponentWeight, m % exponentWeight, Nat.mod_lt m (by decide),
      (Nat.div_add_mod' m exponentWeight).symm⟩
  rw [unitsOf_fields hfraction]
  by_cases hnext : fraction + 1 < exponentWeight
  · rw [Nat.add_assoc, unitsOf_fields hnext]
    split <;> exact Nat.mul_lt_mul_of_pos_right (by omega) (Nat.two_pow_pos _)
  · -- The next number begins the next binade.
    have hcarry : e * exponentWeight + fraction + 1 = (e + 1) * exponentWeight + 0 := by
      rw [Nat.add_one_mul]
      omega
    rw [hcarry, unitsOf_fields (by decide), if_neg (Nat.add_one_ne_zero e)]
    cases e with
    | zero => simpa using hfraction
    | succ e =>
      rw [if_neg (Nat.add_one_ne_zero e), Nat.add_sub_cancel, Nat.add_sub_cancel, Nat.pow_succ]
      have hpos := Nat.two_pow_pos e
      nlinarith

/-- A number by the width of its grid and its place on it. The first place of a binade is also the
one after the last of the binade before. -/
theorem unitsOf_place {e place : Nat} (hlow : exponentWeight ≤ place)
    (hhigh : place ≤ 2 * exponentWeight) :
    unitsOf (e * exponentWeight + place) = place * 2 ^ e := by
  by_cases hfull : place = 2 * exponentWeight
  · have hcarry : e * exponentWeight + place = (e + 2) * exponentWeight + 0 := by
      rw [hfull, Nat.add_mul, Nat.add_zero]
    rw [hcarry, unitsOf_fields (by decide), if_neg (by omega), hfull, Nat.add_zero,
      Nat.mul_comm 2, Nat.mul_assoc, ← Nat.pow_succ']
    rfl
  · have hnext : e * exponentWeight + place =
        (e + 1) * exponentWeight + (place - exponentWeight) := by
      rw [Nat.add_one_mul]
      omega
    rw [hnext, unitsOf_fields (by omega), if_neg (Nat.add_one_ne_zero e), Nat.add_sub_cancel,
      Nat.add_sub_cancel' hlow]

/-- The signed number in units of `2 ^ -1074`, by the key that orders the doubles. -/
def unitsOfKey (key : Int) : Int :=
  key.sign * unitsOf key.natAbs

/-- Zero has no units. -/
theorem unitsOf_zero : unitsOf 0 = 0 := rfl

/-- A key has as many units as the bits without the sign. -/
theorem natAbs_unitsOfKey (key : Int) : (unitsOfKey key).natAbs = unitsOf key.natAbs := by
  rw [unitsOfKey, Int.natAbs_mul, Int.natAbs_natCast]
  by_cases h : key = 0
  · rw [h, Int.natAbs_zero, unitsOf_zero, Nat.mul_zero]
  · rw [Int.natAbs_sign_of_ne_zero h, Nat.one_mul]

/-- The opposite key. -/
theorem unitsOfKey_neg (key : Int) : unitsOfKey (-key) = -unitsOfKey key := by
  rw [unitsOfKey, Int.sign_neg, Int.natAbs_neg, unitsOfKey, Int.neg_mul]

/-- Numbers with different keys are different. -/
theorem unitsOfKey_injective : Function.Injective unitsOfKey := by
  intro a b h
  have habs : a.natAbs = b.natAbs := by
    apply unitsOf_strictMono.injective
    rw [← natAbs_unitsOfKey, h, natAbs_unitsOfKey]
  rcases Int.natAbs_eq_natAbs_iff.1 habs with hab | hab
  · exact hab
  · rw [hab, unitsOfKey_neg] at h
    have hzero : unitsOfKey b = 0 := by omega
    have hunits : unitsOf b.natAbs = unitsOf 0 := by
      rw [← natAbs_unitsOfKey, hzero, unitsOf_zero, Int.natAbs_zero]
    have hb := unitsOf_strictMono.injective hunits
    omega

variable {a b d : Double}

/-- The bits without the sign are those of the key. -/
theorem natAbs_orderKey (d : Double) : d.orderKey.natAbs = d.magnitude := by
  unfold orderKey
  split <;> omega

/-- The units of a double by its sign and its other bits. -/
theorem unitsOfKey_orderKey (d : Double) : unitsOfKey d.orderKey =
    (if d.isNegative then -1 else 1) * (unitsOf d.magnitude : Int) := by
  have hkey : unitsOfKey d.magnitude = unitsOf d.magnitude := by
    rw [unitsOfKey, Int.natAbs_natCast]
    cases d.magnitude with
    | zero => rfl
    | succ m => rw [Int.sign_eq_one_of_pos (by omega), Int.one_mul]
  unfold orderKey
  split
  · rw [unitsOfKey_neg, hkey, neg_one_mul]
  · rw [hkey, one_mul]

/-- The number counted in units. -/
theorem value_eq_units (d : Double) : d.value = unitsOfKey d.orderKey * (2 : ℚ) ^ (-1074 : ℤ) := by
  have hscale : d.scale = ((d.exponentField - 1 : Nat) : ℤ) + -1074 := by
    unfold scale
    omega
  have hunits : unitsOf d.magnitude = d.significand * 2 ^ (d.exponentField - 1) := rfl
  rw [value, hscale, zpow_add₀ two_ne_zero, zpow_natCast, unitsOfKey_orderKey, hunits]
  generalize (2 : ℚ) ^ (-1074 : ℤ) = unit
  push_cast
  ring

/-- Numbers are compared by their values. -/
theorem value_eq_iff : a.value = b.value ↔ a.orderKey = b.orderKey := by
  rw [value_eq_units, value_eq_units, mul_left_inj' (by positivity), Int.cast_inj,
    unitsOfKey_injective.eq_iff]

/-- Which doubles denote the number of a finite one. -/
theorem sameNumber_iff (ha : a.IsFinite) :
    a.sameNumber b = true ↔ b.IsFinite ∧ b.value = a.value := by
  have hnan : a.isNaN = false := by
    have hlt : a.magnitude < infinityMagnitude := ha
    simp only [isNaN, decide_eq_false_iff_not]
    omega
  rw [value_eq_iff, sameNumber, compare?, hnan, Bool.false_or]
  cases hb : b.isNaN with
  | true =>
    have hgt : infinityMagnitude < b.magnitude := by simpa [isNaN] using hb
    have hnot : ¬b.IsFinite := Nat.not_lt.2 (Nat.le_of_lt hgt)
    simp [hnot]
  | false =>
    have hkeys : b.orderKey = a.orderKey → b.IsFinite := fun h => by
      have hlt : a.magnitude < infinityMagnitude := ha
      rw [← natAbs_orderKey, ← h, natAbs_orderKey] at hlt
      exact hlt
    simp only [Bool.false_eq_true, if_false, beq_iff_eq, Option.some.injEq, compare_eq_iff_eq]
    exact ⟨fun h => ⟨hkeys h.symm, h.symm⟩, fun h => h.2.symm⟩

/-- Significands have fifty-three bits. -/
theorem significand_lt (d : Double) : d.significand < 2 * exponentWeight := by
  have hfraction : d.fraction < exponentWeight := Nat.mod_lt _ (by decide)
  unfold significand
  split <;> omega

/-- The absolute value. -/
theorem abs_value (d : Double) : |d.value| = d.significand * (2 : ℚ) ^ d.scale := by
  have hnonneg : (0 : ℚ) ≤ d.significand * (2 : ℚ) ^ d.scale := by positivity
  unfold value
  split
  · rw [neg_one_mul, abs_neg, abs_of_nonneg hnonneg]
  · rw [one_mul, abs_of_nonneg hnonneg]

/-- Against a grid of any width a double is a multiple of it, or finer and nearer to zero than its
place `2 ^ 52`. -/
theorem multiple_or_small (d : Double) (s : ℤ) :
    (∃ k : ℤ, d.value = k * (2 : ℚ) ^ s) ∨ |d.value| < exponentWeight * (2 : ℚ) ^ s := by
  rcases le_or_gt s d.scale with hcoarse | hfine
  · left
    obtain ⟨n, hn⟩ : ∃ n : ℕ, d.scale = n + s := ⟨(d.scale - s).toNat, by omega⟩
    refine ⟨(if d.isNegative then -1 else 1) * (d.significand * 2 ^ n), ?_⟩
    rw [value, hn, zpow_add₀ two_ne_zero, zpow_natCast]
    push_cast
    ring
  · right
    have hsignificand : (d.significand : ℚ) < 2 * exponentWeight := by
      exact_mod_cast d.significand_lt
    have hstep : (2 : ℚ) ^ (d.scale + 1) ≤ (2 : ℚ) ^ s :=
      zpow_le_zpow_right₀ one_le_two (by omega)
    rw [zpow_add_one₀ two_ne_zero] at hstep
    have hpos : (0 : ℚ) < (2 : ℚ) ^ d.scale := by positivity
    rw [abs_value]
    have hweight : (0 : ℚ) < exponentWeight := by norm_num [exponentWeight]
    nlinarith

/-- The absolute value as a quotient of integers. -/
theorem abs_value_eq_div (d : Double) : |d.value| = (d.numerator : ℚ) / (d.denominator : ℚ) := by
  have hscale : d.scale = (d.scale.toNat : ℤ) - ((-d.scale).toNat : ℤ) := by omega
  rw [abs_value, hscale, zpow_sub₀ two_ne_zero, zpow_natCast, zpow_natCast, numerator, denominator,
    Nat.shiftLeft_eq, Nat.one_shiftLeft]
  push_cast
  rw [mul_div_assoc]

/-- A rational number without its fraction. -/
def roundTowardZero (x : ℚ) : ℤ :=
  if 0 ≤ x then ⌊x⌋ else ⌈x⌉

/-- Truncation drops the fraction. -/
theorem truncate_eq (d : Double) : d.truncate = roundTowardZero d.value := by
  have hfloor : ⌊|d.value|⌋ = ((d.numerator / d.denominator : ℕ) : ℤ) := by
    rw [abs_value_eq_div, Rat.floor_natCast_div_natCast]
    rfl
  have habs := abs_value d
  have hnonneg := abs_nonneg d.value
  unfold truncate
  dsimp only
  rw [← hfloor]
  unfold roundTowardZero
  cases hsign : d.isNegative with
  | false =>
    have hvalue : d.value = |d.value| := by
      rw [habs, value, hsign, if_neg Bool.false_ne_true, one_mul]
    rw [if_neg Bool.false_ne_true, hvalue, if_pos hnonneg, abs_abs]
  | true =>
    have hvalue : d.value = -|d.value| := by
      rw [habs, value, hsign, if_pos rfl, neg_one_mul]
    rw [if_pos rfl]
    split
    · -- Only the negative zero is not below zero.
      rename_i hge
      have hzero : |d.value| = 0 := by linarith
      rw [hzero, abs_eq_zero.1 hzero, Int.floor_zero, Int.neg_zero]
    · rw [← Int.ceil_neg, ← hvalue]

/-- An integer has no fraction. -/
theorem roundTowardZero_intCast (k : ℤ) : roundTowardZero k = k := by
  unfold roundTowardZero
  split
  · exact Int.floor_intCast k
  · exact Int.ceil_intCast k

/-! ### Integers -/

/-- The bits and the sign from which a double is made. -/
theorem magnitude_ofMagnitude (negative : Bool) {m : Nat} (h : m < signWeight) :
    (ofMagnitude negative m).magnitude = m ∧ (ofMagnitude negative m).isNegative = negative := by
  simp only [signWeight] at h
  cases negative with
  | false =>
    have hbits : (ofMagnitude false m).bits.toNat = m :=
      UInt64.toNat_ofNat_of_lt' (show m < 18446744073709551616 by omega)
    simp only [magnitude, isNegative, hbits, signWeight, decide_eq_false_iff_not]
    omega
  | true =>
    have hbits : (ofMagnitude true m).bits.toNat = signWeight + m :=
      UInt64.toNat_ofNat_of_lt' (show signWeight + m < 18446744073709551616 by
        simp only [signWeight]; omega)
    simp only [magnitude, isNegative, hbits, signWeight, decide_eq_true_eq]
    omega

/-- The place of the double nearest to a positive integer on the grid of its binade. -/
def placeOf (n : Nat) : Nat :=
  roundDiv (n <<< (52 - n.log2)) (1 <<< (n.log2 - 52))

/-- The binade of a positive integer. -/
theorem floorLog2_one {n : Nat} (h : n ≠ 0) : floorLog2 n 1 = n.log2 := by
  have hone : Nat.log2 1 = 0 := by decide
  have hle : 2 ^ n.log2 ≤ n := Nat.log2_self_le h
  unfold floorLog2
  dsimp only
  rw [hone, if_pos]
  · omega
  · have hneg : (-((n.log2 : Int) - (0 : Nat))).toNat = 0 := by omega
    have hpos : ((n.log2 : Int) - (0 : Nat)).toNat = n.log2 := by omega
    rw [hneg, hpos, Nat.shiftLeft_zero, Nat.one_shiftLeft]
    exact hle

/-- A quotient is rounded to one of the integers around it. -/
theorem roundDiv_mem (num den : Nat) :
    num / den ≤ roundDiv num den ∧ roundDiv num den ≤ num / den + 1 := by
  simp only [roundDiv]
  split
  · omega
  · split <;> omega

/-- A positive integer lies in its binade. -/
theorem binade_mem {n : Nat} (h : n ≠ 0) :
    exponentWeight * 1 <<< (n.log2 - 52) ≤ n <<< (52 - n.log2) ∧
      n <<< (52 - n.log2) < 2 * exponentWeight * 1 <<< (n.log2 - 52) := by
  have hlow : 2 ^ n.log2 ≤ n := Nat.log2_self_le h
  have hhigh : n < 2 ^ (n.log2 + 1) := Nat.lt_log2_self
  have hweight : exponentWeight = 2 ^ 52 := rfl
  have hexp : 52 + (n.log2 - 52) = n.log2 + (52 - n.log2) := by omega
  have hexp' : 52 + 1 + (n.log2 - 52) = n.log2 + 1 + (52 - n.log2) := by omega
  rw [Nat.one_shiftLeft, Nat.shiftLeft_eq, hweight, ← Nat.pow_add, ← Nat.pow_succ', ← Nat.pow_add,
    hexp, hexp', Nat.pow_add, Nat.pow_add _ (n.log2 + 1)]
  exact ⟨Nat.mul_le_mul_right _ hlow, Nat.mul_lt_mul_of_pos_right hhigh (Nat.two_pow_pos _)⟩

/-- Its place is on the grid of the binade or the one after the last. -/
theorem placeOf_mem {n : Nat} (h : n ≠ 0) :
    exponentWeight ≤ placeOf n ∧ placeOf n ≤ 2 * exponentWeight := by
  have hpos : 0 < 1 <<< (n.log2 - 52) := by
    rw [Nat.one_shiftLeft]
    exact Nat.two_pow_pos _
  obtain ⟨hlow, hhigh⟩ := binade_mem h
  have hfirst := (Nat.le_div_iff_mul_le hpos).2 hlow
  have hlast := (Nat.div_lt_iff_lt_mul hpos).2 hhigh
  have hround := roundDiv_mem (n <<< (52 - n.log2)) (1 <<< (n.log2 - 52))
  unfold placeOf
  omega

/-- The double nearest to an integer, by its bits. -/
theorem ofInt_eq {i : Int} (hzero : i ≠ 0) (hlt : i.natAbs < UInt64.size) :
    ofInt i = ofMagnitude (decide (i < 0))
      ((i.natAbs.log2 + 1022) * exponentWeight + placeOf i.natAbs) := by
  have hn : i.natAbs ≠ 0 := Int.natAbs_ne_zero.2 hzero
  have hlog : i.natAbs.log2 < 64 := (Nat.log2_lt hn).2 hlt
  have hplace := (placeOf_mem hn).2
  unfold ofInt ofRatio
  rw [if_neg hn, floorLog2_one hn]
  have hgrid : max ((i.natAbs.log2 : Int) - 52) (-1074) = i.natAbs.log2 - 52 := by omega
  have hdown : (-((i.natAbs.log2 : Int) - 52)).toNat = 52 - i.natAbs.log2 := by omega
  have hup : ((i.natAbs.log2 : Int) - 52).toNat = i.natAbs.log2 - 52 := by omega
  have hfield : ((i.natAbs.log2 : Int) - 52 + 1074).toNat = i.natAbs.log2 + 1022 := by omega
  dsimp only
  rw [hgrid, hdown, hup, hfield, Nat.min_eq_left]
  · rfl
  · change _ * exponentWeight + placeOf i.natAbs ≤ infinityMagnitude
    simp only [exponentWeight, infinityMagnitude] at hplace ⊢
    omega

/-- A significand is even if the bits are. -/
theorem even_significand (h : Even d.magnitude) : Even d.significand := by
  have hfraction : d.fraction = d.magnitude % exponentWeight := rfl
  unfold significand
  simp only [Nat.even_iff, exponentWeight] at *
  split <;> omega

/-- The double nearest to an integer denotes a number on the grid of its binade. It is finite, and
its significand is even if its place is. -/
theorem ofInt_place {i : Int} (hzero : i ≠ 0) (hlt : i.natAbs < UInt64.size) :
    (ofInt i).IsFinite ∧
      (ofInt i).value = i.sign * (placeOf i.natAbs * (2 : ℚ) ^ ((i.natAbs.log2 : ℤ) - 52)) ∧
      (Even (placeOf i.natAbs) → Even (ofInt i).significand) := by
  have hn : i.natAbs ≠ 0 := Int.natAbs_ne_zero.2 hzero
  have hlog : i.natAbs.log2 < 64 := (Nat.log2_lt hn).2 hlt
  obtain ⟨hlow, hhigh⟩ := placeOf_mem hn
  have hfits : (i.natAbs.log2 + 1022) * exponentWeight + placeOf i.natAbs < infinityMagnitude := by
    simp only [exponentWeight, infinityMagnitude] at *
    omega
  obtain ⟨hmagnitude, hnegative⟩ := magnitude_ofMagnitude (decide (i < 0))
    (Nat.lt_trans hfits (by decide))
  rw [← ofInt_eq hzero hlt] at hmagnitude hnegative
  refine ⟨?_, ?_, ?_⟩
  · rw [IsFinite, hmagnitude]
    exact hfits
  · have hsign : i.sign = if decide (i < 0) then -1 else 1 := by
      rcases lt_or_gt_of_ne hzero with h | h
      · simp [h, Int.sign_eq_neg_one_of_neg h]
      · simp [Int.not_lt.2 (Int.le_of_lt h), Int.sign_eq_one_of_pos h]
    have hexp : ((i.natAbs.log2 : ℤ) - 52) = ((i.natAbs.log2 + 1022 : ℕ) : ℤ) + -1074 := by
      omega
    rw [value_eq_units, unitsOfKey_orderKey, hmagnitude, hnegative, unitsOf_place hlow hhigh, hsign,
      hexp, zpow_add₀ two_ne_zero, zpow_natCast]
    generalize (2 : ℚ) ^ (-1074 : ℤ) = unit
    generalize i.natAbs.log2 + 1022 = e
    push_cast
    ring
  · intro hplace
    apply even_significand
    rw [hmagnitude]
    exact (Even.mul_left (by decide) _).add hplace

/-- Zero is a double. -/
theorem ofInt_zero : ofInt 0 = zero := rfl

theorem value_zero : zero.value = 0 := by
  have hsignificand : zero.significand = 0 := rfl
  rw [value, hsignificand, Nat.cast_zero, zero_mul, mul_zero]

/-- An integer and the grid of its binade, brought to integers. -/
theorem binade_scaled (n : Nat) : ∃ c : ℚ, 0 < c ∧
    (n : ℚ) = (n <<< (52 - n.log2) : ℕ) * c ∧
    (2 : ℚ) ^ ((n.log2 : ℤ) - 52) = (1 <<< (n.log2 - 52) : ℕ) * c := by
  refine ⟨((2 : ℚ) ^ (52 - n.log2))⁻¹, by positivity, ?_, ?_⟩
  · rw [Nat.shiftLeft_eq, Nat.cast_mul, Nat.cast_pow, Nat.cast_ofNat,
      mul_inv_cancel_right₀ (by positivity)]
  · have hexp : (n.log2 : ℤ) - 52 = ((n.log2 - 52 : ℕ) : ℤ) - ((52 - n.log2 : ℕ) : ℤ) := by omega
    rw [Nat.one_shiftLeft, Nat.cast_pow, Nat.cast_ofNat, hexp, zpow_sub₀ two_ne_zero, zpow_natCast,
      zpow_natCast, div_eq_mul_inv]

/-- The place of a positive integer is no further from it than any double is, and it is even if
another double is as near. -/
theorem placeOf_nearest {n : Nat} (h : n ≠ 0) {x : ℚ}
    (hx : (∃ k : ℤ, x = k * (2 : ℚ) ^ ((n.log2 : ℤ) - 52)) ∨
      |x| < exponentWeight * (2 : ℚ) ^ ((n.log2 : ℤ) - 52)) :
    |(n : ℚ) - placeOf n * (2 : ℚ) ^ ((n.log2 : ℤ) - 52)| ≤ |(n : ℚ) - x| ∧
      (|(n : ℚ) - x| = |(n : ℚ) - placeOf n * (2 : ℚ) ^ ((n.log2 : ℤ) - 52)| →
        x = placeOf n * (2 : ℚ) ^ ((n.log2 : ℤ) - 52) ∨ Even (placeOf n)) := by
  have hnearest (k : ℤ) := roundDiv_nearest (n <<< (52 - n.log2)) (1 <<< (n.log2 - 52))
    (by rw [Nat.one_shiftLeft]; exact Nat.two_pow_pos _) k
  have hbinade := (binade_mem h).1
  obtain ⟨c, hc, hinteger, hgrid⟩ := binade_scaled n
  change ∀ k : ℤ, |_ - (placeOf n : ℤ) * _| ≤ _ ∧
    (_ = |_ - (placeOf n : ℤ) * _| → _ = (placeOf n : ℤ) ∨ Even (placeOf n)) at hnearest
  rw [hgrid] at hx ⊢
  generalize n <<< (52 - n.log2) = num at *
  generalize 1 <<< (n.log2 - 52) = den at *
  have hscaled (k : ℤ) : |(n : ℚ) - k * (den * c)| = c * (|(num : ℤ) - k * den| : ℤ) := by
    have heq : (n : ℚ) - k * (den * c) = c * (num - k * den) := by
      rw [hinteger]
      ring
    rw [heq, abs_mul, abs_of_pos hc]
    push_cast
    rfl
  have hplace := hscaled (placeOf n)
  rw [Int.cast_natCast] at hplace
  rw [hplace]
  rcases hx with ⟨k, rfl⟩ | hsmall
  · rw [hscaled]
    refine ⟨mul_le_mul_of_nonneg_left (by exact_mod_cast (hnearest k).1) hc.le, fun htie => ?_⟩
    have heq := mul_left_cancel₀ hc.ne' htie
    rcases (hnearest k).2 (by exact_mod_cast heq) with hk | heven
    · exact .inl (by rw [hk, Int.cast_natCast])
    · exact .inr heven
  · -- A finer double is nearer to zero than the first place of the binade.
    have hfirst := mul_le_mul_of_nonneg_left (Int.cast_le.2 (hnearest exponentWeight).1) hc.le
    rw [← hscaled (exponentWeight : ℤ), Int.cast_natCast] at hfirst
    have hbelow : (exponentWeight : ℚ) * (den * c) ≤ n := by
      rw [hinteger, ← mul_assoc]
      exact mul_le_mul_of_nonneg_right (by exact_mod_cast hbinade) hc.le
    rw [abs_of_nonneg (sub_nonneg.2 hbelow)] at hfirst
    have hx := le_abs_self x
    have hdistance := le_abs_self ((n : ℚ) - x)
    exact ⟨by linarith, fun htie => by linarith⟩

/-- The double is the one nearest to a number, and its significand is even if another double is as
near. -/
structure IsNearest (d : Double) (x : ℚ) : Prop where
  /-- It denotes a number. -/
  finite : d.IsFinite
  /-- No double is nearer. -/
  nearest : ∀ e : Double, e.IsFinite → |x - d.value| ≤ |x - e.value|
  /-- Of two that are as near it is the even one. -/
  even : ∀ e : Double, e.IsFinite → |x - e.value| = |x - d.value| →
    e.value = d.value ∨ Even d.significand

/-- A double that denotes the number is nearest to it. -/
theorem isNearest_of_value_eq {x : ℚ} (hfinite : d.IsFinite) (h : d.value = x) :
    d.IsNearest x where
  finite := hfinite
  nearest e _ := by
    rw [h, sub_self, abs_zero]
    exact abs_nonneg _
  even e _ htie := by
    rw [h, sub_self, abs_zero, abs_eq_zero, sub_eq_zero] at htie
    exact .inl (htie.symm.trans h.symm)

/-- Only a double that denotes the number is nearest to it, if there is one. -/
theorem IsNearest.value_eq {x : ℚ} (h : d.IsNearest x) (hb : b.IsFinite) (hx : b.value = x) :
    d.value = x := by
  have hle := h.nearest b hb
  rw [hx, sub_self, abs_zero] at hle
  linarith [abs_eq_zero.1 (le_antisymm hle (abs_nonneg _))]

/-- The sign of an integer. -/
theorem sign_eq {i : Int} (h : i ≠ 0) : (i.sign : ℚ) = -1 ∨ (i.sign : ℚ) = 1 := by
  rcases lt_or_gt_of_ne h with h | h
  · exact .inl (by rw [Int.sign_eq_neg_one_of_neg h, Int.cast_neg, Int.cast_one])
  · exact .inr (by rw [Int.sign_eq_one_of_pos h, Int.cast_one])

/-- An integer by its sign and its absolute value. -/
theorem cast_eq_sign_mul (i : Int) : (i : ℚ) = i.sign * i.natAbs := by
  rw [← Int.cast_natCast, ← Int.cast_mul, Int.sign_mul_natAbs]

/-- The sign of an integer does not change distances from it. -/
theorem abs_sub_of_sign {i : Int} (hzero : i ≠ 0) (y : ℚ) :
    |(i : ℚ) - i.sign * y| = |(i.natAbs : ℚ) - y| := by
  rw [cast_eq_sign_mul i, ← mul_sub, abs_mul]
  rcases sign_eq hzero with h | h
  · rw [h, abs_neg, abs_one, one_mul]
  · rw [h, abs_one, one_mul]

/-- Integers of 64 bits become the nearest double. -/
theorem ofInt_isNearest {i : Int} (hlt : i.natAbs < UInt64.size) : (ofInt i).IsNearest i := by
  by_cases hzero : i = 0
  · rw [hzero]
    exact isNearest_of_value_eq (by decide) (by rw [ofInt_zero, value_zero, Int.cast_zero])
  obtain ⟨hfinite, hvalue, heven⟩ := ofInt_place hzero hlt
  have hn : i.natAbs ≠ 0 := Int.natAbs_ne_zero.2 hzero
  have hother (e : Double) : e.value = i.sign * (i.sign * e.value) := by
    rcases sign_eq hzero with h | h <;> rw [h] <;> ring
  have hplace (e : Double) := placeOf_nearest hn (x := i.sign * e.value) (by
    rcases e.multiple_or_small ((i.natAbs.log2 : ℤ) - 52) with ⟨k, hk⟩ | hsmall
    · exact .inl ⟨i.sign * k, by rw [hk, Int.cast_mul, mul_assoc]⟩
    · right
      rw [abs_mul]
      rcases sign_eq hzero with h | h
      · rwa [h, abs_neg, abs_one, one_mul]
      · rwa [h, abs_one, one_mul])
  refine ⟨hfinite, fun e _ => ?_, fun e _ htie => ?_⟩
  · rw [hother e, hvalue, abs_sub_of_sign hzero, abs_sub_of_sign hzero]
    exact (hplace e).1
  · rw [hother e, hvalue, abs_sub_of_sign hzero, abs_sub_of_sign hzero] at htie
    rcases (hplace e).2 htie with hx | hx
    · left
      rw [hother e, hx, hvalue]
    · exact .inr (heven hx)

/-- Integers of 53 bits are doubles. -/
theorem ofInt_exact {i : Int} (hlt : i.natAbs < 2 * exponentWeight) : (ofInt i).value = i := by
  by_cases hzero : i = 0
  · rw [hzero, ofInt_zero, value_zero, Int.cast_zero]
  have hn : i.natAbs ≠ 0 := Int.natAbs_ne_zero.2 hzero
  have hlog : i.natAbs.log2 < 53 := (Nat.log2_lt hn).2 hlt
  have hfine : i.natAbs.log2 - 52 = 0 := by omega
  have hplace : placeOf i.natAbs = i.natAbs <<< (52 - i.natAbs.log2) := by
    rw [placeOf, hfine]
    simp [roundDiv, Nat.mod_one]
  obtain ⟨c, -, hinteger, hgrid⟩ := binade_scaled i.natAbs
  rw [hfine, Nat.shiftLeft_zero, Nat.cast_one, one_mul] at hgrid
  rw [(ofInt_place hzero (Nat.lt_trans hlt (by decide))).2.1, hplace, hgrid, ← hinteger,
    ← cast_eq_sign_mul]

/-- The double nearest to an integer is an integer. -/
theorem exists_intCast_ofInt {i : Int} (hlt : i.natAbs < UInt64.size) :
    ∃ k : ℤ, (ofInt i).value = k := by
  by_cases hsmall : i.natAbs < 2 * exponentWeight
  · exact ⟨i, ofInt_exact hsmall⟩
  · have hn : i.natAbs ≠ 0 := by
      rintro h
      exact hsmall (h ▸ by decide)
    have hlog : 53 ≤ i.natAbs.log2 := (Nat.le_log2 hn).2 (Nat.le_of_not_lt hsmall)
    have hexp : (i.natAbs.log2 : ℤ) - 52 = ((i.natAbs.log2 - 52 : ℕ) : ℤ) := by omega
    refine ⟨i.sign * (placeOf i.natAbs * 2 ^ (i.natAbs.log2 - 52)), ?_⟩
    rw [(ofInt_place (Int.natAbs_ne_zero.1 hn) hlt).2.1, hexp, zpow_natCast]
    push_cast
    rfl

/-! ### Truncation into a range -/

/-- A finite double is truncated and held within the range. -/
theorem saturate_of_finite (lo hi : ℤ) (hd : d.IsFinite) :
    d.saturate lo hi = max lo (min hi (roundTowardZero d.value)) := by
  have hlt : d.magnitude < infinityMagnitude := hd
  have hnan : d.isNaN = false := by
    simp only [isNaN, decide_eq_false_iff_not]
    omega
  have hinfinite : d.isInfinite = false := by
    simp only [isInfinite, beq_eq_false_iff_ne]
    omega
  rw [saturate, hnan, hinfinite, truncate_eq]
  rfl

/-- Whatever the double is, the result lies in the range. -/
theorem saturate_mem {lo hi : ℤ} (hlo : lo ≤ 0) (hhi : 0 ≤ hi) (d : Double) :
    lo ≤ d.saturate lo hi ∧ d.saturate lo hi ≤ hi := by
  unfold saturate
  split
  · exact ⟨hlo, hhi⟩
  · split
    · split <;> omega
    · omega

/-- Comparing the double nearest to a result with the original finds out whether the original was
an integer of the range. It is mistaken only about a number beyond the upper end that the upper end
is rounded to. -/
theorem sameNumber_saturate (lo hi : ℤ) (hlo : lo ≤ 0) (hhi : 0 ≤ hi)
    (hlow : lo.natAbs < UInt64.size) (hhigh : hi.natAbs < UInt64.size)
    (hexact : (ofInt lo).value = lo) (d : Double) :
    (ofInt (d.saturate lo hi)).sameNumber d = true ↔ d.IsFinite ∧
      (d.value = d.saturate lo hi ∨ (hi : ℚ) < d.value ∧ d.value = (ofInt hi).value) := by
  obtain ⟨hge, hle⟩ := saturate_mem hlo hhi d
  have hresult : (d.saturate lo hi).natAbs < UInt64.size := by omega
  have hnearest := ofInt_isNearest hresult
  rw [sameNumber_iff hnearest.finite]
  refine and_congr_right fun hd => ?_
  have hclamp := saturate_of_finite lo hi hd
  constructor
  · intro hsame
    obtain ⟨k, hk⟩ := exists_intCast_ofInt hresult
    rw [hsame, hk, roundTowardZero_intCast] at hclamp
    rcases lt_or_ge k lo with hbelow | hnotBelow
    · have hend : d.saturate lo hi = lo := by omega
      rw [hend, hexact, Int.cast_inj] at hk
      omega
    rcases lt_or_ge hi k with habove | hnotAbove
    · have hend : d.saturate lo hi = hi := by omega
      rw [hend] at hsame hk
      exact .inr ⟨by rw [hsame, hk]; exact_mod_cast habove, hsame⟩
    · left
      have hsaturated : d.saturate lo hi = k := by omega
      rw [hsame, hk, hsaturated]
  · rintro (hinteger | ⟨habove, hrounded⟩)
    · rw [hnearest.value_eq hd hinteger, hinteger]
    · obtain ⟨k, hk⟩ := exists_intCast_ofInt hhigh
      rw [hrounded, hk, roundTowardZero_intCast] at hclamp
      rw [hrounded, hk] at habove
      have hlt : hi < k := by exact_mod_cast habove
      have hend : d.saturate lo hi = hi := by omega
      rw [hend]
      exact hrounded

end Double

end SlotMachine
