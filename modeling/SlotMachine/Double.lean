/-!
# Double precision numbers

A `Double` is its 64 bits, so two of them are equal exactly when their bits are. The number that
the bits denote is `significand * 2 ^ scale`, negated when the sign bit is set. Order, rounding of
a quotient, truncation and remainder are computed exactly in integers; addition, subtraction,
multiplication and division are those of the hardware.
-/

namespace SlotMachine

/-- The quotient `num / den` rounded to the nearest integer, a half going to the even neighbour. -/
def roundDiv (num den : Nat) : Nat :=
  let quotient := num / den
  let twice := 2 * (num % den)
  if twice < den then quotient
  else if den < twice then quotient + 1
  else quotient + quotient % 2

/-- A double precision number, kept as its bits. -/
structure Double where
  /-- Sign bit, eleven exponent bits, fifty-two fraction bits. -/
  bits : UInt64
  deriving DecidableEq, Inhabited

namespace Double

/-- Positive zero. -/
def zero : Double := ⟨0⟩

/-- The quiet NaN that undefined results take. -/
def nan : Double := ⟨0x7ff8000000000000⟩

/-- The weight of the sign bit. -/
def signWeight : Nat := 0x8000000000000000

/-- The weight of the lowest exponent bit, which is also that of the leading bit that normal
numbers do not store. -/
def exponentWeight : Nat := 0x10000000000000

/-- The bits of infinity without the sign. -/
def infinityMagnitude : Nat := 0x7ff0000000000000

/-- The bits without the sign, which order the non-negative numbers. -/
def magnitude (d : Double) : Nat :=
  d.bits.toNat % signWeight

/-- Whether the sign bit is set. -/
def isNegative (d : Double) : Bool :=
  decide (signWeight ≤ d.bits.toNat)

/-- Whether the bits denote no number and no infinity. -/
def isNaN (d : Double) : Bool :=
  decide (infinityMagnitude < d.magnitude)

/-- Whether the bits denote an infinity. -/
def isInfinite (d : Double) : Bool :=
  d.magnitude == infinityMagnitude

/-- Whether the number is one of the two zeros. -/
def isZero (d : Double) : Bool :=
  d.magnitude == 0

/-- The exponent bits. -/
def exponentField (d : Double) : Nat :=
  d.magnitude / exponentWeight

/-- The fraction bits. -/
def fraction (d : Double) : Nat :=
  d.magnitude % exponentWeight

/-- The integer significand; normal numbers carry an implicit leading bit. -/
def significand (d : Double) : Nat :=
  if d.exponentField = 0 then d.fraction else exponentWeight + d.fraction

/-- The power of two that multiplies the significand. -/
def scale (d : Double) : Int :=
  (max d.exponentField 1 : Nat) - 1075

/-- The numerator of the finite absolute value over `denominator`. -/
def numerator (d : Double) : Nat :=
  d.significand <<< d.scale.toNat

/-- The denominator of the finite absolute value, a power of two. -/
def denominator (d : Double) : Nat :=
  1 <<< (-d.scale).toNat

/-- Build a number from its sign and the remaining bits. -/
def ofMagnitude (negative : Bool) (magnitude : Nat) : Double :=
  ⟨UInt64.ofNat (if negative then signWeight + magnitude else magnitude)⟩

/-- The base-two logarithm of `num / den` rounded down, for positive arguments. -/
def floorLog2 (num den : Nat) : Int :=
  let estimate : Int := (num.log2 : Int) - (den.log2 : Int)
  if den <<< estimate.toNat ≤ num <<< (-estimate).toNat then estimate else estimate - 1

/-- The double nearest to `num / den`, ties going to the even significand, and infinity when the
quotient is too large. The significand is rounded on the grid of the quotient's own binade, or on
that of the subnormal numbers below it; a carry moves into the exponent bits by itself. -/
def ofRatio (negative : Bool) (num den : Nat) : Double :=
  if num = 0 then ofMagnitude negative 0
  else
    let grid := max (floorLog2 num den - 52) (-1074)
    let rounded := roundDiv (num <<< (-grid).toNat) (den <<< grid.toNat)
    ofMagnitude negative (min ((grid + 1074).toNat * exponentWeight + rounded) infinityMagnitude)

/-- The double nearest to an integer. -/
def ofInt (i : Int) : Double :=
  ofRatio (decide (i < 0)) i.natAbs 1

/-- The integer part of a finite number, rounded toward zero. -/
def truncate (d : Double) : Int :=
  let whole : Int := (d.numerator / d.denominator : Nat)
  if d.isNegative then -whole else whole

/-- The integer part held within `lo` and `hi`; a NaN gives zero. -/
def saturate (lo hi : Int) (d : Double) : Int :=
  if d.isNaN then 0
  else if d.isInfinite then (if d.isNegative then lo else hi)
  else max lo (min hi d.truncate)

/-- An integer that orders all doubles but the NaNs; both zeros have key 0. -/
def orderKey (d : Double) : Int :=
  if d.isNegative then -(d.magnitude : Int) else d.magnitude

/-- The order of two numbers; a NaN is not ordered. -/
def compare? (a b : Double) : Option Ordering :=
  if a.isNaN || b.isNaN then none else some (compare a.orderKey b.orderKey)

/-- Whether two doubles denote the same number; a NaN differs from itself. -/
def sameNumber (a b : Double) : Bool :=
  a.compare? b == some .eq

/-- The number with the opposite sign. -/
def neg (d : Double) : Double :=
  ⟨d.bits ^^^ UInt64.ofNat signWeight⟩

/-- The number without its sign. -/
def abs (d : Double) : Double :=
  ofMagnitude false d.magnitude

/-- Apply a hardware operation to two doubles. -/
def lift₂ (f : Float → Float → Float) (a b : Double) : Double :=
  ⟨(f (Float.ofBits a.bits) (Float.ofBits b.bits)).toBits⟩

/-- The rounded sum. -/
def add : Double → Double → Double := lift₂ (· + ·)

/-- The rounded difference. -/
def sub : Double → Double → Double := lift₂ (· - ·)

/-- The rounded product. -/
def mul : Double → Double → Double := lift₂ (· * ·)

/-- The rounded quotient. -/
def div : Double → Double → Double := lift₂ (· / ·)

/-- The remainder of division truncated toward zero, which is exact and has the sign of the
dividend. -/
def rem (a b : Double) : Double :=
  if a.isNaN || b.isNaN || a.isInfinite || b.isZero then nan
  else if b.isInfinite then a
  else
    let remainder := (a.numerator * b.denominator) % (b.numerator * a.denominator)
    ofRatio a.isNegative remainder (a.denominator * b.denominator)

end Double

end SlotMachine
