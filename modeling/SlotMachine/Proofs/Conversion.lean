import SlotMachine.Proofs.Integers
import SlotMachine.Proofs.Double
import SlotMachine.Proofs.Store.Writing

/-!
# Numeric conversion

Every number can be converted into every numeric kind. Integers are reduced to the width of an
integer kind and become the nearest double; doubles lose their fraction and are held within the
range of an integer kind. The conversion reports a loss exactly if the number has changed, but for
one number of each 64-bit kind: the double that lies just beyond the range is the double nearest to
the end of the range, and its loss goes unnoticed. Writes into declared cells and typed reads warn
accordingly.
-/

namespace SlotMachine

namespace IntegerKind

/-- The least integer of a kind. -/
def least : IntegerKind → Int
  | byte => -128
  | long => -9223372036854775808
  | uint64 => 0

/-- The greatest integer of a kind. -/
def greatest : IntegerKind → Int
  | byte => 127
  | long => 9223372036854775807
  | uint64 => 18446744073709551615

/-- The integer of the kind that an integer is reduced to. -/
def wrap : IntegerKind → Int → Int
  | byte, i => i.bmod 256
  | long, i => i.bmod UInt64.size
  | uint64, i => i % (UInt64.size : Nat)

/-- The integer of the kind that a double is truncated to. A NaN becomes zero, and what is beyond an
end of the range becomes that end. -/
def truncated (kind : IntegerKind) (d : Double) : Int :=
  if d.isNaN then 0
  else if d.isInfinite then (if d.isNegative then kind.least else kind.greatest)
  else max kind.least (min kind.greatest (Double.roundTowardZero d.value))

end IntegerKind

namespace Value

/-- The number that a value denotes. -/
def rational? : Value → Option ℚ
  | double d => if d.IsFinite then some d.value else none
  | v => v.integer?.map fun i => (i : ℚ)

/-- Nothing is lost from one value to another: they are the same, or they denote the same number. -/
def Keeps (v w : Value) : Prop :=
  w = v ∨ ∃ x, v.rational? = some x ∧ w.rational? = some x

/-- A double that denotes the number just beyond the range of a kind of 64 bits. -/
inductive Overshoots : Value → Tag → Prop
  /-- The first number above the signed integers. -/
  | long {d : Double} : rational? (.double d) = some 9223372036854775808 →
      Overshoots (.double d) Tag.long
  /-- The first number above the unsigned integers. -/
  | uint64 {d : Double} : rational? (.double d) = some 18446744073709551616 →
      Overshoots (.double d) Tag.uint64

/-- What the conversion of a number into a kind has to give. -/
structure Converts (v : Value) (kind : Tag) (w : Value) (lossy : Bool) : Prop where
  /-- The result is of the kind. -/
  tag_eq : w.tag = kind
  /-- No loss is reported exactly if nothing is lost or a double overshoots the kind. -/
  lossless_iff : lossy = false ↔ v.Keeps w ∨ v.Overshoots kind
  /-- Integers are reduced to an integer kind. -/
  wrapped : ∀ k i, kind = IntegerKind.tag k → v.integer? = some i → w.IsInteger k (k.wrap i)
  /-- Integers become the nearest double. -/
  nearest : ∀ i, kind = Tag.double → v.integer? = some i → ∃ d, w = .double d ∧ d.IsNearest i
  /-- Doubles are truncated into the range of an integer kind. -/
  truncated : ∀ k d, kind = IntegerKind.tag k → v = .double d → w.IsInteger k (k.truncated d)
  /-- A double is a double already. -/
  same : ∀ d, kind = Tag.double → v = .double d → w = v

end Value

namespace IntegerKind

variable {kind : IntegerKind} {v : Value} {i : Int}

/-- What an integer becomes in a kind. -/
theorem isInteger_value (kind : IntegerKind) (i : Int) :
    (kind.value i).IsInteger kind (kind.wrap i) := by
  cases kind with
  | byte =>
    have h := Value.IsInteger.byte (Int8.ofInt i)
    rwa [Int8.toInt_ofInt] at h
  | long =>
    have h := Value.IsInteger.long (Int64.ofInt i)
    rwa [Int64.toInt_ofInt] at h
  | uint64 =>
    have h := Value.IsInteger.uint64 (UInt64.ofInt i)
    rwa [toNat_ofInt] at h

/-- Integers of the kind are not reduced. -/
theorem wrap_of_mem (hlow : kind.least ≤ i) (hhigh : i ≤ kind.greatest) : kind.wrap i = i := by
  cases kind with
  | byte =>
    simp only [least, greatest] at hlow hhigh
    exact Int.bmod_eq_of_le (by omega) (by omega)
  | long =>
    have hfits : long.Fits i := ⟨hlow, hhigh⟩
    exact reduce_of_fits hfits
  | uint64 =>
    have hfits : uint64.Fits i := ⟨hlow, Int.lt_add_one_of_le hhigh⟩
    exact reduce_of_fits hfits

/-- An integer in the range of a kind is the integer of a value. -/
theorem isInteger_value_of_mem (hlow : kind.least ≤ i) (hhigh : i ≤ kind.greatest) :
    (kind.value i).IsInteger kind i := by
  have hvalue := isInteger_value kind i
  rwa [wrap_of_mem hlow hhigh] at hvalue

/-- The integers of a kind lie in its range. -/
theorem mem_of_isInteger (h : v.IsInteger kind i) : kind.least ≤ i ∧ i ≤ kind.greatest := by
  cases h with
  | byte n => exact byte_bounds n
  | long n => exact fits_toInt n
  | uint64 n =>
    have hlt := n.toNat_lt
    simp only [least, greatest]
    omega

/-- The integer of an integer kind. -/
theorem integer?_of_isInteger (h : v.IsInteger kind i) : v.integer? = some i := by
  cases h <;> rfl

/-- The kinds are told apart by their tags. -/
theorem tag_injective {a b : IntegerKind} (h : a.tag = b.tag) : a = b := by
  revert h
  cases a <;> cases b <;> decide

/-- No integer kind is that of the doubles. -/
theorem tag_ne_double (kind : IntegerKind) : kind.tag ≠ Tag.double := by
  cases kind <;> decide

/-- Truncation into a range is what the saturating conversion does. -/
theorem saturate_eq_truncated (kind : IntegerKind) (d : Double) :
    d.saturate kind.least kind.greatest = kind.truncated d := by
  unfold Double.saturate truncated
  rw [Double.truncate_eq]

/-- The end of the range lies in it. -/
theorem truncated_mem (kind : IntegerKind) (d : Double) :
    kind.least ≤ kind.truncated d ∧ kind.truncated d ≤ kind.greatest := by
  rw [← saturate_eq_truncated]
  exact Double.saturate_mem (by cases kind <;> decide) (by cases kind <;> decide) d

end IntegerKind

namespace Double

/-- The double nearest to an integer, computed from its place. -/
theorem value_ofInt {i : Int} (place log : Nat) (hzero : i ≠ 0) (hlt : i.natAbs < UInt64.size)
    (hlog : i.natAbs.log2 = log + 52) (hplace : placeOf i.natAbs = place) :
    (ofInt i).value = (i.sign * (place * 2 ^ log) : ℤ) := by
  have hexp : ((log + 52 : ℕ) : ℤ) - 52 = (log : ℤ) := by omega
  rw [(ofInt_place hzero hlt).2.1, hlog, hplace, hexp, zpow_natCast]
  push_cast
  rfl

/-- The ends of the signed range are a double and next to one. -/
theorem value_ofInt_long : (ofInt (-9223372036854775808)).value = (-9223372036854775808 : ℤ) ∧
    (ofInt 9223372036854775807).value = (9223372036854775808 : ℤ) :=
  ⟨value_ofInt 4503599627370496 11 (by decide) (by decide) (by decide +kernel)
      (by decide +kernel),
    value_ofInt 9007199254740992 10 (by decide) (by decide) (by decide +kernel)
      (by decide +kernel)⟩

/-- The upper end of the unsigned range is next to a double. -/
theorem value_ofInt_uint64 : (ofInt 18446744073709551615).value = (18446744073709551616 : ℤ) :=
  value_ofInt 9007199254740992 11 (by decide) (by decide) (by decide +kernel)
    (by decide +kernel)

end Double

namespace Number

/-- The integer that is reduced when a number is converted into an integer kind. -/
def reading (kind : IntegerKind) : Number → Int
  | integer i => i
  | real d => kind.truncated d

/-- How a number is converted into an integer kind. -/
theorem convert_integerKind (n : Number) (kind : IntegerKind) : n.convert? kind.tag =
    some (kind.value (n.reading kind), n.loses (kind.wrap (n.reading kind))) := by
  cases kind with
  | byte =>
    have hword : n.toByte = Int8.ofInt (n.reading .byte) := by
      cases n with
      | integer i => rfl
      | real d => exact congrArg Int8.ofInt (IntegerKind.saturate_eq_truncated .byte d)
    change some (Value.byte n.toByte, n.loses n.toByte.toInt) = _
    rw [hword, Int8.toInt_ofInt]
    rfl
  | long =>
    have hword : n.toLong = Int64.ofInt (n.reading .long) := by
      cases n with
      | integer i => rfl
      | real d => exact congrArg Int64.ofInt (IntegerKind.saturate_eq_truncated .long d)
    change some (Value.long n.toLong, n.loses n.toLong.toInt) = _
    rw [hword, Int64.toInt_ofInt]
    rfl
  | uint64 =>
    have hword : n.toUInt64 = UInt64.ofInt (n.reading .uint64) := by
      cases n with
      | integer i => rfl
      | real d => exact congrArg UInt64.ofInt (IntegerKind.saturate_eq_truncated .uint64 d)
    change some (Value.uint64 n.toUInt64, n.loses n.toUInt64.toNat) = _
    rw [hword, IntegerKind.toNat_ofInt]
    rfl

end Number

namespace Value

open IntegerKind

variable {v w : Value} {k kind : IntegerKind} {i j : Int} {d : Double}

/-- Which numbers integers denote. -/
theorem rational?_of_integer? (h : v.integer? = some i) : v.rational? = some (i : ℚ) := by
  cases v <;> cases h <;> rfl

/-- An integer is kept by an integer exactly if it is the same. -/
theorem keeps_integer (hv : v.integer? = some i) (hw : w.IsInteger k j) : v.Keeps w ↔ j = i := by
  have hw' := integer?_of_isInteger hw
  constructor
  · rintro (rfl | ⟨x, hx, hx'⟩)
    · exact Option.some.inj (hw'.symm.trans hv)
    · rw [rational?_of_integer? hv, ← hx', rational?_of_integer? hw'] at hx
      exact_mod_cast (Option.some.inj hx).symm
  · rintro rfl
    exact .inr ⟨j, rational?_of_integer? hv, rational?_of_integer? hw'⟩

/-- A double is kept by an integer exactly if it denotes that integer. -/
theorem keeps_double_integer (hw : w.IsInteger k j) :
    (Value.double d).Keeps w ↔ d.IsFinite ∧ d.value = j := by
  have hw' := rational?_of_integer? (integer?_of_isInteger hw)
  constructor
  · rintro (rfl | ⟨x, hx, hx'⟩)
    · cases hw
    · rw [← hx', hw', rational?, Option.ite_none_right_eq_some] at hx
      exact ⟨hx.1, Option.some.inj hx.2⟩
  · rintro ⟨hfinite, hvalue⟩
    exact .inr ⟨j, by rw [rational?, if_pos hfinite, hvalue], hw'⟩

/-- An integer is kept by a double exactly if the double denotes it. -/
theorem keeps_integer_double (hv : v.integer? = some i) (hd : d.IsFinite) :
    v.Keeps (.double d) ↔ d.value = i := by
  have hv' := rational?_of_integer? hv
  constructor
  · rintro (rfl | ⟨x, hx, hx'⟩)
    · cases hv
    · rw [← hx, hv', rational?, if_pos hd] at hx'
      exact Option.some.inj hx'
  · intro hvalue
    exact .inr ⟨i, hv', by rw [rational?, if_pos hd, hvalue]⟩

/-- The least integer of every kind is a double. -/
theorem value_ofInt_least (k : IntegerKind) : (Double.ofInt k.least).value = k.least := by
  cases k with
  | byte => exact Double.ofInt_exact (by decide)
  | long => exact Double.value_ofInt_long.1
  | uint64 => exact Double.ofInt_exact (by decide)

/-- What it is to overshoot. -/
theorem overshoots_double_iff {t : Tag} : (Value.double d).Overshoots t ↔ d.IsFinite ∧
    (t = Tag.long ∧ d.value = 9223372036854775808 ∨
      t = Tag.uint64 ∧ d.value = 18446744073709551616) := by
  constructor
  · rintro (h | h) <;> rw [rational?, Option.ite_none_right_eq_some] at h
    · exact ⟨h.1, .inl ⟨rfl, Option.some.inj h.2⟩⟩
    · exact ⟨h.1, .inr ⟨rfl, Option.some.inj h.2⟩⟩
  · rintro ⟨hfinite, ⟨rfl, hvalue⟩ | ⟨rfl, hvalue⟩⟩
    · exact .long (by rw [rational?, if_pos hfinite, hvalue])
    · exact .uint64 (by rw [rational?, if_pos hfinite, hvalue])

/-- Which doubles are beyond an integer kind and nearest to its greatest integer. -/
theorem overshoots_iff : (Value.double d).Overshoots k.tag ↔ d.IsFinite ∧
    ((k.greatest : ℚ) < d.value ∧ d.value = (Double.ofInt k.greatest).value) := by
  rw [overshoots_double_iff]
  refine and_congr_right fun _ => ?_
  cases k with
  | byte =>
    have hexact : (Double.ofInt 127).value = (127 : ℤ) := Double.ofInt_exact (by decide)
    have hlong : IntegerKind.byte.tag ≠ Tag.long := by decide
    have huint64 : IntegerKind.byte.tag ≠ Tag.uint64 := by decide
    simp only [greatest, hexact, hlong, huint64, false_and, or_self, false_iff, not_and]
    exact fun hlt => hlt.ne'
  | long =>
    have huint64 : IntegerKind.long.tag ≠ Tag.uint64 := by decide
    simp only [greatest, Double.value_ofInt_long, huint64, false_and, or_false]
    norm_num [IntegerKind.tag]
    intro h
    rw [h]
    norm_num
  | uint64 =>
    have hlong : IntegerKind.uint64.tag ≠ Tag.long := by decide
    simp only [greatest, Double.value_ofInt_uint64, hlong, false_and, false_or]
    norm_num [IntegerKind.tag]
    intro h
    rw [h]
    norm_num

/-- Only doubles overshoot. -/
theorem not_overshoots_of_integer? {t : Tag} (hv : v.integer? = some i) : ¬v.Overshoots t := by
  rintro (_ | _) <;> cases hv

/-- How an integer is converted into an integer kind. -/
theorem convert_integer (hv : v.integer? = some i) (k : IntegerKind) :
    v.convert? k.tag = some (k.value i, k.wrap i != i) := by
  have hnumber : v.number? = some (.integer i) := by
    cases v <;> cases hv <;> rfl
  rw [Value.convert?, hnumber, Option.bind_some, Number.convert_integerKind]
  rfl

/-- How an integer is converted into a double. -/
theorem convert_nearest (hv : v.integer? = some i) : v.convert? Tag.double =
    some (.double (Double.ofInt i), (Double.ofInt i).truncate != i) := by
  cases v <;> cases hv <;> rfl

/-- How a double is converted into an integer kind. -/
theorem convert_double (d : Double) (k : IntegerKind) : (Value.double d).convert? k.tag =
    some (k.value (k.truncated d), !(Double.ofInt (k.truncated d)).sameNumber d) := by
  obtain ⟨hlow, hhigh⟩ := k.truncated_mem d
  have hconvert := Number.convert_integerKind (.real d) k
  rwa [Number.reading, wrap_of_mem hlow hhigh] at hconvert

/-- An integer converted into an integer kind. -/
theorem converts_integer (hv : v.integer? = some i) (k : IntegerKind) :
    v.Converts k.tag (k.value i) (k.wrap i != i) where
  tag_eq := tag_of_isInteger (isInteger_value k i)
  lossless_iff := by
    rw [keeps_integer hv (isInteger_value k i), bne_eq_false_iff_eq,
      or_iff_left (not_overshoots_of_integer? hv)]
  wrapped k' i' hk hi := by
    obtain rfl := tag_injective hk
    obtain rfl := Option.some.inj (hv.symm.trans hi)
    exact isInteger_value k i
  nearest _ hk _ := absurd hk (tag_ne_double k)
  truncated _ _ _ hd := by
    rw [hd] at hv
    cases hv
  same _ hk _ := absurd hk (tag_ne_double k)

/-- An integer converted into a double. -/
theorem converts_nearest (hv : v.integer? = some i) (hlt : i.natAbs < UInt64.size) :
    v.Converts Tag.double (.double (Double.ofInt i)) ((Double.ofInt i).truncate != i) where
  tag_eq := rfl
  lossless_iff := by
    have hnearest := Double.ofInt_isNearest hlt
    obtain ⟨k, hk⟩ := Double.exists_intCast_ofInt hlt
    rw [keeps_integer_double hv hnearest.finite, or_iff_left (not_overshoots_of_integer? hv),
      bne_eq_false_iff_eq, Double.truncate_eq, hk, Double.roundTowardZero_intCast, Int.cast_inj]
  wrapped k _ hk _ := absurd hk.symm (tag_ne_double k)
  nearest i' _ hi := by
    obtain rfl := Option.some.inj (hv.symm.trans hi)
    exact ⟨Double.ofInt i, rfl, Double.ofInt_isNearest hlt⟩
  truncated k _ hk _ := absurd hk.symm (tag_ne_double k)
  same _ _ hd := by
    rw [hd] at hv
    cases hv

/-- A double converted into an integer kind. -/
theorem converts_truncated (d : Double) (k : IntegerKind) :
    (Value.double d).Converts k.tag (k.value (k.truncated d))
      (!(Double.ofInt (k.truncated d)).sameNumber d) := by
  obtain ⟨hlow, hhigh⟩ := k.truncated_mem d
  have hresult := isInteger_value_of_mem hlow hhigh
  have hsame := Double.sameNumber_saturate k.least k.greatest
    (by cases k <;> decide) (by cases k <;> decide) (by cases k <;> decide)
    (by cases k <;> decide) (value_ofInt_least k) d
  rw [saturate_eq_truncated] at hsame
  exact
    { tag_eq := tag_of_isInteger hresult
      lossless_iff := by
        rw [Bool.not_eq_false', hsame, keeps_double_integer hresult, overshoots_iff, ← and_or_left]
      wrapped := fun _ _ _ hi => nomatch hi
      nearest := fun _ hk _ => absurd hk (tag_ne_double k)
      truncated := fun k' d' hk hd => by
        obtain rfl := tag_injective hk
        obtain rfl := Value.double.inj hd
        exact hresult
      same := fun _ hk _ => absurd hk (tag_ne_double k) }

/-- A double converted into a double. -/
theorem converts_same (d : Double) :
    (Value.double d).Converts Tag.double (.double d) false where
  tag_eq := rfl
  lossless_iff := iff_of_true rfl (.inl (.inl rfl))
  wrapped _ _ _ hi := nomatch hi
  nearest _ _ hi := nomatch hi
  truncated k _ hk _ := absurd hk.symm (tag_ne_double k)
  same _ _ hd := hd.symm ▸ rfl

/-- Integers have at most 64 bits. -/
theorem natAbs_lt_of_integer? (hv : v.integer? = some i) : i.natAbs < UInt64.size := by
  have hbounds : -9223372036854775808 ≤ i ∧ i < 18446744073709551616 := by
    cases v <;> cases hv
    · exact bounds_of_isInteger (.byte _)
    · exact bounds_of_isInteger (.long _)
    · exact bounds_of_isInteger (.uint64 _)
  simp only [UInt64.size]
  omega

/-- A number is an integer or a double. -/
theorem integer_or_double (hv : v.isNumeric = true) :
    (∃ i, v.integer? = some i) ∨ ∃ d, v = .double d := by
  cases v with
  | byte n => exact .inl ⟨_, rfl⟩
  | long n => exact .inl ⟨_, rfl⟩
  | double d => exact .inr ⟨d, rfl⟩
  | uint64 n => exact .inl ⟨_, rfl⟩
  | _ => cases hv

/-- A numeric tag is that of an integer kind or of the doubles. -/
theorem kind_or_double {t : Tag} (ht : t.isNumeric = true) :
    (∃ k : IntegerKind, t = k.tag) ∨ t = Tag.double := by
  simp only [Tag.isNumeric, Bool.or_eq_true, beq_iff_eq] at ht
  rcases ht with ((rfl | rfl) | rfl) | rfl
  · exact .inl ⟨.byte, rfl⟩
  · exact .inl ⟨.long, rfl⟩
  · exact .inr rfl
  · exact .inl ⟨.uint64, rfl⟩

/-- An integer is the value of its kind. -/
theorem value_of_isInteger (h : v.IsInteger k i) : k.value i = v := by
  cases h with
  | byte n => exact congrArg Value.byte (Int8.ofInt_toInt n)
  | long n => exact congrArg Value.long (Int64.ofInt_toInt n)
  | uint64 n =>
    have hword : ((UInt64.ofInt n.toNat).toNat : Int) = n.toNat := by
      rw [toNat_ofInt, reduce_toNat]
    exact congrArg Value.uint64 (UInt64.toNat_inj.1 (by exact_mod_cast hword))

/-- An integer is converted into its own kind without a change. -/
theorem convert_own_integer (h : v.IsInteger k i) : v.convert? v.tag = some (v, false) := by
  have hwrap : k.wrap i = i := by
    have hvalue := isInteger_value k i
    rw [value_of_isInteger h] at hvalue
    exact (isInteger_unique hvalue h).2
  rw [tag_of_isInteger h, convert_integer (integer?_of_isInteger h), value_of_isInteger h, hwrap,
    bne_self_eq_false]

/-- So is every number. -/
theorem convert_own (hv : v.isNumeric = true) : v.convert? v.tag = some (v, false) := by
  cases v with
  | byte n => exact convert_own_integer (.byte n)
  | long n => exact convert_own_integer (.long n)
  | double d => rfl
  | uint64 n => exact convert_own_integer (.uint64 n)
  | _ => cases hv

/-- Every number is converted into every kind as it should be. -/
theorem exists_convert {t : Tag} (hv : v.isNumeric = true) (ht : t.isNumeric = true) :
    ∃ w lossy, v.convert? t = some (w, lossy) ∧ v.Converts t w lossy := by
  rcases integer_or_double hv with ⟨i, hi⟩ | ⟨d, rfl⟩
  · rcases kind_or_double ht with ⟨k, rfl⟩ | rfl
    · exact ⟨_, _, convert_integer hi k, converts_integer hi k⟩
    · exact ⟨_, _, convert_nearest hi, converts_nearest hi (natAbs_lt_of_integer? hi)⟩
  · rcases kind_or_double ht with ⟨k, rfl⟩ | rfl
    · exact ⟨_, _, convert_double d k, converts_truncated d k⟩
    · exact ⟨_, _, rfl, converts_same d⟩

end Value

namespace Store

variable {s : Store} {v w : Value} {kind : Tag} {lossy : Bool}

/-- What a conversion leaves in a store: a warning if the number has changed, unless it went
unnoticed. -/
inductive Noted (s : Store) (v w : Value) (kind : Tag) : Store → Prop
  /-- No loss is noticed. -/
  | silent : v.Keeps w ∨ v.Overshoots kind → Noted s v w kind s
  /-- The loss is noticed. -/
  | warned : ¬(v.Keeps w ∨ v.Overshoots kind) →
      Noted s v w kind (s.warn (.lossyConversion v.tag kind))

/-- Either way the cells stay as they are. -/
theorem Noted.cell_eq {s₁ : Store} (h : s.Noted v w kind s₁) (slot : Slot) :
    s₁.cell slot = s.cell slot := by
  cases h <;> rfl

end Store

namespace StoreM

open Store

variable {s : Store} {slot target : Slot} {v w : Value} {kind : Tag} {lossy : Bool} {c : Cell}

/-- Warning about a conversion leaves what it should. -/
theorem noted_warnIfLossy (h : v.Converts kind w lossy) (s : Store) :
    ∃ s₁, warnIfLossy lossy v.tag kind s = .ok () s₁ ∧ s.Noted v w kind s₁ := by
  cases lossy with
  | false => exact ⟨s, rfl, .silent (h.lossless_iff.1 rfl)⟩
  | true => exact ⟨_, rfl, .warned fun hkept => Bool.noConfusion (h.lossless_iff.2 hkept)⟩

/-- A number written into a declared cell of a numeric kind is converted. -/
theorem write_converts (hv : v.isNumeric = true) (hconvert : v.convert? kind = some (w, lossy))
    (hc : v.Converts kind w lossy) (hlanding : s.writable slot = .ok target)
    (hcell : s.cell target = .ok c) (hfixed : c.fixed = true) (htag : c.tag = kind)
    (hkind : kind.isNumeric = true) :
    ∃ s₁, s.Noted v w kind s₁ ∧
      write slot v s = .ok () (s₁.setCell target { c with value := w }) := by
  have hnoRef : ∀ target, v ≠ .ref target := by
    rintro target rfl
    cases hv
  rw [write_eq_writeValue hnoRef, writeValue, ask_bind_of_ok hlanding, ask_bind_of_ok hcell,
    if_neg (by simp [hfixed])]
  obtain ⟨s₁, hwarn, hnoted⟩ := noted_warnIfLossy hc s
  refine ⟨s₁, hnoted, ?_⟩
  by_cases hown : c.tag = v.tag
  · -- The cell takes the number as it is, which is what the conversion gives.
    have hsame := Value.convert_own hv
    rw [← hown, htag, hconvert, Option.some.injEq, Prod.mk.injEq] at hsame
    obtain ⟨rfl, rfl⟩ := hsame
    cases hwarn
    rw [if_pos hown, replace_of_cell hcell]
  · rw [if_neg hown, htag, if_pos hkind, hconvert]
    dsimp only
    rw [Action.bind_of_ok hwarn, replace_of_cell ((hnoted.cell_eq target).trans hcell)]

/-- A number read as a numeric kind is converted. -/
theorem readNumber_converts (hconvert : v.convert? kind = some (w, lossy))
    (hc : v.Converts kind w lossy) (hvalue : s.value slot = .ok v) :
    ∃ s₁, s.Noted v w kind s₁ ∧ ∀ operation, readNumber slot kind operation s = .ok w s₁ := by
  obtain ⟨s₁, hwarn, hnoted⟩ := noted_warnIfLossy hc s
  refine ⟨s₁, hnoted, fun operation => ?_⟩
  rw [readNumber, ask_bind_of_ok hvalue, hconvert]
  dsimp only
  rw [Action.bind_of_ok hwarn]
  rfl

/-- A typed read takes the number apart by its kind. -/
theorem typed_reads {s₁ : Store} (htag : w.tag = kind)
    (hread : ∀ operation, readNumber slot kind operation s = .ok w s₁) :
    (kind = Tag.byte → ∃ n, w = .byte n ∧ readByte slot s = .ok n s₁) ∧
    (kind = Tag.long → ∃ n, w = .long n ∧ readLong slot s = .ok n s₁) ∧
    (kind = Tag.double → ∃ d, w = .double d ∧ readDouble slot s = .ok d s₁) ∧
    (kind = Tag.uint64 → ∃ n, w = .uint64 n ∧ readUInt64 slot s = .ok n s₁) := by
  subst htag
  refine ⟨fun hkind => ?_, fun hkind => ?_, fun hkind => ?_, fun hkind => ?_⟩
  · cases w with
    | byte n => exact ⟨n, rfl, (Action.bind_of_ok (hread _)).trans rfl⟩
    | _ => exact absurd hkind (by simp only [Value.tag]; decide)
  · cases w with
    | long n => exact ⟨n, rfl, (Action.bind_of_ok (hread _)).trans rfl⟩
    | _ => exact absurd hkind (by simp only [Value.tag]; decide)
  · cases w with
    | double n => exact ⟨n, rfl, (Action.bind_of_ok (hread _)).trans rfl⟩
    | _ => exact absurd hkind (by simp only [Value.tag]; decide)
  · cases w with
    | uint64 n => exact ⟨n, rfl, (Action.bind_of_ok (hread _)).trans rfl⟩
    | _ => exact absurd hkind (by simp only [Value.tag]; decide)

end StoreM

open StoreM in
/-- Every number is converted into every numeric kind as it should be, and a loss is reported
exactly if the number has changed and is no double that overshoots the kind. A write into a cell
declared with the kind and a read as the kind convert the number in this way, and warn exactly if a
loss is reported. -/
theorem Value.conversion_law {v : Value} {kind : Tag} (hv : v.isNumeric = true)
    (hkind : kind.isNumeric = true) :
    ∃ w lossy, v.convert? kind = some (w, lossy) ∧ v.Converts kind w lossy ∧
      (∀ s slot target c, Store.writable s slot = .ok target → s.cell target = .ok c →
        c.fixed = true → c.tag = kind → ∃ s₁, s.Noted v w kind s₁ ∧
          write slot v s = .ok () (s₁.setCell target { c with value := w })) ∧
      ∀ s slot, Store.value s slot = .ok v → ∃ s₁, s.Noted v w kind s₁ ∧
        (∀ operation, readNumber slot kind operation s = .ok w s₁) ∧
        (kind = Tag.byte → ∃ n, w = .byte n ∧ readByte slot s = .ok n s₁) ∧
        (kind = Tag.long → ∃ n, w = .long n ∧ readLong slot s = .ok n s₁) ∧
        (kind = Tag.double → ∃ d, w = .double d ∧ readDouble slot s = .ok d s₁) ∧
        (kind = Tag.uint64 → ∃ n, w = .uint64 n ∧ readUInt64 slot s = .ok n s₁) := by
  obtain ⟨w, lossy, hconvert, hconverts⟩ := exists_convert hv hkind
  refine ⟨w, lossy, hconvert, hconverts, ?_, ?_⟩
  · intro s slot target c hlanding hcell hfixed htag
    exact write_converts hv hconvert hconverts hlanding hcell hfixed htag hkind
  · intro s slot hvalue
    obtain ⟨s₁, hnoted, hread⟩ := readNumber_converts hconvert hconverts hvalue
    exact ⟨s₁, hnoted, hread, typed_reads hconverts.tag_eq hread⟩

/-- One cell that is declared as a double. -/
def Store.oneDouble : Store :=
  ⟨#[⟨.module, #[⟨[Tag.double], true, .double Double.zero⟩]⟩], #[], 16⟩

/-- The first integer that is no double, written where doubles are declared, becomes the even one of
the two doubles next to it. That is noticed. -/
theorem Value.firstOdd_rounded : (Value.long 9007199254740993).isNumeric = true ∧
    Tag.double.isNumeric = true ∧
    ∃ s', StoreM.write ⟨0, 0⟩ (.long 9007199254740993) Store.oneDouble = .ok () s' ∧
      s'.cell ⟨0, 0⟩ = .ok ⟨[Tag.double], true, .double ⟨0x4340000000000000⟩⟩ ∧
      s'.warnings = #[.lossyConversion Tag.long Tag.double] := by
  obtain ⟨w, lossy, hconvert, hconverts, hwrite, -⟩ :=
    @Value.conversion_law (.long 9007199254740993) Tag.double rfl rfl
  have hresult : (Value.long 9007199254740993).convert? Tag.double =
      some (.double ⟨0x4340000000000000⟩, true) := by decide +kernel
  obtain ⟨rfl, rfl⟩ := Prod.mk.inj (Option.some.inj (hconvert.symm.trans hresult))
  obtain ⟨s₁, hnoted, hwritten⟩ := hwrite Store.oneDouble ⟨0, 0⟩ ⟨0, 0⟩ _ rfl rfl rfl rfl
  refine ⟨rfl, rfl, _, hwritten, ?_⟩
  cases hnoted with
  | silent hkept => cases hconverts.lossless_iff.2 hkept
  | warned _ => exact ⟨rfl, rfl⟩

/-- The double just beyond the signed integers becomes the greatest of them, which is another
number, and no loss is reported. The double just beyond the unsigned ones is treated alike. -/
theorem Value.edge_of_range_unnoticed :
    (∃ w, (Value.double ⟨0x43e0000000000000⟩).convert? Tag.long = some (w, false) ∧
      ¬(Value.double ⟨0x43e0000000000000⟩).Keeps w) ∧
    ∃ w, (Value.double ⟨0x43f0000000000000⟩).convert? Tag.uint64 = some (w, false) ∧
      ¬(Value.double ⟨0x43f0000000000000⟩).Keeps w := by
  have hlong : Double.ofInt 9223372036854775807 = ⟨0x43e0000000000000⟩ := by decide +kernel
  have huint64 : Double.ofInt 18446744073709551615 = ⟨0x43f0000000000000⟩ := by decide +kernel
  refine ⟨⟨.long 9223372036854775807, by decide +kernel, ?_⟩,
    ⟨.uint64 18446744073709551615, by decide +kernel, ?_⟩⟩
  · rw [keeps_double_integer (.long 9223372036854775807), ← hlong, Double.value_ofInt_long.2,
      Int.cast_inj]
    exact fun h => absurd h.2 (by decide)
  · rw [keeps_double_integer (.uint64 18446744073709551615), ← huint64, Double.value_ofInt_uint64,
      Int.cast_inj]
    exact fun h => absurd h.2 (by decide)

end SlotMachine
