import SlotMachine.Proofs.Conversion
import Mathlib.Data.List.TakeWhile

/-!
# Numerals

A text is read as an integer of a kind if it consists of digits after an optional sign, perhaps with
white space around them, and the integer they make lies in the range of the kind. There may be any
number of digits: reading counts no further than a limit beyond all ranges. What is displayed of an
integer is read as that integer.
-/

namespace SlotMachine

namespace Text

variable {c : Char} {cs core before after digits : List Char} {sign : Int} {limit n : Nat}

/-- ASCII digits, and at least one. -/
def IsNumeral (digits : List Char) : Prop :=
  digits ≠ [] ∧ ∀ c ∈ digits, isDigit c = true

/-- Digits after an optional sign, with the factor that the sign stands for. -/
inductive Signed : List Char → Int → List Char → Prop where
  /-- No sign. -/
  | plain {digits : List Char} : IsNumeral digits → Signed digits 1 digits
  /-- A plus. -/
  | plus {digits : List Char} : IsNumeral digits → Signed ('+' :: digits) 1 digits
  /-- A minus. -/
  | minus {digits : List Char} : IsNumeral digits → Signed ('-' :: digits) (-1) digits

end Text

namespace IntegerKind

/-- The characters are a numeral of this integer, with a sign that the kind has. -/
def Spells (kind : IntegerKind) (cs : List Char) (i : Int) : Prop :=
  ∃ sign digits, Text.Signed cs sign digits ∧ (kind = uint64 → sign = 1) ∧
    i = sign * (Nat.ofDigitChars 10 digits 0 : Nat)

/-- The text is a numeral of an integer of the kind, with nothing but white space around it. -/
structure Reads (kind : IntegerKind) (text : String) (i : Int) : Prop where
  /-- There is a numeral of the integer, and white space around it. -/
  spelled : ∃ before numeral after, text.toList = before ++ numeral ++ after ∧
    (∀ c ∈ before, Text.isBlank c = true) ∧ (∀ c ∈ after, Text.isBlank c = true) ∧
    kind.Spells numeral i
  /-- The integer is not below the range. -/
  least_le : kind.least ≤ i
  /-- The integer is not above the range. -/
  le_greatest : i ≤ kind.greatest

end IntegerKind

namespace Text

variable {c : Char} {cs core before after digits : List Char} {sign : Int} {limit n : Nat}

/-! ### White space -/

/-- A digit has one of ten codes. -/
theorem isDigit_iff : isDigit c = true ↔ 48 ≤ c.toNat ∧ c.toNat ≤ 57 := by
  simp only [isDigit, Bool.and_eq_true, decide_eq_true_eq, Char.le_def, UInt32.le_iff_toNat_le]
  rfl

/-- A digit is no white space. -/
theorem isBlank_of_isDigit (h : isDigit c = true) : isBlank c = false := by
  rw [isDigit_iff] at h
  simp only [isBlank, Bool.or_eq_false_iff, Bool.and_eq_false_iff, decide_eq_false_iff_not,
    beq_eq_false_iff_ne]
  omega

/-- A signed numeral has no white space in it. -/
theorem Signed.isBlank_eq (h : Signed cs sign digits) : ∀ c ∈ cs, isBlank c = false := by
  cases h with
  | plain hdigits => exact fun c hc => isBlank_of_isDigit (hdigits.2 c hc)
  | plus hdigits =>
    exact List.forall_mem_cons.mpr ⟨by decide, fun c hc => isBlank_of_isDigit (hdigits.2 c hc)⟩
  | minus hdigits =>
    exact List.forall_mem_cons.mpr ⟨by decide, fun c hc => isBlank_of_isDigit (hdigits.2 c hc)⟩

/-- A signed numeral has a first character. -/
theorem Signed.ne_nil (h : Signed cs sign digits) : cs ≠ [] := by
  cases h with
  | plain hdigits => exact hdigits.1
  | plus _ => exact List.cons_ne_nil _ _
  | minus _ => exact List.cons_ne_nil _ _

/-- Dropping white space stops at the first other character. -/
theorem dropWhile_isBlank (hbefore : ∀ c ∈ before, isBlank c = true)
    (hhead : ∀ c ∈ cs.head?, isBlank c = false) : (before ++ cs).dropWhile isBlank = cs := by
  rw [List.dropWhile_append_of_pos hbefore]
  cases cs with
  | nil => rfl
  | cons c rest => rw [List.dropWhile_cons_of_neg (by simp [hhead c rfl])]

/-- Trimming finds what has white space around it and none in it. -/
theorem trim_eq (hne : core ≠ []) (hcore : ∀ c ∈ core, isBlank c = false)
    (hbefore : ∀ c ∈ before, isBlank c = true) (hafter : ∀ c ∈ after, isBlank c = true) :
    trim (before ++ core ++ after) = core := by
  have hleft : (before ++ (core ++ after)).dropWhile isBlank = core ++ after := by
    refine dropWhile_isBlank hbefore fun c hc => hcore c ?_
    rw [List.head?_append_of_ne_nil core hne] at hc
    exact List.mem_of_mem_head? hc
  have hright : (after.reverse ++ core.reverse).dropWhile isBlank = core.reverse := by
    refine dropWhile_isBlank (fun c hc => hafter c (List.mem_reverse.mp hc)) fun c hc => hcore c ?_
    exact List.mem_reverse.mp (List.mem_of_mem_head? hc)
  rw [trim, trimRight, List.append_assoc, hleft, List.reverse_append, hright, List.reverse_reverse]

/-- What trimming takes away is white space. -/
theorem exists_trim (cs : List Char) : ∃ before after, cs = before ++ trim cs ++ after ∧
    (∀ c ∈ before, isBlank c = true) ∧ (∀ c ∈ after, isBlank c = true) := by
  refine ⟨cs.takeWhile isBlank, ((cs.dropWhile isBlank).reverse.takeWhile isBlank).reverse, ?_,
    fun c hc => List.mem_takeWhile_imp hc,
    fun c hc => List.mem_takeWhile_imp (List.mem_reverse.mp hc)⟩
  have hright : trimRight (cs.dropWhile isBlank) ++
      ((cs.dropWhile isBlank).reverse.takeWhile isBlank).reverse = cs.dropWhile isBlank := by
    rw [trimRight, ← List.reverse_append, List.takeWhile_append_dropWhile, List.reverse_reverse]
  rw [trim, List.append_assoc, hright, List.takeWhile_append_dropWhile]

/-! ### Digits -/

/-- Further digits never make a number smaller. -/
theorem le_foldl_digits (n : Nat) (digits : List Char) :
    n ≤ digits.foldl (fun n c => 10 * n + digitValue c) n := by
  induction digits generalizing n with
  | nil => exact Nat.le_refl n
  | cons c rest ih => exact Nat.le_trans (by omega) (ih (10 * n + digitValue c))

/-- Up to the limit it makes no difference if one stops counting there. -/
theorem min_foldl_digits (limit n : Nat) (digits : List Char) :
    min limit (digits.foldl (fun n c => if n < limit then 10 * n + digitValue c else n) n) =
      min limit (digits.foldl (fun n c => 10 * n + digitValue c) n) := by
  induction digits generalizing n with
  | nil => rfl
  | cons c rest ih =>
    rw [List.foldl_cons, List.foldl_cons, ih]
    by_cases hn : n < limit
    · rw [if_pos hn]
    · rw [if_neg hn]
      have hstopped := le_foldl_digits n rest
      have hcounted := le_foldl_digits (10 * n + digitValue c) rest
      omega

/-- A numeral is counted exactly as far as the limit. -/
theorem min_numeralUpTo (limit : Nat) (digits : List Char) :
    min limit (numeralUpTo limit digits) = min limit (Nat.ofDigitChars 10 digits 0) :=
  min_foldl_digits limit 0 digits

/-- Without a sign, an integer is read from digits, and from nothing else. -/
theorem unsigned_eq_some_iff {i : Int} :
    ((if digits ≠ [] ∧ digits.all isDigit then some (numeralUpTo limit digits) else none) >>=
        fun n => pure (n : Int)) = some i ↔
      IsNumeral digits ∧ i = (numeralUpTo limit digits : Nat) := by
  rw [IsNumeral, ← List.all_eq_true]
  by_cases hdigits : digits ≠ [] ∧ digits.all isDigit = true
  · rw [if_pos hdigits, and_iff_right hdigits, eq_comm (a := i)]
    exact Option.some_inj
  · rw [if_neg hdigits]
    exact ⟨nofun, fun h => absurd h.1 hdigits⟩

/-- An integer is read from a signed numeral, and from nothing else. -/
theorem readInteger_eq_some_iff {i : Int} : readInteger limit cs = some i ↔
    ∃ sign digits, Signed cs sign digits ∧ i = sign * (numeralUpTo limit digits : Nat) := by
  unfold readInteger
  dsimp only
  split
  all_goals simp only [Option.map_eq_some_iff, unsigned_eq_some_iff]
  -- A sign is no digit, so that each way to begin belongs to one constructor only.
  case h_1 rest =>
    constructor
    · rintro ⟨-, ⟨hdigits, rfl⟩, rfl⟩
      exact ⟨-1, rest, .minus hdigits, by omega⟩
    · rintro ⟨sign, digits, hsigned, rfl⟩
      cases hsigned with
      | plain hdigits => exact absurd (hdigits.2 '-' (by simp)) (by decide)
      | minus hdigits => exact ⟨_, ⟨hdigits, rfl⟩, by omega⟩
  case h_2 rest =>
    constructor
    · rintro ⟨-, ⟨hdigits, rfl⟩, rfl⟩
      exact ⟨1, rest, .plus hdigits, by omega⟩
    · rintro ⟨sign, digits, hsigned, rfl⟩
      cases hsigned with
      | plain hdigits => exact absurd (hdigits.2 '+' (by simp)) (by decide)
      | plus hdigits => exact ⟨_, ⟨hdigits, rfl⟩, by omega⟩
  case h_3 hminus hplus =>
    constructor
    · rintro ⟨-, ⟨hdigits, rfl⟩, rfl⟩
      exact ⟨1, cs, .plain hdigits, by omega⟩
    · rintro ⟨sign, digits, hsigned, rfl⟩
      cases hsigned with
      | plain hdigits => exact ⟨_, ⟨hdigits, rfl⟩, by omega⟩
      | plus _ => exact absurd rfl (hplus _)
      | minus _ => exact absurd rfl (hminus _)

/-- Only a minus stands for a factor other than one. -/
theorem Signed.sign_eq_one_iff (h : Signed cs sign digits) : sign = 1 ↔ cs.head? ≠ some '-' := by
  cases h with
  | plain hdigits =>
    refine iff_of_true rfl fun hminus => ?_
    exact absurd (hdigits.2 '-' (List.mem_of_mem_head? hminus)) (by decide)
  | plus _ => exact iff_of_true rfl (by simp)
  | minus _ => exact iff_of_false (by decide) (by simp)

/-- An integer within the limit on either side is read exactly. -/
theorem Signed.counted {i low high : Int} (h : Signed cs sign digits) (hlow : -(limit : Int) < low)
    (hhigh : high < limit) :
    (i = sign * (numeralUpTo limit digits : Nat) ∧ low ≤ i ∧ i ≤ high) ↔
      (i = sign * (Nat.ofDigitChars 10 digits 0 : Nat) ∧ low ≤ i ∧ i ≤ high) := by
  have hcounted := min_numeralUpTo limit digits
  cases h <;> omega

/-- Decimal digits are a numeral. -/
theorem isNumeral_toDigits (n : Nat) : IsNumeral (Nat.toDigits 10 n) :=
  ⟨Nat.toDigits_ne_nil, fun _ hc => Nat.isDigit_of_mem_toDigits (by decide) (by decide) hc⟩

/-- Every integer is written with the digits of its absolute value, and with a minus if it is
negative. -/
theorem signed_toString (i : Int) : ∃ sign : Int,
    Signed (toString i).toList sign (Nat.toDigits 10 i.natAbs) ∧ i = sign * i.natAbs ∧
      (0 ≤ i → sign = 1) := by
  cases i with
  | ofNat n =>
    have hdigits : (toString (Int.ofNat n)).toList = Nat.toDigits 10 n := Nat.toList_repr
    rw [hdigits]
    exact ⟨1, .plain (isNumeral_toDigits n), by simp, fun _ => rfl⟩
  | negSucc n =>
    have hdigits : (toString (Int.negSucc n)).toList = '-' :: Nat.toDigits 10 (n + 1) := by
      change ("-" ++ (n + 1).repr).toList = _
      rw [String.toList_append, Nat.toList_repr]
      rfl
    rw [hdigits]
    exact ⟨-1, .minus (isNumeral_toDigits (n + 1)), by omega, by omega⟩

end Text

namespace Value

open IntegerKind

variable {cs : List Char} {kind : IntegerKind} {v : Value} {i : Int} {text : String}

/-- Reading a value of an integer kind is reading an integer and looking at its sign and range. -/
theorem read?_eq_some_iff_readInteger : Value.read? cs kind.tag = some v ↔
    ∃ i, Text.readInteger UInt64.size cs = some i ∧ (kind = .uint64 → cs.head? ≠ some '-') ∧
      kind.least ≤ i ∧ i ≤ kind.greatest ∧ kind.value i = v := by
  cases kind with
  | byte =>
    change (Text.readInteger UInt64.size cs).bind (fun i =>
      if (-128 : Int) ≤ i ∧ i ≤ 127 then some (Value.byte (Int8.ofInt i)) else none) = some v ↔ _
    simp [Option.bind_eq_some_iff, least, greatest, IntegerKind.value, and_assoc]
  | long =>
    change (Text.readInteger UInt64.size cs).bind (fun i =>
      if (-9223372036854775808 : Int) ≤ i ∧ i ≤ 9223372036854775807 then
        some (Value.long (Int64.ofInt i)) else none) = some v ↔ _
    simp [Option.bind_eq_some_iff, least, greatest, IntegerKind.value, and_assoc]
  | uint64 =>
    change (if cs.head? = some '-' then none else (Text.readInteger UInt64.size cs).bind fun i =>
      if i < (18446744073709551616 : Int) then some (Value.uint64 (UInt64.ofInt i)) else none) =
        some v ↔ _
    rw [Option.ite_none_left_eq_some, Option.bind_eq_some_iff]
    constructor
    · rintro ⟨hplus, i, hread, hvalue⟩
      obtain ⟨hlt, hvalue⟩ := Option.ite_none_right_eq_some.mp hvalue
      obtain ⟨sign, digits, hsigned, hi⟩ := Text.readInteger_eq_some_iff.mp hread
      rw [hsigned.sign_eq_one_iff.mpr hplus] at hi
      refine ⟨i, hread, fun _ => hplus, ?_, ?_, Option.some.inj hvalue⟩
      · simp only [least]
        omega
      · simp only [greatest]
        omega
    · rintro ⟨i, hread, hplus, -, hhigh, rfl⟩
      refine ⟨hplus rfl, i, hread, if_pos ?_⟩
      simp only [greatest] at hhigh
      omega

/-- A value of an integer kind is read from the numerals of the integers in its range. -/
theorem read?_eq_some_iff : Value.read? cs kind.tag = some v ↔
    ∃ i, kind.Spells cs i ∧ kind.least ≤ i ∧ i ≤ kind.greatest ∧ v.IsInteger kind i := by
  have hlow : -(UInt64.size : Int) < kind.least := by cases kind <;> decide
  have hhigh : kind.greatest < (UInt64.size : Int) := by cases kind <;> decide
  rw [read?_eq_some_iff_readInteger]
  constructor
  · rintro ⟨i, hread, hsign, hleast, hgreatest, rfl⟩
    obtain ⟨sign, digits, hsigned, hi⟩ := Text.readInteger_eq_some_iff.mp hread
    obtain ⟨hi, -⟩ := (hsigned.counted hlow hhigh).mp ⟨hi, hleast, hgreatest⟩
    exact ⟨i, ⟨sign, digits, hsigned, fun hkind => hsigned.sign_eq_one_iff.mpr (hsign hkind), hi⟩,
      hleast, hgreatest, isInteger_value_of_mem hleast hgreatest⟩
  · rintro ⟨i, ⟨sign, digits, hsigned, hsign, hi⟩, hleast, hgreatest, hv⟩
    obtain ⟨hi, -⟩ := (hsigned.counted hlow hhigh).mpr ⟨hi, hleast, hgreatest⟩
    exact ⟨i, Text.readInteger_eq_some_iff.mpr ⟨sign, digits, hsigned, hi⟩,
      fun hkind => hsigned.sign_eq_one_iff.mp (hsign hkind), hleast, hgreatest,
      value_of_isInteger hv⟩

/-- From a trimmed text is read the value of which the text is a numeral. -/
theorem read?_trim_eq_some_iff : Value.read? (Text.trim text.toList) kind.tag = some v ↔
    ∃ i, kind.Reads text i ∧ v.IsInteger kind i := by
  rw [read?_eq_some_iff]
  constructor
  · rintro ⟨i, hspells, hleast, hgreatest, hv⟩
    obtain ⟨before, after, htext, hbefore, hafter⟩ := Text.exists_trim text.toList
    exact ⟨i, ⟨⟨before, _, after, htext, hbefore, hafter, hspells⟩, hleast, hgreatest⟩, hv⟩
  · rintro ⟨i, ⟨⟨before, numeral, after, htext, hbefore, hafter, hspells⟩, hleast, hgreatest⟩, hv⟩
    obtain ⟨sign, digits, hsigned, hinteger⟩ := hspells
    rw [htext, Text.trim_eq hsigned.ne_nil hsigned.isBlank_eq hbefore hafter]
    exact ⟨i, ⟨sign, digits, hsigned, hinteger⟩, hleast, hgreatest, hv⟩

/-- No value is read from any other text. -/
theorem read?_trim_eq_none_iff :
    Value.read? (Text.trim text.toList) kind.tag = none ↔ ∀ i, ¬ kind.Reads text i := by
  rw [Option.eq_none_iff_forall_ne_some]
  constructor
  · intro hnone i h
    have hv := isInteger_value_of_mem h.least_le h.le_greatest
    exact hnone _ (read?_trim_eq_some_iff.mpr ⟨i, h, hv⟩)
  · intro hnone v hv
    obtain ⟨i, h, -⟩ := read?_trim_eq_some_iff.mp hv
    exact hnone i h

/-! ### What is displayed -/

/-- An integer of any kind is displayed in decimal. -/
theorem display_of_isInteger (h : v.IsInteger kind i) : v.display = toString i := by
  cases h <;> rfl

/-- What is displayed of an integer is read as that integer. -/
theorem reads_display (h : v.IsInteger kind i) : kind.Reads v.display i := by
  obtain ⟨hleast, hgreatest⟩ := mem_of_isInteger h
  obtain ⟨sign, hsigned, hi, hsign⟩ := Text.signed_toString i
  refine ⟨⟨[], (toString i).toList, [], ?_, by simp, by simp, sign, _, hsigned, ?_, ?_⟩, hleast,
    hgreatest⟩
  · rw [display_of_isInteger h, List.nil_append, List.append_nil]
  · rintro rfl
    exact hsign hleast
  · rw [Nat.ofDigitChars_toDigits (by decide) (by decide)]
    exact hi

end Value

end SlotMachine
