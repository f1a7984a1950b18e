import SlotMachine.Proofs.Conversion
import Mathlib.Tactic.Common

/-!
# Comparing values

Integers are compared as the integers that they are, whatever their kinds, and texts by their bytes.
So the comparisons of integers of all kinds belong to one total order, and so do those of texts.
Arrays can only be told apart, and nothing else but numbers is compared. The sign of a difference is
no substitute, since differences are reduced to the width of their kind.
-/

namespace SlotMachine

/-- The relation that a comparison stands for. -/
def Comparison.Relates {α : Type} [LT α] [LE α] : Comparison → α → α → Prop
  | eq, x, y => x = y
  | ne, x, y => x ≠ y
  | gt, x, y => y < x
  | ge, x, y => y ≤ x
  | lt, x, y => x < y
  | le, x, y => x ≤ y

/-- The answer tells whether a statement is true. -/
def Tells (answer : Except Fault Bool) (p : Prop) : Prop :=
  ∃ b, answer = .ok b ∧ (b = true ↔ p)

/-- There is an order between the two values, or at least equality. Doubles are left out. -/
inductive Value.Comparable : Value → Value → Prop
  /-- Integers of any kinds. -/
  | integers {l r : Value} {a b : IntegerKind} {i j : Int} :
      l.IsInteger a i → r.IsInteger b j → Comparable l r
  /-- Texts. -/
  | texts (s t : String) : Comparable (.text s) (.text t)
  /-- Array handles. -/
  | handles (a b : ArrayHandle) : Comparable (.array a) (.array b)

/-- What the comparison of two values that are no doubles has to answer. -/
structure Comparison.Decides (op : Comparison) (l r : Value) (answer : Except Fault Bool) :
    Prop where
  /-- Integers are compared as such. -/
  integers : ∀ a b i j, l.IsInteger a i → r.IsInteger b j → Tells answer (op.Relates i j)
  /-- Texts are compared by their bytes. -/
  texts : ∀ s t, l = .text s → r = .text t →
    Tells answer (op.Relates (Text.utf8 s) (Text.utf8 t))
  /-- Arrays are the same if storage and offset are. -/
  equalHandles : ∀ a b, l = .array a → r = .array b → op = .eq →
    Tells answer (a.storage = b.storage ∧ a.offset = b.offset)
  /-- They are different if one of the two is. -/
  unequalHandles : ∀ a b, l = .array a → r = .array b → op = .ne →
    Tells answer (¬(a.storage = b.storage ∧ a.offset = b.offset))
  /-- They have no order. -/
  orderedHandles : ∀ a b, l = .array a → r = .array b → op ≠ .eq → op ≠ .ne →
    answer = .error (.typeMismatch ("comparison " ++ op.symbol) "number or string" "array")
  /-- Nothing else is compared. -/
  others : ¬l.Comparable r →
    answer = .error (.typeMismatch ("comparison " ++ op.symbol) "matching operand types"
      (l.typeName ++ " " ++ op.symbol ++ " " ++ r.typeName))

/-- The comparisons are those of one total order on classes of equal things. -/
structure Comparison.Orders {α : Type} (holds : Comparison → α → α → Prop) : Prop where
  /-- Being equal is an equivalence. -/
  equivalence : Equivalence (holds .eq)
  /-- Nothing is less than itself. -/
  irrefl : ∀ x, ¬holds .lt x x
  /-- Being less is transitive. -/
  trans : ∀ x y z, holds .lt x y → holds .lt y z → holds .lt x z
  /-- Of two things one is less, or they are equal. -/
  total : ∀ x y, holds .lt x y ∨ holds .eq x y ∨ holds .lt y x
  /-- What is less is not equal. -/
  ne_of_lt : ∀ x y, holds .lt x y → ¬holds .eq x y
  /-- Equal things are less and greater than the same things. -/
  congr : ∀ x x' y y', holds .eq x x' → holds .eq y y' → (holds .lt x y ↔ holds .lt x' y')
  /-- Different is what is not equal. -/
  ne_iff : ∀ x y, holds .ne x y ↔ ¬holds .eq x y
  /-- Not less is greater or equal. -/
  ge_iff : ∀ x y, holds .ge x y ↔ ¬holds .lt x y
  /-- Greater is less the other way round. -/
  gt_iff : ∀ x y, holds .gt x y ↔ holds .lt y x
  /-- Not greater is less or equal. -/
  le_iff : ∀ x y, holds .le x y ↔ ¬holds .gt x y

namespace Comparison

section LinearOrder

variable {α : Type} [LT α] [LE α] [DecidableEq α] [DecidableLT α] [Std.IsLinearOrder α]
  [Std.LawfulOrderLT α]

/-- A comparison holds of the order of two things exactly if they are related by it. -/
theorem holds_iff_relates (op : Comparison) (x y : α) :
    op.holds (compareOfLessAndEq x y) = true ↔ op.Relates x y := by
  unfold compareOfLessAndEq
  by_cases hlt : x < y
  · have hle : x ≤ y := Std.le_of_lt hlt
    have hnot : ¬y < x := Std.not_lt.2 hle
    have hne : x ≠ y := Std.ne_of_lt hlt
    rw [if_pos hlt]
    cases op <;> simp [holds, Relates, hlt, hnot, hle, hne, Std.not_le]
  · rw [if_neg hlt]
    by_cases heq : x = y
    · subst heq
      rw [if_pos rfl]
      cases op <;> simp [holds, Relates, hlt, Std.le_refl]
    · have hle : y ≤ x := Std.not_lt.1 hlt
      have hgt : y < x := Std.lt_of_le_of_ne hle (Ne.symm heq)
      rw [if_neg heq]
      cases op <;> simp [holds, Relates, hlt, heq, hle, hgt, Std.not_le]

omit [DecidableEq α] [DecidableLT α] in
/-- Comparing things by what they stand for in a linear order. -/
theorem orders_of_relates {β : Type} {holds : Comparison → β → β → Prop} (f : β → α)
    (h : ∀ op x y, holds op x y ↔ op.Relates (f x) (f y)) : Orders holds where
  equivalence :=
    { refl := fun x => (h .eq x x).2 rfl
      symm := fun {x y} hxy => (h .eq y x).2 ((h .eq x y).1 hxy).symm
      trans := fun {x y z} hxy hyz =>
        (h .eq x z).2 (((h .eq x y).1 hxy).trans ((h .eq y z).1 hyz)) }
  irrefl x hx := Std.lt_irrefl ((h .lt x x).1 hx)
  trans x y z hxy hyz := (h .lt x z).2 (Std.lt_trans ((h .lt x y).1 hxy) ((h .lt y z).1 hyz))
  total x y := by
    rw [h, h, h]
    by_cases hlt : f x < f y
    · exact .inl hlt
    · by_cases heq : f x = f y
      · exact .inr (.inl heq)
      · exact .inr (.inr (Std.lt_of_le_of_ne (Std.not_lt.1 hlt) (Ne.symm heq)))
  ne_of_lt x y hlt heq := Std.ne_of_lt ((h .lt x y).1 hlt) ((h .eq x y).1 heq)
  congr x x' y y' hx hy := by
    have hx' : f x = f x' := (h .eq x x').1 hx
    have hy' : f y = f y' := (h .eq y y').1 hy
    rw [h, h, Relates, Relates, hx', hy']
  ne_iff x y := by rw [h, h, Relates, Relates]
  ge_iff x y := by rw [h, h, Relates, Relates, Std.not_lt]
  gt_iff x y := by rw [h, h, Relates, Relates]
  le_iff x y := by rw [h, h, Relates, Relates, Std.not_lt]

end LinearOrder

end Comparison

namespace IntegerKind

variable {v : Value} {i j : Int}

/-- A value with an integer is an integer of some kind. -/
theorem exists_isInteger (h : v.integer? = some i) : ∃ kind, v.IsInteger kind i := by
  cases v <;> cases h
  · exact ⟨.byte, .byte _⟩
  · exact ⟨.long, .long _⟩
  · exact ⟨.uint64, .uint64 _⟩

/-- Only the difference of two integers counts when it is reduced. -/
theorem reduce_sub (kind : IntegerKind) (i j : Int) :
    kind.reduce (kind.reduce i - kind.reduce j) = kind.reduce (i - j) := by
  cases kind with
  | byte => exact Int.bmod_sub_bmod.trans Int.sub_bmod_bmod
  | long => exact Int.bmod_sub_bmod.trans Int.sub_bmod_bmod
  | uint64 => exact (Int.sub_emod i j _).symm

end IntegerKind

namespace Operation

open IntegerKind

variable {op : Comparison} {l r : Value} {a b : IntegerKind} {i j : Int}

/-- Integers are compared as such. -/
theorem compare_integers (op : Comparison) (hl : l.IsInteger a i) (hr : r.IsInteger b j) :
    Tells (compare op l r) (op.Relates i j) := by
  refine ⟨op.holds (Ord.compare i j), ?_, op.holds_iff_relates i j⟩
  unfold compare
  rw [integer?_of_isInteger hl, integer?_of_isInteger hr]

/-- Texts are compared by their bytes. -/
theorem compare_texts (op : Comparison) (s t : String) :
    Tells (compare op (.text s) (.text t)) (op.Relates (Text.utf8 s) (Text.utf8 t)) :=
  ⟨op.holds (Text.compareBytes s t), rfl, op.holds_iff_relates _ _⟩

/-- Handles are equal if storage and offset are. -/
theorem handle_eq_iff (x y : ArrayHandle) :
    x = y ↔ x.storage = y.storage ∧ x.offset = y.offset := by
  cases x
  cases y
  exact ArrayHandle.mk.injEq _ _ _ _ ▸ Iff.rfl

/-- What has no order is refused. -/
theorem compare_others (op : Comparison) (hl : ∀ d, l ≠ .double d) (hr : ∀ d, r ≠ .double d)
    (h : ¬l.Comparable r) : compare op l r =
      .error (.typeMismatch ("comparison " ++ op.symbol) "matching operand types"
        (l.typeName ++ " " ++ op.symbol ++ " " ++ r.typeName)) := by
  have hintegers : ∀ i j, l.integer? = some i → r.integer? = some j → False := by
    intro i j hi hj
    obtain ⟨a, ha⟩ := exists_isInteger hi
    obtain ⟨b, hb⟩ := exists_isInteger hj
    exact h (.integers ha hb)
  unfold compare
  split
  · rename_i hi hj
    exact (hintegers _ _ hi hj).elim
  · rw [if_neg]
    · split
      · exact absurd (.texts _ _) h
      · exact absurd (.handles _ _) h
      · rfl
    · -- Two numbers would be integers.
      intro hnumeric
      obtain ⟨hleft, hright⟩ := Bool.and_eq_true_iff.1 hnumeric
      obtain ⟨i, hi⟩ := (Value.integer_or_double hleft).resolve_right fun ⟨d, hd⟩ => hl d hd
      obtain ⟨j, hj⟩ := (Value.integer_or_double hright).resolve_right fun ⟨d, hd⟩ => hr d hd
      exact hintegers i j hi hj

/-- Comparisons of values that are no doubles answer as they should. -/
theorem decides_compare (op : Comparison) (hl : ∀ d, l ≠ .double d) (hr : ∀ d, r ≠ .double d) :
    op.Decides l r (compare op l r) where
  integers _ _ _ _ hl hr := compare_integers op hl hr
  texts := by
    rintro s t rfl rfl
    exact compare_texts op s t
  equalHandles := by
    rintro x y rfl rfl rfl
    exact ⟨x == y, rfl, by rw [beq_iff_eq, handle_eq_iff]⟩
  unequalHandles := by
    rintro x y rfl rfl rfl
    exact ⟨x != y, rfl, by rw [bne_iff_ne, ne_eq, handle_eq_iff]⟩
  orderedHandles := by
    rintro x y rfl rfl heq hne
    cases op with
    | eq => exact absurd rfl heq
    | ne => exact absurd rfl hne
    | _ => rfl
  others := compare_others op hl hr

/-- The integers of all kinds among the values. -/
abbrev AnyInteger : Type := { v : Value // ∃ kind i, v.IsInteger kind i }

/-- The integer that such a value is. -/
def AnyInteger.integer (v : AnyInteger) : Int :=
  v.1.integer?.getD 0

/-- What is told is true if the answer is. -/
theorem eq_ok_true_iff {answer : Except Fault Bool} {p : Prop} (h : Tells answer p) :
    answer = .ok true ↔ p := by
  obtain ⟨b, rfl, hb⟩ := h
  rw [Except.ok.injEq, hb]

/-- Comparisons of integers of all kinds belong to one order. -/
theorem orders_integers :
    Comparison.Orders fun op (x y : AnyInteger) => compare op x.1 y.1 = .ok true := by
  refine Comparison.orders_of_relates AnyInteger.integer fun op x y => ?_
  obtain ⟨v, a, i, hv⟩ := x
  obtain ⟨w, b, j, hw⟩ := y
  have hi : AnyInteger.integer ⟨v, a, i, hv⟩ = i := by
    rw [AnyInteger.integer, integer?_of_isInteger hv]
    rfl
  have hj : AnyInteger.integer ⟨w, b, j, hw⟩ = j := by
    rw [AnyInteger.integer, integer?_of_isInteger hw]
    rfl
  rw [hi, hj]
  exact eq_ok_true_iff (compare_integers op hv hw)

/-- Comparisons of texts belong to one order. -/
theorem orders_texts :
    Comparison.Orders fun op (s t : String) => compare op (.text s) (.text t) = .ok true :=
  Comparison.orders_of_relates Text.utf8 fun op s t => eq_ok_true_iff (compare_texts op s t)

/-- Differences are reduced to the wider kind of the operands. -/
theorem sub_integers (hl : l.IsInteger a i) (hr : r.IsInteger b j) (maxLen : Nat) :
    ∃ w kind, binary .sub l r maxLen = .ok w ∧ w.IsInteger kind ((a.wider b).reduce (i - j)) := by
  have hcomputes := computes_numeric hl hr .sub
  obtain ⟨w, hw, hinteger⟩ := hcomputes.reduced nofun nofun
  rw [BinaryOp.exact, reduce_sub] at hinteger
  exact ⟨w, _, (binary_integers hl hr .sub maxLen).trans hw, hinteger⟩

/-- Values that are no doubles are compared as they should be: integers of any kinds as integers,
texts by their bytes, arrays for being the same, and nothing else. So comparisons of integers of all
kinds belong to one total order, and those of texts to another one. The difference of the same
integers is reduced to the wider of their kinds, so that its sign says nothing. -/
theorem comparison_decides_true_order :
    (∀ (op : Comparison) (l r : Value), (∀ d, l ≠ .double d) → (∀ d, r ≠ .double d) →
      op.Decides l r (compare op l r)) ∧
    (Comparison.Orders fun op (x y : AnyInteger) => compare op x.1 y.1 = .ok true) ∧
    (Comparison.Orders fun op (s t : String) => compare op (.text s) (.text t) = .ok true) ∧
    ∀ (l r : Value) (a b : IntegerKind) (i j : Int) (maxLen : Nat),
      l.IsInteger a i → r.IsInteger b j →
      ∃ w kind, binary .sub l r maxLen = .ok w ∧ w.IsInteger kind ((a.wider b).reduce (i - j)) :=
  ⟨fun op _ _ hl hr => decides_compare op hl hr, orders_integers, orders_texts,
    fun _ _ _ _ _ _ maxLen hl hr => sub_integers hl hr maxLen⟩

/-- Minus one is less than a long that is less than the greatest unsigned integer, so it is less
than this one, although their difference is zero. -/
theorem comparison_decides_minusOne :
    compare .lt (.byte (-1)) (.long 5) = .ok true ∧
    compare .lt (.long 5) (.uint64 18446744073709551615) = .ok true ∧
    compare .lt (.byte (-1)) (.uint64 18446744073709551615) = .ok true ∧
    ∃ w kind, binary .sub (.byte (-1)) (.uint64 18446744073709551615) 0 = .ok w ∧
      w.IsInteger kind 0 := by
  obtain ⟨hdecides, horders, -, hsub⟩ := comparison_decides_true_order
  have hfirst : (Value.byte (-1)).IsInteger .byte (-1) := .byte (-1)
  have hsecond : (Value.long 5).IsInteger .long 5 := .long 5
  have hthird : (Value.uint64 18446744073709551615).IsInteger .uint64 18446744073709551615 :=
    .uint64 18446744073709551615
  have hlow : compare .lt (.byte (-1)) (.long 5) = .ok true := by
    have hanswer := (hdecides .lt _ _ (by simp) (by simp)).integers _ _ _ _ hfirst hsecond
    exact (eq_ok_true_iff hanswer).2 (show (-1 : Int) < 5 by decide)
  have hhigh : compare .lt (.long 5) (.uint64 18446744073709551615) = .ok true := by
    have hanswer := (hdecides .lt _ _ (by simp) (by simp)).integers _ _ _ _ hsecond hthird
    exact (eq_ok_true_iff hanswer).2 (show (5 : Int) < 18446744073709551615 by decide)
  have hends := horders.trans ⟨_, _, _, hfirst⟩ ⟨_, _, _, hsecond⟩ ⟨_, _, _, hthird⟩ hlow hhigh
  exact ⟨hlow, hhigh, hends, hsub _ _ _ _ _ _ 0 hfirst hthird⟩

end Operation

end SlotMachine
