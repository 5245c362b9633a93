import Mathlib.Data.Int.ModEq
import Breadboard.Machine.Operator

/-!
Integers are computed exactly, and the result is brought into the range of the type in which the
operands meet. Bringing a number into the range of a type keeps its remainder modulo the size of
the type, and is decided by it. So the remainder of a division makes up for its quotient even where
the quotient does not fit.
-/

namespace Breadboard

open BinaryOp

inductive WordType where
  | int | unsigned | long

namespace BinaryOp

def isShift (op : BinaryOp) : Bool := op = .shl || op = .shr

def relates (op : BinaryOp) (x y : Int) : Bool :=
  match op with
  | .eq => x = y
  | .ne => x ≠ y
  | .lt => x < y
  | .le => x ≤ y
  | .gt => y < x
  | .ge => y ≤ x
  | _ => false

theorem holds_compare (op : BinaryOp) (x y : Int) : op.holds (compare x y) = op.relates x y := by
  change op.holds (compareOfLessAndEq x y) = _
  unfold compareOfLessAndEq
  split
  · cases op <;> simp [holds, relates] <;> omega
  · split <;> cases op <;> simp [holds, relates] <;> omega

theorem compare_natCast (a b : Nat) : compare (a : Int) (b : Int) = compare a b := by
  change compareOfLessAndEq _ _ = compareOfLessAndEq _ _
  simp only [compareOfLessAndEq, Int.ofNat_lt, Int.ofNat_inj]

end BinaryOp

theorem toInt_toInt64 {n : UInt64} (small : n.toNat < 2 ^ 63) : n.toInt64.toInt = n.toNat := by
  rw [← Int64.toInt_toBitVec, UInt64.toBitVec_toInt64, BitVec.toInt_eq_toNat_of_lt,
    UInt64.toNat_toBitVec]
  rw [UInt64.toNat_toBitVec]
  omega

theorem toInt_unsigned (x : UInt32) : x.toUInt64.toInt64.toInt = x.toNat := by
  have small := x.toNat_lt
  rw [toInt_toInt64 (by rw [UInt32.toNat_toUInt64]; omega), UInt32.toNat_toUInt64]

theorem toNat_toUInt64 (n : Int64) : (n.toUInt64.toNat : Int) = n.toInt % 2 ^ 64 := by
  have value := BitVec.toInt_eq_toNat_cond n.toBitVec
  rw [Int64.toInt_toBitVec] at value
  rw [← UInt64.toNat_toBitVec, Int64.toBitVec_toUInt64]
  split at value <;> omega

theorem toNat_toUInt32 (n : Int64) : (n.toUInt64.toUInt32.toNat : Int) = n.toInt % 2 ^ 32 := by
  have value := toNat_toUInt64 n
  rw [UInt64.toNat_toUInt32]
  omega

namespace WordType

def width : WordType → Nat
  | .int | .unsigned => 32
  | .long => 64

def reduce : WordType → Int → Int
  | .int, n => n.bmod (2 ^ 32)
  | .unsigned, n => n % 2 ^ 32
  | .long, n => n.bmod (2 ^ 64)

def pattern (word : WordType) (n : Int) : BitVec word.width := BitVec.ofInt _ n

/-- The values of a type with their numbers. -/
inductive Holds : WordType → Value → Int → Prop where
  | int (x : Int32) : Holds .int (.int x) x.toInt
  | unsigned (x : UInt32) : Holds .unsigned (.unsigned x) x.toNat
  | long (x : Int64) : Holds .long (.long x) x.toInt

/-- An outcome is a value of a type, with a number. -/
def Yields (word : WordType) (out : Except Cause Value) (n : Int) : Prop :=
  ∃ value, out = .ok value ∧ word.Holds value n

/-- An outcome is what an operator other than a shift makes of two numbers of a type. -/
def Computes (word : WordType) (op : BinaryOp) (x y : Int) (out : Except Cause Value) : Prop :=
  match op with
  | .add => word.Yields out (word.reduce (x + y))
  | .sub => word.Yields out (word.reduce (x - y))
  | .mul => word.Yields out (word.reduce (x * y))
  | .div =>
    if y = 0 then out = .error (.divisionByZero "Division")
    else word.Yields out (word.reduce (x.tdiv y))
  | .mod =>
    if y = 0 then out = .error (.divisionByZero "Modulo") else word.Yields out (x.tmod y)
  | .bitAnd =>
    ∃ n, word.Yields out n ∧ word.pattern n = word.pattern x &&& word.pattern y
  | .bitOr =>
    ∃ n, word.Yields out n ∧ word.pattern n = word.pattern x ||| word.pattern y
  | .bitXor =>
    ∃ n, word.Yields out n ∧ word.pattern n = word.pattern x ^^^ word.pattern y
  | .shl | .shr => True
  | comparison => out = .ok (.bool (comparison.relates x y))

def common : Value → Value → WordType
  | .long _, _ | _, .long _ => .long
  | .unsigned _, _ | _, .unsigned _ => .unsigned
  | _, _ => .int

variable {word : WordType} {value left right : Value} {op : BinaryOp} {l r : Int64} {x y n : Int}

/-! Remainders. -/

theorem reduce_modEq (word : WordType) (n : Int) : word.reduce n ≡ n [ZMOD 2 ^ word.width] := by
  cases word with
  | int | long => exact Int.bmod_emod
  | unsigned => exact Int.mod_modEq n _

theorem reduce_eq_iff : word.reduce x = word.reduce y ↔ x ≡ y [ZMOD 2 ^ word.width] := by
  constructor
  · intro same
    exact (word.reduce_modEq x).symm.trans (same ▸ word.reduce_modEq y)
  · intro congruent
    cases word with
    | unsigned => exact congruent
    | int | long => exact (Int.emod_bmod x _).symm.trans (congruent ▸ Int.emod_bmod y _)

theorem Holds.reduce_eq (holds : word.Holds value n) : word.reduce n = n := by
  cases holds with
  | int x | long x => exact Int.bmod_eq_of_le x.le_toInt x.toInt_lt
  | unsigned x =>
    have small := x.toNat_lt
    rw [reduce]
    omega

theorem reduce_tdiv_add_tmod (x y : Int) :
    word.reduce (word.reduce (word.reduce (x.tdiv y) * y) + x.tmod y) = word.reduce x := by
  rw [reduce_eq_iff]
  calc
    _ ≡ x.tdiv y * y + x.tmod y [ZMOD 2 ^ word.width] :=
      ((word.reduce_modEq _).trans ((word.reduce_modEq _).mul_right y)).add_right _
    _ = x := by rw [Int.mul_comm, Int.mul_tdiv_add_tmod]

/-! Each type computes. -/

theorem computes_onInt32 (op : BinaryOp) (a b : Int32) :
    int.Computes op a.toInt b.toInt (op.onInt32 a b) := by
  have zero : b.toInt = 0 ↔ b = 0 := by rw [← Int32.toInt_zero, Int32.toInt_inj]
  have bits (a : Int32) : int.pattern a.toInt = a.toBitVec := BitVec.ofInt_toInt
  have yields {n : Int} (x : Int32) (same : x.toInt = n) : int.Yields (.ok (.int x)) n :=
    ⟨_, rfl, same ▸ .int x⟩
  cases op with
  | add => exact yields _ (a.toInt_add b)
  | sub => exact yields _ (a.toInt_sub b)
  | mul => exact yields _ (a.toInt_mul b)
  | div =>
    simp only [Computes, onInt32, zero]
    split
    · rfl
    · exact yields _ (a.toInt_div b)
  | mod =>
    simp only [Computes, onInt32, zero]
    split
    · rfl
    · exact yields _ (a.toInt_mod b)
  | bitAnd | bitOr | bitXor => exact ⟨_, ⟨_, rfl, .int _⟩, by simp only [bits]; rfl⟩
  | shl | shr => trivial
  | _ => exact congrArg (fun answer => Except.ok (Value.bool answer)) (holds_compare _ _ _)

theorem computes_onInt64 (op : BinaryOp) (a b : Int64) :
    long.Computes op a.toInt b.toInt (op.onInt64 a b) := by
  have zero : b.toInt = 0 ↔ b = 0 := by rw [← Int64.toInt_zero, Int64.toInt_inj]
  have bits (a : Int64) : long.pattern a.toInt = a.toBitVec := BitVec.ofInt_toInt
  have yields {n : Int} (x : Int64) (same : x.toInt = n) : long.Yields (.ok (.long x)) n :=
    ⟨_, rfl, same ▸ .long x⟩
  cases op with
  | add => exact yields _ (a.toInt_add b)
  | sub => exact yields _ (a.toInt_sub b)
  | mul => exact yields _ (a.toInt_mul b)
  | div =>
    simp only [Computes, onInt64, zero]
    split
    · rfl
    · exact yields _ (a.toInt_div b)
  | mod =>
    simp only [Computes, onInt64, zero]
    split
    · rfl
    · exact yields _ (a.toInt_mod b)
  | bitAnd | bitOr | bitXor => exact ⟨_, ⟨_, rfl, .long _⟩, by simp only [bits]; rfl⟩
  | shl | shr => trivial
  | _ => exact congrArg (fun answer => Except.ok (Value.bool answer)) (holds_compare _ _ _)

theorem computes_onUInt32 (op : BinaryOp) (a b : UInt32) :
    unsigned.Computes op a.toNat b.toNat (op.onUInt32 a b) := by
  have aSmall := a.toNat_lt
  have bSmall := b.toNat_lt
  have zero : (b.toNat : Int) = 0 ↔ b = 0 := by
    rw [Int.natCast_eq_zero, ← UInt32.toNat_zero, UInt32.toNat_inj]
  have bits (a : UInt32) : unsigned.pattern a.toNat = a.toBitVec := by
    simp [pattern, width]
  have yields {n : Int} (x : UInt32) (same : n = x.toNat) :
      unsigned.Yields (.ok (.unsigned x)) n := ⟨_, rfl, same ▸ .unsigned x⟩
  cases op with
  | add | mul => exact yields _ (by simp [reduce])
  | sub =>
    refine yields _ ?_
    rw [reduce, UInt32.toNat_sub]
    omega
  | div =>
    simp only [Computes, onUInt32, zero]
    split
    · rfl
    · refine yields _ ?_
      have small : a.toNat / b.toNat ≤ a.toNat := Nat.div_le_self _ _
      rw [UInt32.toNat_div, ← Int.ofNat_tdiv, reduce]
      generalize a.toNat / b.toNat = quotient at small ⊢
      omega
  | mod =>
    simp only [Computes, onUInt32, zero]
    split
    · rfl
    · exact yields _ (by rw [UInt32.toNat_mod, Int.ofNat_tmod])
  | bitAnd | bitOr | bitXor => exact ⟨_, ⟨_, rfl, .unsigned _⟩, by simp only [bits]; rfl⟩
  | shl | shr => trivial
  | _ =>
    refine congrArg (fun answer => Except.ok (Value.bool answer)) ?_
    rw [← holds_compare, compare_natCast]

/-! Operands meet. -/

section

variable (op : BinaryOp) (first : left.wholeNumber? = some l) (second : right.wholeNumber? = some r)
include first second

theorem promote?_eq : left.promote? right = match common left right with
      | .int => some (.int l.toInt32 r.toInt32)
      | .unsigned => some (.unsigned l.toUInt64.toUInt32 r.toUInt64.toUInt32)
      | .long => some (.long l r) := by
  cases left <;> cases first <;> cases right <;> cases second <;> rfl

theorem apply_eq {op : BinaryOp} :
    op.apply left right = if op.isShift then op.shift left right else match common left right with
      | .int => op.onInt32 l.toInt32 r.toInt32
      | .unsigned => op.onUInt32 l.toUInt64.toUInt32 r.toUInt64.toUInt32
      | .long => op.onInt64 l r := by
  have plain {value : Value} {n : Int64} (whole : value.wholeNumber? = some n) :
      isPointer value = false ∧ isText value = false := by
    cases value <;> cases whole <;> exact ⟨rfl, rfl⟩
  rw [apply, (plain first).1, (plain second).1, (plain first).2, (plain second).2,
    promote?_eq first second]
  cases common left right <;> rfl

theorem computes_apply (plain : op.isShift = false) :
    (common left right).Computes op ((common left right).reduce l.toInt)
      ((common left right).reduce r.toInt) (op.apply left right) := by
  rw [apply_eq first second, plain, if_neg Bool.false_ne_true]
  cases common left right with
  | int =>
    rw [reduce, reduce, ← l.toInt_toInt32, ← r.toInt_toInt32]
    exact computes_onInt32 op _ _
  | unsigned =>
    rw [reduce, reduce, ← toNat_toUInt32, ← toNat_toUInt32]
    exact computes_onUInt32 op _ _
  | long =>
    rw [(Holds.long l).reduce_eq, (Holds.long r).reduce_eq]
    exact computes_onInt64 op l r

theorem Holds.common_left (holds : (common left right).Holds value n) :
    common value right = common left right := by
  cases left <;> cases first <;> cases right <;> cases second <;> cases holds <;> rfl

end

theorem Holds.whole (holds : word.Holds value n) :
    ∃ k, value.wholeNumber? = some k ∧ k.toInt = n := by
  cases holds with
  | int x => exact ⟨_, rfl, x.toInt_toInt64⟩
  | unsigned x => exact ⟨_, rfl, toInt_unsigned x⟩
  | long x => exact ⟨_, rfl, rfl⟩

theorem Holds.common_eq (first : word.Holds left x) (second : word.Holds other y) :
    common left other = word := by
  cases first <;> cases second <;> rfl

theorem reduce_eq_zero_iff (left : Value) (whole : right.wholeNumber? = some r) :
    (common left right).reduce r.toInt = 0 ↔ r = 0 := by
  have same : r.toInt = 0 ↔ r = 0 := by rw [← Int64.toInt_zero, Int64.toInt_inj]
  have long : right = .long r ∨ -2147483648 ≤ r.toInt ∧ r.toInt < 4294967296 := by
    cases right <;> cases whole
    case bool b => exact .inr (by cases b <;> decide)
    case char c =>
      have low := c.le_toInt
      have high := c.toInt_lt
      rw [Int8.toInt_toInt64]
      omega
    case int x =>
      have low := x.le_toInt
      have high := x.toInt_lt
      rw [Int32.toInt_toInt64]
      omega
    case unsigned x =>
      have high := x.toNat_lt
      rw [toInt_unsigned]
      omega
    case long => exact .inl rfl
  rw [← same]
  rcases long with rfl | small
  · have wide : common left (.long r) = .long := by cases left <;> rfl
    rw [wide, (Holds.long r).reduce_eq]
  · cases common left right with
    | int =>
      rw [reduce, Int.bmod_def]
      omega
    | unsigned =>
      rw [reduce]
      omega
    | long => rw [(Holds.long r).reduce_eq]

/-- On integers, an operator does exact arithmetic on its operands in their common type and brings
the result into the range of the type. Only zero cannot divide, and a quotient with its remainder
gives back what was divided. -/
theorem arithmetic_exact (first : left.wholeNumber? = some l)
    (second : right.wholeNumber? = some r) (word : WordType) (x y : Int)
    (meet : word = common left right) (leftView : x = word.reduce l.toInt)
    (rightView : y = word.reduce r.toInt) :
    (∀ op : BinaryOp, op.isShift = false → word.Computes op x y (op.apply left right)) ∧
    (∀ op : BinaryOp, op = .div ∨ op = .mod →
      (op.apply left right = .error (.divisionByZero op.divisionName) ↔ r = 0)) ∧
    (r ≠ 0 → ∃ quotient remainder product,
      BinaryOp.div.apply left right = .ok quotient ∧ word.Holds quotient (word.reduce (x.tdiv y)) ∧
      BinaryOp.mod.apply left right = .ok remainder ∧ word.Holds remainder (x.tmod y) ∧
      (x.tmod y).natAbs < y.natAbs ∧ (0 ≤ x → 0 ≤ x.tmod y) ∧ (x ≤ 0 → x.tmod y ≤ 0) ∧
      BinaryOp.mul.apply quotient right = .ok product ∧
      word.Yields (BinaryOp.add.apply product remainder) x) := by
  subst meet leftView rightView
  have zero := reduce_eq_zero_iff left second
  have divides := computes_apply .div first second rfl
  have leaves := computes_apply .mod first second rfl
  simp only [Computes, zero] at divides leaves
  refine ⟨fun op => computes_apply op first second, ?_, fun nonzero => ?_⟩
  · by_cases isZero : r = 0
    · rw [if_pos isZero] at divides leaves
      rintro op (rfl | rfl)
      · exact iff_of_true divides isZero
      · exact iff_of_true leaves isZero
    · rw [if_neg isZero] at divides leaves
      obtain ⟨_, divided, -⟩ := divides
      obtain ⟨_, left, -⟩ := leaves
      rintro op (rfl | rfl)
      · exact iff_of_false (by rw [divided]; nofun) isZero
      · exact iff_of_false (by rw [left]; nofun) isZero
  · rw [if_neg nonzero] at divides leaves
    obtain ⟨quotient, divided, quotientHolds⟩ := divides
    obtain ⟨remainder, leftOver, remainderHolds⟩ := leaves
    obtain ⟨q, quotientWhole, qView⟩ := quotientHolds.whole
    obtain ⟨m, remainderWhole, mView⟩ := remainderHolds.whole
    -- The quotient and the divisor meet in the same type again, and so do product and remainder.
    have multiplies := computes_apply .mul quotientWhole second rfl
    rw [quotientHolds.common_left first second, qView, quotientHolds.reduce_eq] at multiplies
    obtain ⟨product, multiplied, productHolds⟩ := multiplies
    obtain ⟨p, productWhole, pView⟩ := productHolds.whole
    have adds := computes_apply .add productWhole remainderWhole rfl
    rw [productHolds.common_eq remainderHolds, pView, mView, productHolds.reduce_eq,
      remainderHolds.reduce_eq] at adds
    have whole : (common left right).Yields (BinaryOp.add.apply product remainder)
        ((common left right).reduce ((common left right).reduce l.toInt)) := by
      rw [← reduce_tdiv_add_tmod]
      exact adds
    rw [reduce_eq_iff.mpr ((common left right).reduce_modEq _)] at whole
    refine ⟨quotient, remainder, product, divided, quotientHolds, leftOver, remainderHolds, ?_, ?_, ?_,
      multiplied, whole⟩
    · rw [Int.natAbs_tmod]
      exact Nat.mod_lt _ (Int.natAbs_pos.mpr (zero.not.mpr nonzero))
    · exact Int.tmod_nonneg _
    · intro negative
      have flipped := Int.tmod_nonneg ((common left right).reduce r.toInt) (Int.neg_nonneg.mpr negative)
      rw [Int.neg_tmod] at flipped
      omega

/-- The quotient of the least `int` by -1 does not fit, and still makes up with its remainder for
what was divided. -/
theorem least_over_minus_one : ∃ quotient remainder product,
    BinaryOp.div.apply (.int (-2147483648)) (.int (-1)) = .ok quotient ∧
    BinaryOp.mod.apply (.int (-2147483648)) (.int (-1)) = .ok remainder ∧
    BinaryOp.mul.apply quotient (.int (-1)) = .ok product ∧
    int.Yields (BinaryOp.add.apply product remainder) (-2147483648) := by
  have whole : (Value.int (-2147483648)).wholeNumber? = some (-2147483648) := rfl
  have divisor : (Value.int (-1)).wholeNumber? = some (-1) := rfl
  obtain ⟨-, -, divides⟩ := arithmetic_exact whole divisor .int (-2147483648) (-1) rfl rfl rfl
  obtain ⟨quotient, remainder, product, divided, -, left, -, -, -, -, multiplied, sum⟩ :=
    divides (by decide)
  exact ⟨quotient, remainder, product, divided, left, multiplied, sum⟩

end WordType

end Breadboard
