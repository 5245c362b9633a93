import Breadboard.Proofs.Machine.Outcome
import Breadboard.Proofs.Machine.Words
import Breadboard.Proofs.Typing.Conversion

/-!
Integers in the types in which they are computed. A value has the rank of its type: `int` is the
first one, then come `unsigned long` and `long long`. An operator on two integers that lie in the
range of their common type gives what it gives in 64 bits, if that lies in the range as well.
-/

namespace Breadboard

open Environment Value

variable {n : Int64} {value : Value} {base : BaseType}

/-! Shifts of words by a number of places below their width. -/

section Shifts

variable {k : Nat}

theorem toNat_smod_64 (small : k < 64) : ((BitVec.ofNat 64 k).smod 64).toNat = k := by
  have all : ∀ k : Fin 64, ((BitVec.ofNat 64 k.val).smod 64).toNat = k.val := by decide
  exact all ⟨k, small⟩

theorem toNat_smod_32 (small : k < 32) : ((BitVec.ofNat 32 k).smod 32).toNat = k := by
  have all : ∀ k : Fin 32, ((BitVec.ofNat 32 k.val).smod 32).toNat = k.val := by decide
  exact all ⟨k, small⟩

theorem toBitVec_shiftLeft (x : Int64) (small : k < 64) :
    (x <<< Int64.ofNat k).toBitVec = x.toBitVec <<< k := by
  rw [Int64.toBitVec_shiftLeft, Int64.toBitVec_ofNat', BitVec.shiftLeft_eq', toNat_smod_64 small]

theorem toInt_shiftRight (x : Int64) (small : k < 64) :
    (x >>> Int64.ofNat k).toInt = x.toInt >>> k := by
  rw [← Int64.toInt_toBitVec, Int64.toBitVec_shiftRight, Int64.toBitVec_ofNat',
    BitVec.sshiftRight_eq', toNat_smod_64 small, BitVec.toInt_sshiftRight, Int64.toInt_toBitVec]

theorem toInt32_shiftLeft (x : Int64) (small : k < 32) :
    (x <<< Int64.ofNat k).toInt32 = x.toInt32 <<< Int32.ofNat k := by
  apply Int32.toBitVec_inj.mp
  rw [Int64.toBitVec_toInt32, toBitVec_shiftLeft x (by omega), Int32.toBitVec_shiftLeft,
    Int32.toBitVec_ofNat', BitVec.shiftLeft_eq', toNat_smod_32 small, Int64.toBitVec_toInt32,
    BitVec.signExtend_eq_setWidth_of_le _ (by omega),
    BitVec.signExtend_eq_setWidth_of_le _ (by omega), BitVec.setWidth_shiftLeft_of_le (by omega)]

theorem toInt64_shiftRight (x : Int32) (small : k < 32) :
    (x >>> Int32.ofNat k).toInt64 = x.toInt64 >>> Int64.ofNat k := by
  apply Int64.toInt_inj.mp
  rw [toInt_shiftRight _ (by omega), Int32.toInt_toInt64, Int32.toInt_toInt64,
    ← Int32.toInt_toBitVec, Int32.toBitVec_shiftRight, Int32.toBitVec_ofNat',
    BitVec.sshiftRight_eq', toNat_smod_32 small, BitVec.toInt_sshiftRight, Int32.toInt_toBitVec]

theorem toUInt32_shiftLeft (x : Int64) (small : k < 32) :
    (x <<< Int64.ofNat k).toUInt64.toUInt32 = x.toUInt64.toUInt32 <<< UInt32.ofNat k := by
  have places : (UInt32.ofNat k).toNat = k :=
    UInt32.toNat_ofNat_of_lt' (Nat.lt_trans small (by decide))
  apply UInt32.toBitVec_inj.mp
  rw [UInt64.toBitVec_toUInt32, Int64.toBitVec_toUInt64, toBitVec_shiftLeft x (by omega),
    BitVec.setWidth_shiftLeft_of_le (by omega), UInt32.toBitVec_shiftLeft, BitVec.shiftLeft_eq',
    UInt64.toBitVec_toUInt32, Int64.toBitVec_toUInt64]
  congr 1
  simp only [BitVec.toNat_umod, UInt32.toNat_toBitVec, places]
  exact (Nat.mod_eq_of_lt small).symm

theorem unsigned_shiftRight (x : UInt32) (small : k < 32) :
    (x >>> UInt32.ofNat k).toUInt64.toInt64 = x.toUInt64.toInt64 >>> Int64.ofNat k := by
  have places : (UInt32.ofNat k).toNat = k :=
    UInt32.toNat_ofNat_of_lt' (Nat.lt_trans small (by decide))
  apply Int64.toInt_inj.mp
  rw [toInt_shiftRight _ (by omega), toInt_unsigned, toInt_unsigned, UInt32.toNat_shiftRight,
    places, Nat.mod_eq_of_lt small]
  rfl

theorem toNat_of_nonneg (low : 0 ≤ n.toInt) : (n.toUInt64.toNat : Int) = n.toInt := by
  have high := n.toInt_lt
  rw [toNat_toUInt64]
  omega

end Shifts

/-! Numbers and their types. -/

/-- The numbers of the type in which values of a rank are computed. -/
def InRank (rank : Nat) (n : Int64) : Prop :=
  match rank with
  | 0 => -2147483648 ≤ n.toInt ∧ n.toInt ≤ 2147483647
  | 1 => 0 ≤ n.toInt ∧ n.toInt ≤ 4294967295
  | _ => True

instance (rank : Nat) (n : Int64) : Decidable (InRank rank n) :=
  match rank with
  | 0 => inferInstanceAs (Decidable (_ ∧ _))
  | 1 => inferInstanceAs (Decidable (_ ∧ _))
  | _ + 2 => inferInstanceAs (Decidable True)

namespace InRank

variable {n : Int64}

theorem toInt64_toInt32 (inside : InRank 0 n) : n.toInt32.toInt64 = n := by
  obtain ⟨low, high⟩ := inside
  apply Int64.toInt_inj.mp
  rw [Int32.toInt_toInt64, Int64.toInt_toInt32]
  exact Int.bmod_eq_of_le (by omega) (by omega)

theorem toInt64_toUInt32 (inside : InRank 1 n) : n.toUInt64.toUInt32.toUInt64.toInt64 = n := by
  obtain ⟨low, high⟩ := inside
  apply Int64.toInt_inj.mp
  have same := toNat_of_nonneg low
  rw [toInt_unsigned, UInt64.toNat_toUInt32]
  omega

theorem of_int (x : Int32) : InRank 0 x.toInt64 := by
  have low := x.le_toInt
  have high := x.toInt_lt
  rw [InRank, Int32.toInt_toInt64]
  omega

theorem of_unsigned (x : UInt32) : InRank 1 x.toUInt64.toInt64 := by
  have high := x.toNat_lt
  rw [InRank, toInt_unsigned]
  omega

end InRank

inductive Value.Integral : Value → Nat → Int64 → Prop where
  | bool (b : Bool) : Integral (.bool b) 0 (if b then 1 else 0)
  | char (c : Int8) : Integral (.char c) 0 c.toInt64
  | int (x : Int32) : Integral (.int x) 0 x.toInt64
  | unsigned (x : UInt32) : Integral (.unsigned x) 1 x.toUInt64.toInt64
  | long (x : Int64) : Integral (.long x) 2 x

namespace Value.Integral

variable {value left right : Value} {rank a b : Nat} {n l r : Int64} {op : BinaryOp}

theorem whole (integral : value.Integral rank n) : value.wholeNumber? = some n := by
  cases integral <;> rfl

theorem truncated (integral : value.Integral rank n) : value.truncated? = some n := by
  cases integral <;> rfl

theorem integer?_eq (integral : value.Integral rank n) : value.integer? = some n := by
  cases integral <;> rfl

theorem inRank (integral : value.Integral rank n) : InRank rank n := by
  cases integral with
  | bool b => cases b <;> decide
  | char c =>
    have low := c.le_toInt
    have high := c.toInt_lt
    rw [InRank, Int8.toInt_toInt64]
    omega
  | int x => exact .of_int x
  | unsigned x => exact .of_unsigned x
  | long x => trivial

/-- A word of 32 bits has the number that it is cut from, if that is in range. -/
theorem of_toInt32 (inside : InRank 0 n) (same : n.toInt32 = x) : (Value.int x).Integral 0 n := by
  have integral := Integral.int x
  rwa [← same, inside.toInt64_toInt32, same] at integral

theorem of_toUInt32 (inside : InRank 1 n) (same : n.toUInt64.toUInt32 = x) :
    (Value.unsigned x).Integral 1 n := by
  have integral := Integral.unsigned x
  rwa [← same, inside.toInt64_toUInt32, same] at integral

theorem operate_eq (first : left.Integral a l) (second : right.Integral b r) (env : Environment) :
    env.operate op left right = op.apply left right := by
  have texts : env.textOperands left right = (left, right) := by
    cases first <;> rfl
  have pointers : pointerOffset? op left right = none := by
    cases first <;> cases second <;> cases op <;> rfl
  simp only [operate, texts, pointers]

end Value.Integral

namespace WordType

variable {word : WordType} {value wide : Value} {out : Except Cause Value} {op : BinaryOp}
  {n : Int64} {x y z : Int}

def rank : WordType → Nat
  | .int => 0
  | .unsigned => 1
  | .long => 2

theorem reduce_eq_of_inRank (inside : InRank word.rank n) : word.reduce n.toInt = n.toInt := by
  cases word with
  | int => exact Int.bmod_eq_of_le (by have := inside.1; omega) (by have := inside.2; omega)
  | unsigned => exact Int.emod_eq_of_lt inside.1 (by have := inside.2; omega)
  | long => exact (Holds.long n).reduce_eq

theorem Yields.number (yields : word.Yields (.ok wide) z) (view : wide.integer? = some n) :
    z = n.toInt := by
  obtain ⟨_, same, holds⟩ := yields
  cases same
  obtain ⟨k, whole, same⟩ := holds.whole
  rw [← same]
  cases holds <;> cases whole <;> cases view <;> rfl

theorem Yields.integral (yields : word.Yields out z) (number : z = n.toInt) :
    ∃ value, out = .ok value ∧ value.Integral word.rank n := by
  obtain ⟨value, rfl, holds⟩ := yields
  obtain ⟨k, whole, same⟩ := holds.whole
  cases Int64.toInt_inj.mp (same.trans number)
  refine ⟨value, rfl, ?_⟩
  cases holds <;> cases whole <;> constructor

theorem Yields.narrow (yields : long.Yields (.ok wide) (long.reduce z))
    (view : wide.integer? = some n) (inside : InRank word.rank n) : word.reduce z = n.toInt := by
  have parts : (2 ^ word.width : Int) ∣ 2 ^ 64 := by cases word <;> decide
  rw [← reduce_eq_of_inRank inside, ← yields.number view, reduce_eq_iff]
  exact (Int.ModEq.of_dvd parts (long.reduce_modEq z)).symm

theorem setWidth_pattern (word : WordType) (z : Int) :
    (long.pattern z).setWidth word.width = word.pattern z := by
  have fits : word.width ≤ long.width := by cases word <;> decide
  apply BitVec.eq_of_toInt_eq
  rw [← BitVec.signExtend_eq_setWidth_of_le _ fits, BitVec.toInt_signExtend, Nat.min_eq_left fits]
  simp only [pattern, BitVec.toInt_ofInt]
  exact Int.bmod_bmod_of_dvd (Nat.pow_dvd_pow 2 fits)

theorem reduce_eq_of_pattern_eq (same : word.pattern x = word.pattern y) :
    word.reduce x = word.reduce y := by
  have number := congrArg BitVec.toInt same
  simp only [pattern, BitVec.toInt_ofInt] at number
  rw [reduce_eq_iff]
  cases word <;> exact Int.bmod_emod.symm.trans (number ▸ Int.bmod_emod)

theorem Yields.bits (narrower : word.Yields out x) (wider : long.Yields (.ok wide) z)
    (view : wide.integer? = some n) (inside : InRank word.rank n)
    (bits : word.pattern x = (long.pattern z).setWidth word.width) :
    ∃ value, out = .ok value ∧ value.Integral word.rank n := by
  have number := wider.number view
  obtain ⟨value, -, holds⟩ := id narrower
  refine narrower.integral ?_
  rw [setWidth_pattern] at bits
  rw [← holds.reduce_eq, reduce_eq_of_pattern_eq bits, number, reduce_eq_of_inRank inside]

theorem Computes.narrow (plain : op.isShift = false) (wider : long.Computes op x y (.ok wide))
    (narrower : word.Computes op x y out) (view : wide.integer? = some n)
    (inside : InRank (if op.isComparison then 0 else word.rank) n) :
    ∃ value, out = .ok value ∧ value.Integral (if op.isComparison then 0 else word.rank) n := by
  cases op with
  | add | sub | mul => exact narrower.integral (wider.narrow view inside)
  | div =>
    simp only [Computes] at wider narrower
    split at wider
    · cases wider
    · rw [if_neg ‹_›] at narrower
      exact narrower.integral (wider.narrow view inside)
  | mod =>
    simp only [Computes] at wider narrower
    split at wider
    · cases wider
    · rw [if_neg ‹_›] at narrower
      exact narrower.integral (wider.number view)
  | bitAnd | bitOr | bitXor =>
    obtain ⟨z, wider, wideBits⟩ := wider
    obtain ⟨x, narrower, bits⟩ := narrower
    refine narrower.bits wider view inside (bits.trans ?_)
    rw [wideBits]
    simp only [BitVec.setWidth_and, BitVec.setWidth_or, BitVec.setWidth_xor, setWidth_pattern]
  | shl | shr => cases plain
  | _ =>
    cases wider
    cases narrower
    cases view
    exact ⟨_, rfl, .bool _⟩

end WordType

namespace BinaryOp

/-- The rank of what an operator makes of two integers. -/
def resultRank (op : BinaryOp) (left right : Nat) : Nat :=
  if op.isShift then left else if op.isComparison then 0 else max left right

variable {op : BinaryOp} {wide left right : Value} {n l r : Int64} {a b : Nat}

/-- The numbers on which an operator of a type does what it does in 64 bits. A shift has to stay
below the width of its left operand. -/
structure Stays (op : BinaryOp) (a b : Nat) (l r n : Int64) : Prop where
  result : ∃ wide, op.apply (.long l) (.long r) = .ok wide ∧ wide.integer? = some n
  operands : if op.isShift then 0 ≤ r.toInt ∧ r.toInt < (if a = 2 then 64 else 32)
    else InRank (max a b) l ∧ InRank (max a b) r
  inside : InRank (op.resultRank a b) n

theorem shift_narrow (small : k < 32) :
    (InRank 0 l → InRank 0 (if op = .shl then l <<< Int64.ofNat k else l >>> Int64.ofNat k) →
      (int (if op = .shl then l.toInt32 <<< Int32.ofNat k
        else l.toInt32 >>> Int32.ofNat k)).Integral 0
        (if op = .shl then l <<< Int64.ofNat k else l >>> Int64.ofNat k)) ∧
    (InRank 1 l → InRank 1 (if op = .shl then l <<< Int64.ofNat k else l >>> Int64.ofNat k) →
      (unsigned (if op = .shl then l.toUInt64.toUInt32 <<< UInt32.ofNat k
        else l.toUInt64.toUInt32 >>> UInt32.ofNat k)).Integral 1
        (if op = .shl then l <<< Int64.ofNat k else l >>> Int64.ofNat k)) := by
  split
  · exact ⟨fun _ inside => .of_toInt32 inside (toInt32_shiftLeft l small),
      fun _ inside => .of_toUInt32 inside (toUInt32_shiftLeft l small)⟩
  · constructor
    · intro fits _
      have shifted := toInt64_shiftRight l.toInt32 small
      rw [fits.toInt64_toInt32] at shifted
      exact shifted ▸ .int _
    · intro fits _
      have shifted := unsigned_shiftRight l.toUInt64.toUInt32 small
      rw [fits.toInt64_toUInt32] at shifted
      exact shifted ▸ .unsigned _

variable (first : left.Integral a l) (second : right.Integral b r)
include first second

theorem plain_integral (plain : op.isShift = false) (out : op.onInt64 l r = .ok wide)
    (view : wide.integer? = some n) (opds : InRank (max a b) l ∧ InRank (max a b) r)
    (inside : InRank (op.resultRank a b) n) :
    ∃ value, op.apply left right = .ok value ∧ value.Integral (op.resultRank a b) n := by
  have rank : max a b = (WordType.common left right).rank := by
    cases first <;> cases second <;> rfl
  have computes := WordType.computes_apply op first.whole second.whole plain
  rw [rank] at opds
  rw [WordType.reduce_eq_of_inRank opds.1, WordType.reduce_eq_of_inRank opds.2] at computes
  simp only [resultRank, plain, Bool.false_eq_true, if_false, rank] at inside ⊢
  exact WordType.Computes.narrow plain (out ▸ WordType.computes_onInt64 op l r) computes view inside

theorem shift_integral (shifts : op.isShift = true) (out : op.shift (.long l) (.long r) = .ok wide)
    (view : wide.integer? = some n) (low : 0 ≤ r.toInt)
    (high : r.toInt < (if a = 2 then 64 else 32)) (inside : InRank a n) :
    ∃ value, op.apply left right = .ok value ∧ value.Integral a n := by
  have places := toNat_of_nonneg low
  have amount : op.shift left right = op.shift left (.long r) := by
    cases second <;> rfl
  have fits := first.inRank
  rw [WordType.apply_eq first.whole second.whole, shifts, if_pos rfl, amount]
  generalize counted : r.toUInt64.toNat = k at places
  have wideShift (l : Int64) (small : k < 64) : op.shift (.long l) (.long r) =
      .ok (.long (if op = .shl then l <<< Int64.ofNat k else l >>> Int64.ofNat k)) := by
    simp [shift, integer?, rank?, counted, Nat.mod_eq_of_lt small]
  rw [wideShift l (by split at high <;> omega)] at out
  cases out
  cases view
  cases first with
  | long => exact ⟨_, wideShift l (by rw [if_pos rfl] at high; omega), .long _⟩
  | bool | char | int =>
    have small : k < 32 := by omega
    refine ⟨_, ?_, (shift_narrow small).1 fits inside⟩
    simp [shift, integer?, rank?, counted, Nat.mod_eq_of_lt small]
  | unsigned =>
    have small : k < 32 := by omega
    refine ⟨_, ?_, (shift_narrow small).2 fits inside⟩
    simp [shift, integer?, rank?, counted, Nat.mod_eq_of_lt small]

theorem apply_integral (stays : op.Stays a b l r n) :
    ∃ value, op.apply left right = .ok value ∧ value.Integral (op.resultRank a b) n := by
  obtain ⟨⟨wide, out, view⟩, opds, inside⟩ := stays
  rw [WordType.apply_eq rfl rfl] at out
  cases shifts : op.isShift with
  | false =>
    rw [shifts, if_neg Bool.false_ne_true] at opds out
    exact plain_integral first second shifts out view opds inside
  | true =>
    have rank : op.resultRank a b = a := by
      simp [resultRank, shifts]
    rw [shifts, if_pos rfl] at opds out
    rw [rank] at inside ⊢
    exact shift_integral first second shifts out view opds.1 opds.2 inside

end BinaryOp

theorem Value.Integral.operate (first : left.Integral a l) (second : right.Integral b r)
    (stays : op.Stays a b l r n) (env : Environment) :
    ∃ value, env.operate op left right = .ok value ∧ value.Integral (op.resultRank a b) n := by
  rw [first.operate_eq second env]
  exact BinaryOp.apply_integral first second stays

theorem Value.Integral.neg (integral : value.Integral rank n) (inside : InRank rank (-n)) :
    ∃ negated, UnaryOp.neg.apply value = .ok negated ∧ negated.Integral rank (-n) := by
  cases integral with
  | bool | char | int => exact ⟨_, rfl, .of_toInt32 inside (by simp [Value.integer?])⟩
  | unsigned => exact ⟨_, rfl, .of_toUInt32 inside (by simp)⟩
  | long => exact ⟨_, rfl, .long _⟩

theorem Value.ofLiteral_integral (n : Int64) (unsigned : Bool) :
    ∃ rank, (ofLiteral n unsigned).Integral rank n := by
  unfold ofLiteral
  split
  · rename_i fits
    simp only [Bool.and_eq_true, decide_eq_true_eq, Int64.le_iff_toInt_le] at fits
    exact ⟨0, .of_toInt32 ⟨fits.1.2, fits.2⟩ rfl⟩
  · split
    · rename_i fits
      simp only [Bool.and_eq_true, decide_eq_true_eq, Int64.le_iff_toInt_le] at fits
      exact ⟨1, .of_toUInt32 fits rfl⟩
    · exact ⟨2, .long n⟩

/-! Casts. -/

/-- The least and the greatest number of an integer type. -/
def BaseType.bounds? : BaseType → Option (Int × Int)
  | .bool => some (0, 1)
  | .char => some (-128, 127)
  | .byte => some (0, 255)
  | .short => some (-32768, 32767)
  | .word => some (0, 65535)
  | .int => some (-2147483648, 2147483647)
  | .unsigned => some (0, 4294967295)
  | .longLong => some (-9223372036854775808, 9223372036854775807)
  | _ => none

def BaseType.Has (base : BaseType) (n : Int64) : Prop :=
  ∃ low high, base.bounds? = some (low, high) ∧ low ≤ n.toInt ∧ n.toInt ≤ high

theorem BaseType.Has.isInteger (has : base.Has n) : base.isInteger = true := by
  obtain ⟨low, high, known, -⟩ := has
  cases base <;> first | rfl | cases known

def BaseType.integerRank : BaseType → Nat
  | .unsigned => 1
  | .longLong => 2
  | _ => 0

theorem Value.Integral.of_toInt (same : x.toInt = n.toInt) : (Value.int x).Integral 0 n := by
  have number : x.toInt64 = n := Int64.toInt_inj.mp (by rw [Int32.toInt_toInt64, same])
  exact number ▸ .int x

theorem Value.ofInteger_integral (has : base.Has n) :
    (ofInteger base n).Integral base.integerRank n := by
  obtain ⟨low, high, known, least, greatest⟩ := has
  cases base with
  | bool =>
    cases known
    obtain zero | one : n.toInt = (0 : Int64).toInt ∨ n.toInt = (1 : Int64).toInt := by
      simp only [Int64.toInt_zero, Int64.toInt_one]
      omega
    · cases Int64.toInt_inj.mp zero
      exact .bool false
    · cases Int64.toInt_inj.mp one
      exact .bool true
  | char =>
    cases known
    have number : n.toInt8.toInt64 = n := by
      apply Int64.toInt_inj.mp
      rw [Int8.toInt_toInt64, Int64.toInt_toInt8]
      exact Int.bmod_eq_of_le (by omega) (by omega)
    have integral := Integral.char n.toInt8
    rwa [number] at integral
  | byte =>
    cases known
    have places := toNat_of_nonneg least
    refine .of_toInt ?_
    rw [Int32.toInt_ofNat_of_lt] <;> rw [UInt64.toNat_toUInt8] <;> omega
  | short =>
    cases known
    refine .of_toInt ?_
    rw [Int16.toInt_toInt32, Int64.toInt_toInt16]
    exact Int.bmod_eq_of_le (by omega) (by omega)
  | word =>
    cases known
    have places := toNat_of_nonneg least
    refine .of_toInt ?_
    rw [Int32.toInt_ofNat_of_lt] <;> rw [UInt64.toNat_toUInt16] <;> omega
  | int =>
    cases known
    exact .of_toInt32 ⟨least, greatest⟩ rfl
  | unsigned =>
    cases known
    exact .of_toUInt32 ⟨least, greatest⟩ rfl
  | longLong => exact .long n
  | _ => cases known

theorem Value.Integral.convert (integral : value.Integral rank n) (single : type.isSingle = true)
    (has : type.base.Has n) (structs : StructTable) (env : Environment) :
    ∃ converted, (env.givenAs type value).convert structs type = .ok converted ∧
      converted.Integral type.base.integerRank n := by
  have given : env.givenAs type value = value := by
    cases integral <;> simp [givenAs, textOf]
  rw [given, convert_integer single has.isInteger integral.truncated]
  exact ⟨_, rfl, ofInteger_integral has⟩

end Breadboard
