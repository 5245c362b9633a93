import Breadboard.Number.Binary64
import Mathlib.Data.Nat.Bitwise
import Mathlib.Tactic.Ring

/-!
Narrowing to single precision and back. A number that compares equal to what it was before has
also its bit pattern back: narrowing keeps the sign, so the two zeros stay apart.
-/

namespace Breadboard

open FloatFormat

namespace FloatFormat

theorem nearest_le (format : FloatFormat) (numerator denominator : Nat) :
    format.nearest numerator denominator ≤ format.infinity :=
  Nat.min_le_right ..

/-- The two parts of a pattern. Only the least exponent has significands without their leading
bit. -/
structure Parts (width shift significand : Nat) : Prop where
  small : significand < 2 ^ (width + 1)
  normal : shift = 0 ∨ 2 ^ width ≤ significand

variable {width shift significand infinity : Nat}

theorem exists_parts (width bits : Nat) :
    ∃ shift significand, Parts width shift significand ∧ bits = shift * 2 ^ width + significand := by
  have rest : bits % 2 ^ width < 2 ^ width := Nat.mod_lt _ (Nat.two_pow_pos width)
  have whole := Nat.div_add_mod' bits (2 ^ width)
  cases exponent : bits / 2 ^ width with
  | zero =>
    rw [exponent, Nat.zero_mul, Nat.zero_add] at whole
    exact ⟨0, bits, ⟨by omega, .inl rfl⟩, by omega⟩
  | succ shift =>
    rw [exponent, Nat.succ_mul] at whole
    exact ⟨shift, bits % 2 ^ width + 2 ^ width, ⟨by omega, .inr (by omega)⟩, by omega⟩

theorem steps_eq (bits : Nat) : steps ⟨width + 1, infinity⟩ bits =
      if bits / 2 ^ width = 0 then bits % 2 ^ width
      else (bits % 2 ^ width + 2 ^ width) * 2 ^ (bits / 2 ^ width - 1) := by
  simp only [steps, Nat.shiftRight_eq_div_pow, Nat.shiftLeft_eq, Nat.add_sub_cancel]
  rfl

theorem nearest_eq (numerator denominator : Nat) :
    nearest ⟨width + 1, infinity⟩ numerator denominator =
      min (((numerator / denominator).log2 + 1 - (width + 1)) * 2 ^ width + divideToEven numerator
          (denominator * 2 ^ ((numerator / denominator).log2 + 1 - (width + 1)))) infinity := by
  simp only [nearest, Nat.shiftLeft_eq, Nat.add_sub_cancel]

theorem divideToEven_mul (quotient : Nat) (positive : 0 < denominator) :
    divideToEven (quotient * denominator) denominator = quotient := by
  simp [divideToEven, positive]

namespace Parts

theorem steps_eq (parts : Parts width shift significand) :
    steps ⟨width + 1, infinity⟩ (shift * 2 ^ width + significand) = significand * 2 ^ shift := by
  have positive := Nat.two_pow_pos width
  have small := parts.small
  rw [Nat.pow_succ] at small
  rw [FloatFormat.steps_eq]
  by_cases leading : 2 ^ width ≤ significand
  · obtain ⟨fraction, rfl⟩ := Nat.exists_eq_add_of_le leading
    have pattern : shift * 2 ^ width + (2 ^ width + fraction) =
        2 ^ width * (shift + 1) + fraction := by ring
    rw [pattern, Nat.mul_add_div positive, Nat.mul_add_mod, Nat.div_eq_of_lt (by omega),
      Nat.mod_eq_of_lt (by omega), if_neg (by omega), Nat.add_comm fraction]
    rfl
  · obtain rfl : shift = 0 := parts.normal.resolve_right leading
    have least : 0 * 2 ^ width + significand = significand := by omega
    rw [least, Nat.div_eq_of_lt (by omega), if_pos rfl, Nat.mod_eq_of_lt (by omega),
      Nat.pow_zero, Nat.mul_one]

theorem log2_eq (parts : Parts width shift significand) :
    (significand * 2 ^ shift).log2 + 1 - (width + 1) = shift := by
  by_cases leading : 2 ^ width ≤ significand
  · have bounds : 2 ^ (width + shift) ≤ significand * 2 ^ shift ∧
        significand * 2 ^ shift < 2 ^ (width + shift + 1) := by
      rw [Nat.add_right_comm, Nat.pow_add, Nat.pow_add]
      exact ⟨Nat.mul_le_mul_right _ leading,
        Nat.mul_lt_mul_of_pos_right parts.small (Nat.two_pow_pos shift)⟩
    have positive := Nat.two_pow_pos (width + shift)
    rw [(Nat.log2_eq_iff (by omega)).mpr bounds]
    omega
  · obtain rfl : shift = 0 := parts.normal.resolve_right leading
    rw [Nat.pow_zero, Nat.mul_one]
    rcases Nat.eq_zero_or_pos significand with rfl | positive
    · exact Nat.sub_eq_zero_of_le (Nat.le_add_left ..)
    · have := (Nat.log2_lt positive.ne').mpr parts.small
      omega

theorem nearest_eq (parts : Parts width shift significand) (positive : 0 < denominator) :
    nearest ⟨width + 1, infinity⟩ (significand * 2 ^ shift * denominator) denominator =
      min (shift * 2 ^ width + significand) infinity := by
  have scaled : significand * 2 ^ shift * denominator = significand * (denominator * 2 ^ shift) := by
    ring
  rw [FloatFormat.nearest_eq, Nat.mul_div_cancel _ positive, parts.log2_eq, scaled,
    divideToEven_mul _ (Nat.mul_pos positive (Nat.two_pow_pos shift))]

theorem exists_of_lt (small : significand < 2 ^ (width + 1)) (exponent : Nat) :
    ∃ shift ≤ exponent, ∃ scaled, Parts width shift scaled ∧
      scaled * 2 ^ shift = significand * 2 ^ exponent := by
  induction exponent with
  | zero => exact ⟨0, le_rfl, significand, ⟨small, .inl rfl⟩, rfl⟩
  | succ exponent ih =>
    obtain ⟨shift, bound, scaled, parts, same⟩ := ih
    by_cases leading : 2 ^ width ≤ scaled
    · refine ⟨shift + 1, by omega, scaled, ⟨parts.small, .inr leading⟩, ?_⟩
      rw [Nat.pow_succ, Nat.pow_succ, ← Nat.mul_assoc, same, Nat.mul_assoc]
    · obtain rfl : shift = 0 := parts.normal.resolve_right leading
      refine ⟨0, by omega, scaled * 2, ⟨by rw [Nat.pow_succ]; omega, .inl rfl⟩, ?_⟩
      rw [Nat.pow_succ, ← Nat.mul_assoc, ← same, Nat.pow_zero, Nat.mul_one, Nat.mul_one]

end Parts

theorem nearest_steps_single (finite : bits < single.infinity) (bound : finer < 1024)
    (power : scale = Nat.pow 2 finer) :
    ∃ wide < double.infinity, double.nearest (single.steps bits * scale) 1 = wide ∧
      single.nearest (double.steps wide) scale = bits := by
  rw [power, Nat.pow_eq]
  obtain ⟨shift, significand, parts, rfl⟩ := exists_parts 23 bits
  have low : shift < 255 := by
    have : single.infinity = 255 * 2 ^ 23 := rfl
    omega
  have fits : significand < 2 ^ (52 + 1) := Nat.lt_trans parts.small (by decide)
  obtain ⟨exponent, least, scaled, wide, same⟩ := Parts.exists_of_lt fits (shift + finer)
  have inside : exponent * 2 ^ 52 + scaled < double.infinity := by
    calc exponent * 2 ^ 52 + scaled
      _ < 1279 * 2 ^ 52 + 2 ^ (52 + 1) :=
        Nat.add_lt_add_of_le_of_lt (Nat.mul_le_mul_right _ (by omega)) wide.small
      _ < double.infinity := by decide
  rw [Nat.pow_add, ← Nat.mul_assoc] at same
  refine ⟨exponent * 2 ^ 52 + scaled, inside, ?_, ?_⟩
  · calc double.nearest (single.steps (shift * 2 ^ 23 + significand) * 2 ^ finer) 1
      _ = double.nearest (significand * 2 ^ shift * 2 ^ finer) 1 :=
        congrArg (fun steps => double.nearest (steps * 2 ^ finer) 1) parts.steps_eq
      _ = double.nearest (scaled * 2 ^ exponent * 1) 1 := by rw [← same, Nat.mul_one]
      _ = min (exponent * 2 ^ 52 + scaled) double.infinity := wide.nearest_eq Nat.one_pos
      _ = exponent * 2 ^ 52 + scaled := Nat.min_eq_left inside.le
  · calc single.nearest (double.steps (exponent * 2 ^ 52 + scaled)) (2 ^ finer)
      _ = single.nearest (scaled * 2 ^ exponent) (2 ^ finer) :=
        congrArg (single.nearest · (2 ^ finer)) wide.steps_eq
      _ = single.nearest (significand * 2 ^ shift * 2 ^ finer) (2 ^ finer) := by rw [same]
      _ = min (shift * 2 ^ 23 + significand) single.infinity :=
        parts.nearest_eq (Nat.two_pow_pos finer)
      _ = shift * 2 ^ 23 + significand := Nat.min_eq_left finite.le

end FloatFormat

namespace Binary64

variable {magnitude place : Nat} {x : Binary64} (negative : Bool)

theorem testBit_sign (small : magnitude < 2 ^ place) :
    ((if negative then 2 ^ place else 0) ||| magnitude).testBit place = negative := by
  rw [Nat.testBit_or, Nat.testBit_lt_two_pow small, Bool.or_false]
  cases negative
  · exact Nat.zero_testBit place
  · exact Nat.testBit_two_pow_self

theorem mod_sign (small : magnitude < 2 ^ place) :
    ((if negative then 2 ^ place else 0) ||| magnitude) % 2 ^ place = magnitude := by
  rw [Nat.or_mod_two_pow, Nat.mod_eq_of_lt small]
  cases negative <;> simp

theorem negative_eq (x : Binary64) : x.negative = x.bits.toNat.testBit 63 := by
  have masked : (x.bits &&& signBit).toNat = (x.bits.toNat.testBit 63).toNat * 2 ^ 63 :=
    (UInt64.toNat_and ..).trans (Nat.and_two_pow x.bits.toNat 63)
  rw [negative, Bool.eq_iff_iff, bne_iff_ne, ne_eq, ← UInt64.toNat_inj, masked]
  cases x.bits.toNat.testBit 63 <;> simp

theorem magnitudeBits_eq (x : Binary64) : x.magnitudeBits = x.bits.toNat % 2 ^ 63 :=
  (UInt64.toNat_and ..).trans (Nat.and_two_pow_sub_one_eq_mod x.bits.toNat 63)

theorem eq_of_parts (sign : x.negative = y.negative)
    (magnitude : x.magnitudeBits = y.magnitudeBits) : x = y := by
  rw [negative_eq, negative_eq] at sign
  rw [magnitudeBits_eq, magnitudeBits_eq] at magnitude
  have high : x.bits.toNat / 2 ^ 63 % 2 = y.bits.toNat / 2 ^ 63 % 2 := by
    rw [← Nat.toNat_testBit, ← Nat.toNat_testBit, sign]
  have xBound := x.bits.toNat_lt
  have yBound := y.bits.toNat_lt
  have same : x.bits.toNat = y.bits.toNat := by omega
  exact congrArg Binary64.mk (UInt64.toNat_inj.mp same)

theorem toNat_withSign (small : magnitude < 2 ^ 63) :
    (withSign negative magnitude).bits.toNat = (if negative then 2 ^ 63 else 0) ||| magnitude := by
  have fits : magnitude.toUInt64.toNat = magnitude := Nat.mod_eq_of_lt (by omega)
  cases negative <;> exact (UInt64.toNat_or ..).trans (congrArg _ fits)

theorem negative_withSign (small : magnitude < 2 ^ 63) :
    (withSign negative magnitude).negative = negative := by
  rw [negative_eq, toNat_withSign negative small, testBit_sign negative small]

theorem magnitudeBits_withSign (small : magnitude < 2 ^ 63) :
    (withSign negative magnitude).magnitudeBits = magnitude := by
  rw [magnitudeBits_eq, toNat_withSign negative small, mod_sign negative small]

def narrowed (magnitude : Nat) : Nat :=
  if double.infinity < magnitude then 0x7FC00000
  else if magnitude = double.infinity then single.infinity
  else single.nearest (double.steps magnitude) stepsPerSingleStep

def widened (magnitude : Nat) : Nat :=
  if single.infinity < magnitude then 0x7FF8000000000000
  else if magnitude = single.infinity then double.infinity
  else double.nearest (single.steps magnitude * stepsPerSingleStep) 1

theorem narrowed_lt (magnitude : Nat) : narrowed magnitude < 2 ^ 31 := by
  have infinity : single.infinity < 2 ^ 31 := by decide
  unfold narrowed
  split
  · decide
  · split
    · exact infinity
    · exact Nat.lt_of_le_of_lt (nearest_le ..) infinity

theorem widened_lt (magnitude : Nat) : widened magnitude < 2 ^ 63 := by
  have infinity : double.infinity < 2 ^ 63 := by decide
  unfold widened
  split
  · decide
  · split
    · exact infinity
    · exact Nat.lt_of_le_of_lt (nearest_le ..) infinity

theorem narrow_eq (x : Binary64) :
    x.narrow = (if x.negative then 0x80000000 else 0) ||| (narrowed x.magnitudeBits).toUInt32 := by
  simp only [narrow, narrowed, isNaN, isInfinite, steps, decide_eq_true_eq]

theorem toNat_narrow (x : Binary64) :
    x.narrow.toNat = (if x.negative then 2 ^ 31 else 0) ||| narrowed x.magnitudeBits := by
  have small := narrowed_lt x.magnitudeBits
  have fits : (narrowed x.magnitudeBits).toUInt32.toNat = narrowed x.magnitudeBits :=
    Nat.mod_eq_of_lt (by omega)
  rw [narrow_eq]
  cases x.negative <;> exact (UInt32.toNat_or ..).trans (congrArg _ fits)

theorem narrow_sign (x : Binary64) : (x.narrow &&& 0x80000000 != 0) = x.negative := by
  have masked := (UInt32.toNat_and x.narrow 0x80000000).trans
    ((congrArg (· &&& 2 ^ 31) x.toNat_narrow).trans (Nat.and_two_pow _ 31))
  rw [testBit_sign x.negative (narrowed_lt _)] at masked
  rw [Bool.eq_iff_iff, bne_iff_ne, ne_eq, ← UInt32.toNat_inj, masked]
  cases x.negative <;> simp

theorem narrow_magnitude (x : Binary64) :
    (x.narrow &&& 0x7FFFFFFF).toNat = narrowed x.magnitudeBits := by
  rw [← mod_sign x.negative (narrowed_lt x.magnitudeBits), ← toNat_narrow]
  exact (UInt32.toNat_and ..).trans (Nat.and_two_pow_sub_one_eq_mod _ 31)

theorem toSinglePrecision_eq (x : Binary64) :
    x.toSinglePrecision = withSign x.negative (widened (narrowed x.magnitudeBits)) := by
  rw [← narrow_magnitude, ← narrow_sign]
  rfl

theorem negative_toSinglePrecision (x : Binary64) : x.toSinglePrecision.negative = x.negative := by
  rw [toSinglePrecision_eq, negative_withSign _ (widened_lt _)]

theorem narrowed_widened {bits : Nat} (ordered : bits ≤ single.infinity) :
    narrowed (widened bits) = bits := by
  rcases ordered.lt_or_eq with finite | rfl
  · obtain ⟨wide, inside, made, back⟩ := nearest_steps_single finite
      (show 925 < 1024 by decide) stepsPerSingleStep.eq_1
    rw [show widened bits = wide from (if_neg finite.not_gt).trans ((if_neg finite.ne).trans made)]
    exact (if_neg inside.not_gt).trans ((if_neg inside.ne).trans back)
  · rfl

theorem widened_narrowed (magnitude : Nat) :
    widened (narrowed (widened (narrowed magnitude))) = widened (narrowed magnitude) := by
  by_cases isNaN : double.infinity < magnitude
  · rw [show narrowed magnitude = 0x7FC00000 from if_pos isNaN]
    rfl
  · rw [narrowed_widened]
    rw [narrowed, if_neg isNaN]
    split
    · exact le_rfl
    · exact nearest_le ..

theorem toSinglePrecision_idem (x : Binary64) :
    x.toSinglePrecision.toSinglePrecision = x.toSinglePrecision := by
  rw [toSinglePrecision_eq x.toSinglePrecision, negative_toSinglePrecision, toSinglePrecision_eq x,
    magnitudeBits_withSign _ (widened_lt _), widened_narrowed]

theorem widen_of_exactSingle? {bits : UInt32} (exact : x.exactSingle? = some bits) :
    widen bits = x := by
  unfold exactSingle? at exact
  split at exact <;> cases exact
  rename_i equal
  have sign := x.negative_toSinglePrecision
  refine eq_of_parts sign ?_
  rw [compare?, Option.ite_none_left_eq_some] at equal
  have keys : x.toSinglePrecision.orderKey = x.orderKey :=
    Std.LawfulEqCmp.eq_of_compare (Option.some.inj equal.2)
  rw [orderKey, orderKey, sign] at keys
  split at keys
  · exact Int.ofNat.inj (Int.neg_inj.mp keys)
  · exact Int.ofNat.inj keys

end Binary64

end Breadboard
