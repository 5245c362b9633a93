import Breadboard.Machine.Builtin
import Breadboard.Proofs.Machine.Words

/-!
Random numbers. The difference of two bounds is taken as a word without a sign, so it is the span
of the range also where it has no place among the signed words. What is added to the lower bound
stays below the span.
-/

namespace Breadboard

variable {low high : Int64}

theorem toNat_span (range : low < high) :
    ((high - low).toUInt64.toNat : Int) = high.toInt - low.toInt := by
  have ordered := Int64.lt_iff_toInt_lt.mp range
  have least := low.le_toInt
  have most := high.toInt_lt
  have kept : (high - low).toInt % 2 ^ 64 = (high.toInt - low.toInt) % 2 ^ 64 := by
    rw [Int64.toInt_sub]
    exact Int.bmod_emod
  rw [toNat_toUInt64, kept]
  omega

theorem toInt_add_residue (range : low < high) (small : n.toNat < 2 ^ 63) :
    (low + (n % (high - low).toUInt64).toInt64).toInt =
      low.toInt + n.toNat % (high.toInt - low.toInt) := by
  have ordered := Int64.lt_iff_toInt_lt.mp range
  have least := low.le_toInt
  have most := high.toInt_lt
  have residue : ((n % (high - low).toUInt64).toNat : Int) =
      n.toNat % (high.toInt - low.toInt) := by
    rw [← toNat_span range, UInt64.toNat_mod, Int.natCast_emod]
  have below := Int.emod_lt_of_pos (n.toNat : Int) (show 0 < high.toInt - low.toInt by omega)
  have signed : (n % (high - low).toUInt64).toInt64.toInt = _ :=
    toInt_toInt64 (Nat.lt_of_le_of_lt (Nat.mod_le _ _) small)
  rw [Int64.toInt_add, signed, residue, Int.bmod_eq_of_le (by omega) (by omega)]

theorem toNat_shiftRight_lt (n : UInt64) : (n >>> 33).toNat < 2 ^ 63 := by
  have bound := n.toNat_lt
  rw [UInt64.toNat_shiftRight, Nat.shiftRight_eq_div_pow, show UInt64.toNat 33 % 64 = 33 from rfl]
  omega

/-- In every state, a number is drawn from a range by its span, however large that is. Nothing is
drawn from an empty range. -/
theorem nextRandom_in_range (state : UInt64) (low high : Int64) :
    (low < high → ∃ drawn, nextRandom state low high = (drawn, nextRandomState state) ∧
      low ≤ drawn ∧ drawn < high ∧ drawn.toInt =
        low.toInt + (nextRandomState state >>> 33).toNat % (high.toInt - low.toInt)) ∧
    (high ≤ low → nextRandom state low high = (low, state)) := by
  unfold nextRandom
  refine ⟨fun range => ?_, fun empty => if_pos empty⟩
  rw [if_neg (Int64.not_le.mpr range)]
  generalize nextRandomState state = next
  have exact := toInt_add_residue range (toNat_shiftRight_lt next)
  have ordered := Int64.lt_iff_toInt_lt.mp range
  have residue : 0 < high.toInt - low.toInt := by omega
  have least := Int.emod_nonneg ((next >>> 33).toNat : Int) residue.ne'
  have below := Int.emod_lt_of_pos ((next >>> 33).toNat : Int) residue
  refine ⟨_, rfl, ?_, ?_, exact⟩
  · rw [Int64.le_iff_toInt_le, exact]
    omega
  · rw [Int64.lt_iff_toInt_lt, exact]
    omega

/-- The widest range has a span that no signed word holds. -/
theorem widest_range_drawn : ∃ drawn,
    nextRandom 3 Int64.minValue Int64.maxValue = (drawn, nextRandomState 3) ∧
      drawn < Int64.maxValue := by
  obtain ⟨drawn, same, -, below, -⟩ :=
    (nextRandom_in_range 3 Int64.minValue Int64.maxValue).1 (by decide)
  exact ⟨drawn, same, below⟩

end Breadboard
