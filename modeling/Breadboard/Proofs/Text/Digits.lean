import Breadboard.Text.Integer
import Mathlib.Data.Nat.Digits.Defs

/-!
Numerals in a radix. The digits of a number are read back as the number, whichever case their
letters have, and do not begin with a zero unless the number is zero.
-/

namespace Breadboard.Text

variable {radix n digit : Nat} (upper : Bool)

theorem digits_of_lt (small : radix ≤ 16) (within : digit < radix) :
    ∃ c, digits radix upper digit = [c] ∧ digitValue? radix c = some digit := by
  have each : ∀ radix ≤ 16, ∀ digit < radix, digitValue? radix digit.digitChar = some digit ∧
      digitValue? radix digit.digitChar.toUpper = some digit := by decide
  obtain ⟨lower, capital⟩ := each radix small digit within
  cases upper with
  | false => exact ⟨_, Nat.toDigits_of_lt_base within, lower⟩
  | true => exact ⟨_, by simp [digits, Nat.toDigits_of_lt_base within], capital⟩

theorem digits_append (base : 1 < radix) (positive : 0 < n) (within : digit < radix) :
    digits radix upper (radix * n + digit) = digits radix upper n ++ digits radix upper digit := by
  cases upper <;> simp [digits, ← Nat.toDigits_append_toDigits base positive within]

theorem natural?_append (value : Nat) (front back : List Char) :
    natural? radix value (front ++ back) =
      (natural? radix value front).bind fun read => natural? radix read back := by
  induction front generalizing value with
  | nil => rfl
  | cons c front ih =>
    simp only [List.cons_append, natural?]
    split
    · exact ih _
    · rfl

theorem digits_read (base : 1 < radix) (small : radix ≤ 16) (n : Nat) :
    ∃ c tail, digits radix upper n = c :: tail ∧ natural? radix 0 (c :: tail) = some n ∧
      (digitValue? radix c = some 0 → tail = []) := by
  induction n using Nat.base_induction radix base with
  | single digit within =>
    obtain ⟨c, single, value⟩ := digits_of_lt upper small within
    exact ⟨c, [], single, by simp [natural?, value], fun _ => rfl⟩
  | digit n digit within positive ih =>
    obtain ⟨c, tail, front, read, leading⟩ := ih
    obtain ⟨d, single, value⟩ := digits_of_lt upper small within
    refine ⟨c, tail ++ [d], ?_, ?_, ?_⟩
    · rw [digits_append upper base positive within, front, single, List.cons_append]
    · rw [← List.cons_append, natural?_append, read]
      simp [natural?, value]
    · intro zero
      rw [leading zero] at read
      simp [natural?, zero] at read
      omega

end Breadboard.Text
