import Breadboard.Machine.Method
import Breadboard.Proofs.Machine.Words
import Breadboard.Proofs.Text.Digits

/-!
Integers that are printed in base 2, 8 or 16. What is printed are the lowest 32 bits, so the text
is read back as the integer unless that needs more.
-/

namespace Breadboard

variable {value format : Value} {n base : Int64}

theorem formattedText_integer (env : Environment) (name : String) (upper : Bool)
    (whole : value.wholeNumber? = some n) (inBase : format.truncated? = some base) :
    formattedText env ⟨name, [value, format]⟩ upper = .ok (integerInBase n base upper) := by
  have second : Arguments.integer ⟨name, [value, format]⟩ 1 = .ok base := by
    have given : (Arguments.get ⟨name, [value, format]⟩ 1).truncated? = some base := inBase
    rw [Arguments.integer, given]
  cases value with
  | bool | char | int | unsigned | long =>
    cases whole
    change (Arguments.integer _ 1 >>= fun base => _) = _
    rw [second]
    rfl
  | _ => cases whole

def Value.isNarrow : Value → Bool
  | .char _ | .int _ => true
  | _ => false

/-- What a text for an integer value is to be read as: the integer, or its 32 bits if it is a
negative `char` or `int`. -/
structure ReadsAs (value : Value) (n : Int) (read : Nat) : Prop where
  natural : 0 ≤ n → (read : Int) = n
  negative : n < 0 → value.isNarrow = true → (read : Int) = n + 2 ^ 32

theorem readsAs_iff (whole : value.wholeNumber? = some n) :
    ReadsAs value n.toInt n.toUInt64.toUInt32.toNat ↔ n.toInt < 2 ^ 32 := by
  have cut := toNat_toUInt32 n
  have least : value.isNarrow = true → -2 ^ 31 ≤ n.toInt := by
    cases value with
    | char x =>
      cases whole
      have bound := x.le_toInt
      rw [Int8.toInt_toInt64]
      omega
    | int x =>
      cases whole
      exact Int32.toInt_toInt64 x ▸ fun _ => x.le_toInt
    | _ => simp [Value.isNarrow]
  constructor
  · intro reads
    by_contra large
    have same := reads.natural (by omega)
    omega
  · intro small
    refine ⟨fun natural => by omega, fun below narrow => ?_⟩
    have bound := least narrow
    omega

/-- Integers in base 2, 8 or 16 are written without a zero in front. What is printed, and what a
text is made of, is read back as the integer just if that is less than `2 ^ 32`. -/
theorem printed_reads_back_iff (env : Environment) (whole : value.wholeNumber? = some n)
    (inBase : format.truncated? = some base) (known : base = 2 ∨ base = 8 ∨ base = 16) :
    ∃ upper lower,
      Serial.call env "print" [value, format] =
        .ok ⟨.int (Serial.sized upper), some (.serialPrint upper)⟩ ∧
      Serial.call env "println" [value, format] =
        .ok ⟨.int (Serial.sized upper + 2), some (.serialPrintln upper)⟩ ∧
      Builtin.makeText.compute env ⟨"String", [value, format]⟩ = .ok (.text lower) ∧
      ∀ text ∈ [upper, lower], (text.toList.head? = some '0' → text = "0") ∧
        ∃ read, Text.readNatural? base.toInt.toNat text.toList = some read ∧
          (read : Int) = n.toInt % 2 ^ 32 ∧ (ReadsAs value n.toInt read ↔ n.toInt < 2 ^ 32) := by
  have formatted (name : String) (upper : Bool) :
      formattedText env ⟨name, [value, format]⟩ upper = .ok (integerInBase n base upper) :=
    formattedText_integer env name upper whole inBase
  refine ⟨integerInBase n base true, integerInBase n base false, ?_, ?_, ?_, ?_⟩
  · simp [Serial.call, Arguments.checkCount, formatted, bind, Except.bind]
  · simp [Serial.call, Arguments.checkCount, formatted, bind, Except.bind]
  · simp [Builtin.compute, formatted, bind, Except.bind]
  · intro text among
    obtain ⟨upper, rfl⟩ : ∃ upper, text = integerInBase n base upper := by
      rw [List.mem_cons, List.mem_singleton] at among
      rcases among with rfl | rfl <;> exact ⟨_, rfl⟩
    have radix : 1 < base.toInt.toNat ∧ base.toInt.toNat ≤ 16 ∧
        Text.digitValue? base.toInt.toNat '0' = some 0 := by
      rcases known with rfl | rfl | rfl <;> decide
    obtain ⟨c, tail, digits, read, leading⟩ :=
      Text.digits_read upper radix.1 radix.2.1 n.toUInt64.toUInt32.toNat
    have written : (integerInBase n base upper).toList = c :: tail := by
      rw [integerInBase, if_pos known, String.toList_ofList, digits]
    refine ⟨fun zero => ?_, _, by rw [written]; exact read, toNat_toUInt32 n, readsAs_iff whole⟩
    rw [written] at zero
    cases zero
    rw [leading radix.2.2] at written
    exact String.toList_inj.mp written

/-- Of `2 ^ 32 + 5`, only the five is printed. -/
theorem wide_number_cut : ∃ text,
    Serial.call {} "print" [.long 4294967301, .int 16] =
      .ok ⟨.int (Serial.sized text), some (.serialPrint text)⟩ ∧
    Text.readNatural? 16 text.toList = some 5 ∧ ¬ ReadsAs (.long 4294967301) 4294967301 5 := by
  obtain ⟨text, _, printed, -, -, texts⟩ :=
    @printed_reads_back_iff (.long 4294967301) (.int 16) _ _ {} rfl rfl (.inr (.inr rfl))
  obtain ⟨-, read, same, value, reads⟩ := texts text List.mem_cons_self
  have five : read = 5 := by
    change (read : Int) = 4294967301 % 2 ^ 32 at value
    omega
  subst five
  exact ⟨text, printed, same, fun held => absurd (reads.mp held) (by decide)⟩

end Breadboard
