import Breadboard.Machine.Step
import Breadboard.Proofs.Typing.Conversion

/-!
Numbers as truth values. A condition tests whether a number is zero, and conversion to `bool` tests
its integer part. The two agree unless the number is a fraction below one or not a number at all.
-/

namespace Breadboard

open Act

namespace Binary64

/-- The integer part is zero for a number less than one, and for a NaN. -/
theorem toInt64_eq_zero_iff (x : Binary64) :
    x.toInt64 = 0 ↔ x.isNaN = true ∨ x.isInfinite = false ∧ x.steps < stepsPerOne := by
  unfold toInt64 truncateTo
  split
  · simp [*]
  · split
    · split
      · simp [*]
      · simp [*]
        decide
    · have inRange (n : Int) :
          Int64.ofInt (clamp Int64.minValue.toInt Int64.maxValue.toInt n) = 0 ↔ n = 0 := by
        have lowest : Int64.minValue.toInt = -2 ^ 63 := rfl
        have highest : Int64.maxValue.toInt = 2 ^ 63 - 1 := rfl
        rw [← Int64.toInt_inj, lowest, highest, clamp, Int64.toInt_ofInt_of_le (by omega) (by omega)]
        change _ = (0 : Int) ↔ _
        omega
      have unsigned (n : Nat) : signed x.negative n = 0 ↔ n = 0 := by
        unfold signed
        split <;> omega
      have positive : 0 < stepsPerOne := Nat.pow_pos (by decide)
      rw [inRange, unsigned, Nat.div_eq_zero_iff_lt positive]
      simp [*]

theorem small_of_isZero (x : Binary64) (zero : x.isZero = true) :
    x.isNaN = false ∧ x.isInfinite = false ∧ x.steps < stepsPerOne := by
  have none : x.magnitudeBits = 0 := of_decide_eq_true zero
  simp only [isNaN, isInfinite, steps, none]
  exact ⟨by decide, by decide, Nat.pow_pos (by decide)⟩

end Binary64

namespace Value

/-- Whether a value is zero just if its integer part is. A fraction below one and a NaN are not. -/
def keepsTruth : Value → Bool
  | .float x =>
      !x.isNaN && (x.isZero || x.isInfinite || Binary64.stepsPerOne ≤ x.steps)
  | _ => true

theorem toInt64_ne_zero_iff (x : Binary64) :
    (x.toInt64 != 0) = !x.isZero ↔ keepsTruth (.float x) = true := by
  have small := x.small_of_isZero
  have whole := x.toInt64_eq_zero_iff
  rw [Bool.eq_iff_iff, keepsTruth, bne_iff_ne, ne_eq, whole]
  cases zero : x.isZero with
  | true => simp [small zero]
  | false => cases x.isInfinite <;> simp

/-- The integer part of a zero is zero, and that of another number too if the number does not keep
its truth. -/
theorem integer_ne_zero_iff {value : Value} (numeric : value.isNumeric = true)
    (truth : value.truth? = some holds) : ∃ n, value.integer? = some n ∧
      (holds = false → n = 0) ∧ ((n != 0) = holds ↔ value.keepsTruth = true) := by
  have whole {n : Int64} {test : Bool} (same : n = 0 ↔ test = false) :
      (test = false → n = 0) ∧ ((n != 0) = test ↔ true = true) := by
    cases test <;> simp_all
  cases value with
  | float x =>
    cases truth
    refine ⟨_, rfl, fun zero => ?_, toInt64_ne_zero_iff x⟩
    exact x.toInt64_eq_zero_iff.mpr (.inr (x.small_of_isZero (by simpa using zero)).2)
  | bool b =>
    cases truth
    refine ⟨_, rfl, whole ?_⟩
    cases holds <;> decide
  | char n =>
    cases truth
    refine ⟨_, rfl, whole ?_⟩
    rw [bne_eq_false_iff_eq, ← Int64.toInt_inj, Int8.toInt_toInt64, ← Int8.toInt_inj]
    rfl
  | int n =>
    cases truth
    refine ⟨_, rfl, whole ?_⟩
    rw [bne_eq_false_iff_eq, ← Int64.toInt_inj, Int32.toInt_toInt64, ← Int32.toInt_inj]
    rfl
  | unsigned n =>
    cases truth
    refine ⟨_, rfl, whole ?_⟩
    rw [bne_eq_false_iff_eq, ← UInt32.toUInt64_inj]
    exact ⟨congrArg Int64.toUInt64, congrArg UInt64.toInt64⟩
  | long n =>
    cases truth
    exact ⟨n, rfl, whole bne_eq_false_iff_eq.symm⟩
  | _ => cases numeric

theorem convert_bool {value : Value}
    (single : type.isSingle = true) (isBool : type.base = .bool) (numeric : value.isNumeric = true)
    (integer : value.integer? = some n) : value.convert structs type = .ok (.bool (n != 0)) := by
  have whole : value.truncated? = some n := by rw [truncated?, if_pos numeric, integer]
  rw [convert_integer single (by rw [isBool]; rfl) whole, isBool]
  rfl

end Value

namespace Firmware

/-- A frame converts the topmost operand to a type: as an initializer, in a cast or as a result. -/
inductive Converts (fw : Firmware) (type : DataType) : Frame → Prop where
  | declaration {node init name isStatic isVolatile} :
      fw.program.kind node = .varDecl name type init isStatic isVolatile →
      Converts fw type (.declare node)
  | cast : fw.program.kind node = .cast type expr → Converts fw type (.cast node)
  | result : Converts fw type (.callReturn type height true loc)

variable {fw : Firmware} {type : DataType} {value other : Value} {ctx : Context}
  {values : List Value}

/-- The frame pops the operand first and then only converts it. -/
theorem runFrame_converts (converts : fw.Converts type frame)
    (same : ∀ loc, convert fw value type loc = convert fw other type loc) :
    runFrame fw frame { ctx with values := value :: values } =
      runFrame fw frame { ctx with values := other :: values } := by
  cases converts with
  | @declaration node _ _ _ _ kind =>
    have declared : declareVariable fw node (some value) =
        declareVariable fw node (some other) := by
      simp only [declareVariable, kind, same]
    exact congrFun declared { ctx with values }
  | @cast node _ kind =>
    simp only [runFrame, runCast, kind]
    exact congrFun (congrArg (fun act => (act >>= push) >>= fun _ => pure Effect.quiet)
      (same (fw.program.location node))) { ctx with values }
  | @result height loc =>
    exact congrFun (congrArg (fun act => (do
      truncate height
      closeScope
      push (← act)) >>= fun _ => pure Effect.quiet) (same loc)) { ctx with values }

theorem bindParameters_converts (loc : Location) (place : front.length = before.length)
    (same : convert fw value type loc = convert fw other type loc) :
    bindParameters fw loc (before ++ ⟨name, type⟩ :: after) (front ++ value :: back) =
      bindParameters fw loc (before ++ ⟨name, type⟩ :: after) (front ++ other :: back) := by
  induction before generalizing front with
  | nil =>
    rw [List.length_eq_zero_iff.mp place]
    simp only [List.nil_append, bindParameters, same]
  | cons param before ih =>
    cases front with
    | nil => cases place
    | cons arg front =>
      simp only [List.cons_append, bindParameters, ih (Nat.succ.inj place)]

/-- A number is converted to `bool` by its integer part, and a condition tests the number itself.
They agree except on a fraction below one and on a NaN, which hold and are stored as false. Where
they agree, every use of a number as a `bool` does what it does with the outcome of the test. -/
theorem bool_agrees_iff (fw : Firmware) {type : DataType} {value : Value} {holds : Bool}
    (single : type.isSingle = true) (isBool : type.base = .bool) (numeric : value.isNumeric = true)
    (truth : value.truth? = some holds) :
    (value.convert fw.structs type = .ok (.bool holds) ↔ value.keepsTruth = true) ∧
    (value.keepsTruth = false →
      holds = true ∧ value.convert fw.structs type = .ok (.bool false)) ∧
    (value.keepsTruth = true →
      (∀ frame (ctx : Context) values, fw.Converts type frame →
        Act.runFrame fw frame { ctx with values := value :: values } =
          Act.runFrame fw frame { ctx with values := .bool holds :: values }) ∧
      ∀ function name before param after result body front back loc,
        fw.program.kind function =
          .functionDef name (before ++ ⟨param, type⟩ :: after) result body →
        front.length = before.length →
        Act.enterFunction fw function (front ++ value :: back) loc =
          Act.enterFunction fw function (front ++ .bool holds :: back) loc) ∧
    ∀ node condition thenBranch elseBranch (ctx : Context) values,
      fw.program.kind node = .ifElse condition thenBranch elseBranch →
      Act.runFrame fw (.branch node) { ctx with values := value :: values } =
        Act.runFrame fw (.branch node) { ctx with values := .bool holds :: values } := by
  obtain ⟨n, integer, zero, agrees⟩ := Value.integer_ne_zero_iff numeric truth
  have stored : value.convert fw.structs type = _ :=
    Value.convert_bool single isBool numeric integer
  refine ⟨?_, ?_, ?_, ?_⟩
  · rw [stored, ← agrees]
    simp
  · intro loses
    have differs : ¬ (n != 0) = holds := fun same => by simp [agrees.mp same] at loses
    rw [stored]
    cases holds with
    | false => exact absurd (by rw [zero rfl]; rfl) differs
    | true => exact ⟨rfl, by rw [Bool.eq_false_iff.mpr differs]⟩
  · intro keeps
    have same (loc : Location) :
        Act.convert fw value type loc = Act.convert fw (.bool holds) type loc := by
      have kept : (Value.bool holds).convert fw.structs type = value.convert fw.structs type := by
        rw [stored, agrees.mpr keeps, Value.convert_bool single isBool rfl rfl]
        cases holds <;> rfl
      simp [Act.convert, isBool, kept]
    refine ⟨fun frame ctx values converts => runFrame_converts converts same, ?_⟩
    intro function name before param after result body front back loc kind place
    simp only [Act.enterFunction, kind, bindParameters_converts loc place (same loc),
      List.length_append, List.length_cons]
  · intro node condition thenBranch elseBranch ctx values kind
    have same (loc : Location) : Act.truth value loc = Act.truth (.bool holds) loc := by
      rw [Act.truth, truth]
      rfl
    simp only [Act.runFrame, Act.runBranch, kind]
    exact congrFun (congrArg (fun act => (do
      if ← act then Act.schedule [.exec thenBranch]
      else Act.schedule (elseBranch.toList.map Frame.exec)) >>= fun _ => pure Effect.quiet)
      (same (fw.program.location node))) { ctx with values }

/-- One half holds as a condition, and a `bool` keeps nothing of it. -/
theorem half_lost :
    let half := Value.float ⟨0x3FE0000000000000⟩
    half.truth? = some true ∧ half.convert [] (.of .bool) = .ok (.bool false) := by
  have agrees := @bool_agrees_iff ⟨⟨#[], []⟩, [], [], {}⟩ (.of .bool)
    (.float ⟨0x3FE0000000000000⟩) true rfl rfl rfl (by decide)
  exact ⟨by decide, (agrees.2.1 (by decide +kernel)).2⟩

end Firmware

end Breadboard
