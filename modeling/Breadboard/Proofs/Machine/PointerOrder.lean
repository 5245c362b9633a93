import Mathlib.Data.Int.ModEq
import Breadboard.Machine.Expression

/-!
The order of pointers. Pointers are compared by the numbers of the elements that they point to, and
only if they differ at most in their last step. That is an order as long as different places have
different numbers in words of 32 bits. Two fields of a structure have none.
-/

open List

namespace Breadboard

open Place

def Place.position (place : Place) : Nat := place.lastIndex?.getD 0

namespace BinaryOp

def Tells (op : BinaryOp) (a b : Place) (answer : Bool) : Prop :=
  op.apply (.pointer a) (.pointer b) = .ok (.bool answer)

/-- If two pointers can be brought into an order at all, just one of less, equal and greater holds,
the other comparisons agree with these, and their distance is zero just if they are equal. -/
def OrderLaws (a b : Place) : Prop :=
  (∃ op ∈ [lt, le, gt, ge], ∃ value, op.apply (.pointer a) (.pointer b) = .ok value) →
    ∃ less equal greater atMost atLeast back distance,
      lt.Tells a b less ∧ eq.Tells a b equal ∧ gt.Tells a b greater ∧
      le.Tells a b atMost ∧ ge.Tells a b atLeast ∧ lt.Tells b a back ∧
      [less, equal, greater].count true = 1 ∧ (atMost = true ↔ back = false) ∧
      sub.apply (.pointer a) (.pointer b) = .ok (.int distance) ∧ (distance = 0 ↔ equal = true)

variable {a b : Place} {op : BinaryOp}

theorem compareIndex_swap (a b : Option Nat) : (compareIndex a b).swap = compareIndex b a := by
  cases a <;> cases b <;> first | rfl | exact Nat.compare_swap _ _

theorem compareIndex_eq_iff {a b : Option Nat} : compareIndex a b = .eq ↔ a = b := by
  cases a <;> cases b <;> simp [compareIndex]

theorem distance_eq_zero_iff : distance a b = 0 ↔ a.position % 2 ^ 32 = b.position % 2 ^ 32 := by
  have number : (distance a b).toInt = ((a.position : Int) - b.position).bmod (2 ^ 32) := by
    change (Int64.ofNat a.position - Int64.ofNat b.position).toInt32.toInt = _
    rw [Int64.toInt_toInt32, Int64.toInt_sub, Int64.toInt_ofNat', Int64.toInt_ofNat',
      Int.bmod_sub_bmod, Int.sub_bmod_bmod, Int.bmod_bmod_of_dvd (by decide)]
  rw [← Int32.toInt_inj, number, Int32.toInt_zero, Int.bmod_def]
  omega

theorem apply_order (same : a.sameArray b = true) (orders : op ∈ [lt, le, gt, ge]) :
    op.Tells a b (op.holds (compareIndex a.lastIndex? b.lastIndex?)) := by
  simp only [mem_cons, not_mem_nil, or_false] at orders
  rcases orders with rfl | rfl | rfl | rfl <;>
    simp [Tells, apply, isPointer, onPointer, same, isComparison]

theorem sameArray_of_apply (orders : op ∈ [lt, le, gt, ge])
    (out : op.apply (.pointer a) (.pointer b) = .ok value) : a.sameArray b = true := by
  cases same : a.sameArray b with
  | true => rfl
  | false =>
    simp only [mem_cons, not_mem_nil, or_false] at orders
    rcases orders with rfl | rfl | rfl | rfl <;>
      simp [apply, isPointer, onPointer, same] at out

theorem sameArray_comm : a.sameArray b = b.sameArray a := by
  simp only [sameArray, Bool.and_eq_decide, eq_comm]

/-- The laws of the order hold for two pointers just if they are equal or their positions differ in
words of 32 bits, unless they have no order at all. -/
theorem orderLaws_iff : OrderLaws a b ↔
    (a.sameArray b = true → a = b ∨ a.position % 2 ^ 32 ≠ b.position % 2 ^ 32) := by
  have equality : eq.Tells a b (a = b) := by
    by_cases same : a = b <;> simp [Tells, apply, isPointer, onPointer, same, holds]
  have subtraction (same : a.sameArray b = true) :
      sub.apply (.pointer a) (.pointer b) = .ok (.int (distance a b)) := by
    simp [apply, isPointer, onPointer, same]
  constructor
  · intro laws same
    obtain ⟨_, equal, _, _, _, _, moved, -, isEqual, -, -, -, -, -, -, subtracted, zero⟩ :=
      laws ⟨lt, by simp, _, apply_order same (by simp)⟩
    cases (subtraction same).symm.trans subtracted
    cases equality.symm.trans isEqual
    rw [distance_eq_zero_iff, decide_eq_true_iff] at zero
    exact Classical.or_iff_not_imp_left.mpr fun differ same => differ (zero.mp same)
  · rintro apart ⟨op, orders, value, out⟩
    have same := sameArray_of_apply orders out
    have backward : b.sameArray a = true := sameArray_comm ▸ same
    have tells {op : BinaryOp} (orders : op ∈ [lt, le, gt, ge]) := apply_order same orders
    refine ⟨_, _, _, _, _, _, _, tells (by simp), equality, tells (by simp), tells (by simp),
      tells (by simp), apply_order backward (by simp), ?_, ?_, subtraction same, ?_⟩
    · have agrees : a = b ↔ compareIndex a.lastIndex? b.lastIndex? = .eq := by
        rw [compareIndex_eq_iff]
        refine ⟨fun equal => equal ▸ rfl, fun positions => (apart same).resolve_right ?_⟩
        simp [position, positions]
      simp only [agrees]
      generalize compareIndex a.lastIndex? b.lastIndex? = order
      cases order <;> decide
    · rw [← compareIndex_swap a.lastIndex?]
      generalize compareIndex a.lastIndex? b.lastIndex? = order
      cases order <;> decide
    · rw [distance_eq_zero_iff, decide_eq_true_iff]
      constructor
      · intro together
        exact (apart same).resolve_right (not_not_intro together)
      · rintro rfl
        rfl

theorem path_of_lastIndex? {place : Place} (element : place.lastIndex? = some pos) :
    place.path = place.path.dropLast ++ [.index pos] := by
  unfold lastIndex? at element
  split at element <;> cases element
  rename_i last
  obtain ⟨front, whole⟩ := List.getLast?_eq_some_iff.mp last
  rw [whole, dropLast_concat]

/-- The distance between a pointer and where it has been moved to is what it has been moved by. -/
theorem distance_offset? (offset : place.offset? n.toInt64 = some moved) :
    moved.sameArray place = true ∧ distance moved place = n := by
  unfold offset? at offset
  split at offset
  · cases offset
  · rename_i pos element
    dsimp only at offset
    split at offset <;> cases offset
    rename_i range
    have whole := path_of_lastIndex? element
    constructor
    · rw [sameArray, whole]
      simp [index, container]
    · have sum : Int64.ofNat ((Int64.ofNat pos).toInt + n.toInt64.toInt).toNat =
          Int64.ofNat pos + n.toInt64 := by
        apply Int64.toInt_inj.mp
        rw [Int64.toInt_ofNat', Int64.toInt_add, Int.toNat_of_nonneg range.1]
      have last (k : Nat) : (place.container.index k).lastIndex? = some k := by
        simp [lastIndex?, index]
      rw [distance, last, element, Option.getD_some, Option.getD_some, sum, Int64.add_comm,
        Int64.add_sub_cancel, Int32.toInt32_toInt64]

/-- The order of pointers keeps its laws for two pointers just if they are equal, or their positions
differ in words of 32 bits, or they have no order at all. And a pointer that has been moved lies as
far from where it was as it has been moved. -/
theorem pointer_order_laws (env : Environment) :
    (∀ a b, OrderLaws a b ↔
      (a.sameArray b = true → a = b ∨ a.position % 2 ^ 32 ≠ b.position % 2 ^ 32)) ∧
    ∀ place n moved, env.operate .add (.pointer place) (.int n) = .ok moved →
      env.operate .sub moved (.pointer place) = .ok (.int n) := by
  refine ⟨fun a b => orderLaws_iff, fun place n moved added => ?_⟩
  obtain ⟨target, found, rfl⟩ : ∃ target, env.offsetPlace place n.toInt64 = .ok target ∧
      .pointer target = moved := by
    change (env.offsetPlace place n.toInt64).map Value.pointer = .ok moved at added
    cases found : env.offsetPlace place n.toInt64 with
    | error =>
      rw [found] at added
      cases added
    | ok target =>
      rw [found] at added
      cases added
      exact ⟨target, rfl, rfl⟩
  have near : target.sameArray place = true ∧ distance target place = n := by
    unfold Environment.offsetPlace at found
    split at found
    · rename_i still
      cases found
      have zero : n = 0 := by
        rw [← n.toInt32_toInt64, still]
        rfl
      exact ⟨by simp [Place.sameArray], by simp [distance, zero]⟩
    · split at found
      · cases found
      · split at found
        · cases found
          exact distance_offset? ‹_›
        · cases found
  simp [Environment.operate, Environment.textOperands, Environment.pointerOffset?, apply, isPointer,
    onPointer, near, Value.wholeNumber?, Value.isNumeric]

/-- Two members of a structure are compared like elements, but none of less, equal and greater
holds for them. -/
theorem members_unordered :
    ¬ OrderLaws ((Place.of (.global 0)).field "x") ((Place.of (.global 0)).field "y") ∧
      OrderLaws ((Place.of (.global 0)).index 3) ((Place.of (.global 0)).index 1) := by
  have laws := (pointer_order_laws {}).1
  constructor
  · rw [laws]
    decide
  · rw [laws]
    decide

end BinaryOp

end Breadboard
