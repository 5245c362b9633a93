import Breadboard.Proofs.Machine.Cost
import Breadboard.Proofs.Typing.Inhabits

/-!
The recursions inside a step come to their leaves. The type of an expression and the value of a
label go down a tree of the program, and the default and the size of a type go down structures
that do not contain themselves. None of them is as deep as the bound that it runs under, so a
higher bound changes nothing.
-/

open List

namespace Breadboard

open NodeKind

namespace Firmware

variable {fw : Firmware} {env : Environment} {id : NodeId}

theorem typeBy_congr (agree : ∀ child, fw.program.Child child id → typeOf child = other child) :
    fw.typeBy env typeOf id = fw.typeBy env other id := by
  unfold Program.Child at agree
  unfold typeBy
  cases kind : fw.program.kind id with
  | index | member | incDec | binary | ternary | assign | compoundAssign =>
    rw [kind] at agree
    simp only [children, mem_cons, not_mem_nil, or_false, forall_eq_or_imp,
      forall_eq] at agree
    simp only [agree]
  | unary op operand =>
    rw [kind] at agree
    simp only [children, mem_cons, not_mem_nil, or_false, forall_eq] at agree
    cases op <;> simp only [agree]
  | initList items =>
    rw [kind] at agree
    cases items with
    | nil => rfl
    | cons first items => simp only [agree first (by simp [children])]
  | _ => rfl

theorem typeAt_eq (sizing : fw.program.Sizing) (enough : sizing.size id ≤ bound)
    (enoughToo : sizing.size id ≤ other) : fw.typeAt env bound id = fw.typeAt env other id := by
  have positive := sizing.size_pos id
  induction bound generalizing id other with
  | zero => omega
  | succ bound ih =>
    cases other with
    | zero => omega
    | succ other =>
      apply typeBy_congr
      intro child isChild
      have smaller := sizing.counts.child_lt isChild
      exact ih (by omega) (by omega) (sizing.size_pos child)

theorem labelAt_eq (sizing : fw.program.Sizing) (enough : sizing.size id ≤ bound)
    (enoughToo : sizing.size id ≤ other) : fw.labelAt env bound id = fw.labelAt env other id := by
  have positive := sizing.size_pos id
  induction bound generalizing id other with
  | zero => omega
  | succ bound ih =>
    cases other with
    | zero => omega
    | succ other =>
      have below (child : NodeId) (isChild : fw.program.Child child id) :
          fw.labelAt env bound child = fw.labelAt env other child := by
        have smaller := sizing.counts.child_lt isChild
        exact ih (by omega) (by omega) (sizing.size_pos child)
      unfold Program.Child at below
      unfold labelAt
      cases kind : fw.program.kind id with
      | unary op =>
        rw [kind] at below
        simp only [children, mem_cons, not_mem_nil, or_false, forall_eq]
          at below
        cases op <;> simp only [below]
      | binary | cast =>
        rw [kind] at below
        simp only [children, mem_cons, not_mem_nil, or_false,
          forall_eq_or_imp, forall_eq] at below
        simp only [below]
      | _ => rfl

/-- Types and labels are found under any bound above the number of nodes. -/
theorem bounds_suffice (forest : fw.program.IsForest) (env : Environment) (id : NodeId)
    (enough : fw.program.nodes.size < bound) : fw.typeAt env bound id = fw.staticType env id ∧
      fw.labelAt env bound id = fw.labelValue env id := by
  have most := forest.sizing.size_le id
  exact ⟨typeAt_eq forest.sizing (by omega) (by omega),
    labelAt_eq forest.sizing (by omega) (by omega)⟩

end Firmware

namespace DataType

variable {structs : StructTable} {type : DataType}

theorem defaultAt_eq (acyclic : Acyclic structs) (enclosed : Enclosed structs outer type)
    (enough : structs.length < bound + outer.length)
    (enoughToo : structs.length < other + outer.length) :
    type.defaultAt structs bound = type.defaultAt structs other ∧
      type.sizeAt structs bound = type.sizeAt structs other := by
  have fewer := enclosed.length_le
  induction bound generalizing outer type other with
  | zero => omega
  | succ bound ih =>
    cases other with
    | zero => omega
    | succ other =>
      have fields (depth : type.pointerDepth = 0) (name : String)
          (base : type.base = .record name) :
          ∀ field ∈ (structs.lookup name).getD [],
            field.type.defaultAt structs bound = field.type.defaultAt structs other ∧
              field.type.sizeAt structs bound = field.type.sizeAt structs other := by
        intro field inside
        cases found : structs.lookup name with rw [found] at inside
        | none => cases inside
        | some layout =>
          have deeper := enclosed.field acyclic base depth found inside
          refine ih deeper ?_ ?_ deeper.length_le
          · rw [length_cons]
            omega
          · rw [length_cons]
            omega
      unfold defaultAt sizeAt
      by_cases pointer : 0 < type.pointerDepth
      · simp only [pointer, if_true, and_self]
      · simp only [pointer, if_false]
        cases base : type.base with
        | record name =>
          have same := fields (by simpa using pointer) name base
          dsimp only
          rw [map_congr_left fun field inside => by rw [(same field inside).1],
            map_congr_left fun field inside => (same field inside).2]
          exact ⟨rfl, rfl⟩
        | _ => exact ⟨rfl, rfl⟩

/-- Defaults and sizes are found under any bound above the number of structures. -/
theorem bounds_suffice (acyclic : Acyclic structs) (type : DataType)
    (enough : structs.length < bound) : type.defaultAt structs bound = type.default structs ∧
      type.sizeAt structs bound = type.size structs := by
  have outermost : Enclosed structs [] type := ⟨.nil, by simp, by simp⟩
  exact defaultAt_eq acyclic outermost enough (Nat.lt_succ_self _)

end DataType

end Breadboard
