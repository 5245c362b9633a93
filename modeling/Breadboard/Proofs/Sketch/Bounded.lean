import Breadboard.Proofs.Sketch.Forest
import Mathlib.Data.Fintype.Card
import Mathlib.Order.WellFounded

/-!
Forests of bounded depth. A way down an arena goes from a node to a child of it, and on to a
child of that. In a forest without cycles every node lies on a way down from a node that is
nobody's child, and if none of these ways is long, going down comes to an end everywhere.
-/

namespace Breadboard.Program

variable {depth : Nat} {root : NodeId}

open Relation (ReflTransGen TransGen)

/-- Each node of the list is a child of the one before it. -/
def Descends (prog : Program) (path : List NodeId) : Prop :=
  path.IsChain fun parent child => prog.Child child parent

/-- No way down from a node has more than `levels` nodes. -/
def Within (prog : Program) (levels : Nat) (id : NodeId) : Prop :=
  ∀ path, path.head? = some id → prog.Descends path → path.length ≤ levels

/-- The numbers that nodes and items refer to are those of nodes, no node is referred to twice,
none is its own ancestor, and no way down from a node without a parent has more than `depth`
nodes. -/
structure IsBoundedForest (prog : Program) (depth : Nat) : Prop where
  inside : ∀ child ∈ prog.references, child < prog.nodes.size
  itemsInside : ∀ item ∈ prog.items, item < prog.nodes.size
  unshared : prog.references.Nodup
  acyclic : ∀ id, ¬ TransGen prog.Child id id
  shallow : ∀ root, root < prog.nodes.size → root ∉ prog.references →
    prog.Within depth root

variable {prog : Program} {id : NodeId} {levels : Nat}

@[simp] theorem not_within_zero : ¬ prog.Within 0 id := by
  intro within
  exact absurd (within [id] rfl (.singleton id)) (by simp)

@[simp] theorem within_succ :
    prog.Within (levels + 1) id ↔
      ∀ child, prog.Child child id → prog.Within levels child := by
  constructor
  · intro within child isChild path starts descends
    cases path with
    | nil => cases starts
    | cons first path =>
      cases starts
      have longer := within (id :: child :: path) rfl
        (List.isChain_cons_cons.mpr ⟨isChild, descends⟩)
      exact Nat.le_of_succ_le_succ longer
  · intro within path starts descends
    cases path with
    | nil => cases starts
    | cons first path =>
      cases starts
      cases path with
      | nil => exact Nat.succ_le_succ (Nat.zero_le levels)
      | cons child path =>
        obtain ⟨isChild, descends⟩ := List.isChain_cons_cons.mp descends
        exact Nat.succ_le_succ (within child isChild (child :: path) rfl descends)

/-- Where all ways down are bounded, going down comes to an end. -/
theorem Within.acc (within : prog.Within levels id) : Acc prog.Child id := by
  induction levels generalizing id with
  | zero => exact absurd within not_within_zero
  | succ levels ih =>
    exact ⟨id, fun child isChild => ih (within_succ.mp within child isChild)⟩

theorem Within.mono (within : prog.Within levels id) (fewer : levels ≤ more) :
    prog.Within more id :=
  fun path starts descends => Nat.le_trans (within path starts descends) fewer

theorem Within.descendant (within : prog.Within levels root)
    (below : ReflTransGen prog.Child id root) : prog.Within levels id := by
  induction below with
  | refl => exact within
  | tail _ isChild ih =>
    cases levels with
    | zero => exact absurd within not_within_zero
    | succ levels =>
      exact ih ((within_succ.mp within _ isChild).mono (Nat.le_succ levels))

theorem acc_of_descendant (below : ReflTransGen prog.Child id root)
    (accessible : Acc prog.Child root) : Acc prog.Child id := by
  induction below with
  | refl => exact accessible
  | tail _ isChild ih => exact ih (accessible.inv isChild)

/-- Going up from a node ends at one that is nobody's child, or comes to a cycle. -/
theorem exists_root_or_cycle (inside : id < prog.nodes.size) :
    (∃ root, root < prog.nodes.size ∧ root ∉ prog.references ∧ ReflTransGen prog.Child id root) ∨
    ∃ upper, TransGen prog.Child upper upper ∧ ReflTransGen prog.Child id upper := by
  refine or_iff_not_imp_right.mpr fun acyclic => ?_
  -- The arena is finite, so being an ancestor is well-founded on the nodes above this one.
  let Above (upper lower : Fin prog.nodes.size) : Prop :=
    ReflTransGen prog.Child id lower.1 ∧ TransGen prog.Child lower.1 upper.1
  have : IsTrans _ Above := ⟨fun _ _ _ upper lower => ⟨lower.1, lower.2.trans upper.2⟩⟩
  have : Std.Irrefl Above := ⟨fun upper above => acyclic ⟨upper.1, above.2, above.1⟩⟩
  have climbs : WellFounded Above := Finite.wellFounded_of_trans_of_irrefl Above
  have climb (start : Fin prog.nodes.size) (below : ReflTransGen prog.Child id start.1) :
      ∃ root, root < prog.nodes.size ∧ root ∉ prog.references ∧
        ReflTransGen prog.Child id root := by
    induction start using climbs.induction with
    | _ lower ih =>
      by_cases referred : lower.1 ∈ prog.references
      · obtain ⟨parent, isChild⟩ := mem_references.mp referred
        exact ih ⟨parent, lt_of_child isChild⟩ ⟨below, .single isChild⟩ (below.tail isChild)
      · exact ⟨lower.1, lower.2, referred, below⟩
  exact climb ⟨id, inside⟩ .refl

theorem exists_root (acyclic : ∀ id, ¬ TransGen prog.Child id id) (inside : id < prog.nodes.size) :
    ∃ root, root < prog.nodes.size ∧ root ∉ prog.references ∧ ReflTransGen prog.Child id root :=
  (exists_root_or_cycle inside).resolve_right fun ⟨upper, cycle, _⟩ => acyclic upper cycle

theorem length_le_of_roots (positive : 0 < depth) (acyclic : ∀ id, ¬ TransGen prog.Child id id)
    (shallow : ∀ root, root < prog.nodes.size → root ∉ prog.references →
      prog.Within depth root) (descends : prog.Descends path) : path.length ≤ depth := by
  match path with
  | [] => exact Nat.zero_le depth
  | [_] => exact positive
  | first :: second :: rest =>
    have isChild := (List.isChain_cons_cons.mp descends).1
    obtain ⟨root, inside, isRoot, below⟩ := exists_root acyclic (lt_of_child isChild)
    exact (shallow root inside isRoot).descendant below _ rfl descends

theorem IsBoundedForest.isForest (bounded : prog.IsBoundedForest depth) : prog.IsForest where
  inside := bounded.inside
  unshared := bounded.unshared
  wellFounded := by
    refine ⟨fun id => ?_⟩
    by_cases inside : id < prog.nodes.size
    · obtain ⟨root, rootInside, isRoot, below⟩ := exists_root bounded.acyclic inside
      exact acc_of_descendant below (bounded.shallow root rootInside isRoot).acc
    · exact ⟨id, fun child isChild => absurd (lt_of_child isChild) inside⟩

/-! Arenas in which children come before their parents. -/

theorem not_ancestor_of_ordered (ordered : ∀ child parent, prog.Child child parent → child < parent)
    (id : NodeId) : ¬ TransGen prog.Child id id := by
  have before {lower upper : NodeId} (below : TransGen prog.Child lower upper) : lower < upper := by
    induction below with
    | single isChild => exact ordered _ _ isChild
    | tail _ isChild ih =>
      exact Nat.lt_trans ih (ordered _ _ isChild)
  exact fun cycle => Nat.lt_irrefl id (before cycle)

theorem within_of_ordered (ordered : ∀ child parent, prog.Child child parent → child < parent)
    (id : NodeId) : prog.Within (id + 1) id := by
  induction id using Nat.strongRecOn with
  | _ id ih =>
    refine within_succ.mpr fun child isChild => ?_
    have before := ordered child id isChild
    exact (ih child before).mono before

/-- An arena of no more nodes than the depth is a bounded forest if children come before their
parents. -/
theorem isBoundedForest_of_ordered (few : prog.nodes.size ≤ depth)
    (ordered : ∀ parent < prog.nodes.size, ∀ child ∈ (prog.kind parent).children,
      child < parent) (unshared : prog.references.Nodup)
    (itemsInside : ∀ item ∈ prog.items, item < prog.nodes.size) : prog.IsBoundedForest depth := by
  have before (child parent : NodeId) (isChild : prog.Child child parent) : child < parent :=
    ordered parent (lt_of_child isChild) child isChild
  refine ⟨?_, itemsInside, unshared, not_ancestor_of_ordered before, ?_⟩
  · intro child referred
    obtain ⟨parent, isChild⟩ := mem_references.mp referred
    exact Nat.lt_trans (before child parent isChild) (lt_of_child isChild)
  · intro root inside _
    exact (within_of_ordered before root).mono (Nat.le_trans inside few)

end Breadboard.Program
