import Breadboard.Sketch.Program
import Mathlib.Algebra.BigOperators.Fin
import Mathlib.Algebra.Order.BigOperators.Group.Finset
import Mathlib.Data.Finset.Max

/-!
Arenas that are forests. No node is among the children of two nodes, or twice among those of
one, and going from nodes to their children comes to an end. Then the nodes below a node can be
counted, and there are no more of them than the arena has.
-/

open List

namespace Breadboard.Program

variable {prog : Program} {child : NodeId}

def Child (prog : Program) (child parent : NodeId) : Prop :=
  child ∈ (prog.kind parent).children

/-- The children of all nodes in the order of the arena. -/
def references (prog : Program) : List NodeId :=
  prog.nodes.toList.flatMap (·.kind.children)

structure IsForest (prog : Program) : Prop where
  inside : ∀ child ∈ prog.references, child < prog.nodes.size
  unshared : prog.references.Nodup
  wellFounded : WellFounded prog.Child

theorem kind_eq_empty {id : NodeId} (outside : prog.nodes.size ≤ id) : prog.kind id = .empty := by
  simp [kind, outside]

theorem lt_of_child (isChild : prog.Child child parent) : parent < prog.nodes.size := by
  by_contra outside
  rw [Child, kind_eq_empty (Nat.le_of_not_lt outside)] at isChild
  cases isChild

theorem mem_references : child ∈ prog.references ↔ ∃ parent, prog.Child child parent := by
  unfold references Child kind
  rw [mem_flatMap]
  constructor
  · rintro ⟨node, inside, isChild⟩
    obtain ⟨parent, found⟩ := mem_iff_getElem?.mp inside
    refine ⟨parent, ?_⟩
    rwa [← Array.getElem?_toList, found]
  · rintro ⟨parent, isChild⟩
    cases found : prog.nodes[parent]? with rw [found] at isChild
    | none => cases isChild
    | some node =>
      rw [← Array.getElem?_toList] at found
      exact ⟨node, mem_of_getElem? found, isChild⟩

theorem references_eq (prog : Program) : prog.references =
      (List.range prog.nodes.size).flatMap fun id => (prog.kind id).children := by
  have kinds : prog.nodes.toList.map Node.kind = (List.range prog.nodes.size).map prog.kind := by
    refine ext_getElem (by simp) fun id inside _ => ?_
    have found : id < prog.nodes.size := by simpa using inside
    simp [kind, found]
  rw [references, ← flatMap_map, kinds, flatMap_map]

def Counts (prog : Program) (size : NodeId → Nat) : Prop :=
  ∀ id, size id = 1 + ((prog.kind id).children.map size).sum

namespace Counts

variable {prog : Program} {size : NodeId → Nat}

theorem child_lt (counts : prog.Counts size)
    (isChild : prog.Child child parent) : size child < size parent := by
  have among := le_sum_of_mem (mem_map_of_mem (f := size) isChild)
  rw [counts parent]
  omega

theorem sum_eq (counts : prog.Counts size) : ∑ id ∈ Finset.range prog.nodes.size, size id =
      prog.nodes.size + (prog.references.map size).sum := by
  have below : ∑ id ∈ Finset.range prog.nodes.size,
      ((prog.kind id).children.map size).sum = (prog.references.map size).sum := by
    rw [← toFinset_range, sum_toFinset _ nodup_range, references_eq,
      map_flatMap, flatMap_def, sum_flatten, map_map, Function.comp_def]
  rw [← below, Finset.sum_congr rfl fun id _ => counts id, Finset.sum_add_distrib]
  simp

/-- No tree of a forest has more nodes than the arena. A number outside the arena counts as one
node. -/
theorem le (counts : prog.Counts size) (forest : prog.IsForest) (id : NodeId) :
    size id ≤ prog.nodes.size + 1 := by
  by_cases inside : id < prog.nodes.size
  · obtain ⟨largest, inArena, isLargest⟩ :=
      (Finset.range prog.nodes.size).exists_max_image size ⟨id, Finset.mem_range.mpr inside⟩
    -- The largest tree is below no other node, so all references are to other trees.
    have others : prog.references.toFinset ⊆ (Finset.range prog.nodes.size).erase largest := by
      intro child among
      rw [mem_toFinset] at among
      have inRange := Finset.mem_range.mpr (forest.inside child among)
      refine Finset.mem_erase.mpr ⟨?_, inRange⟩
      rintro rfl
      obtain ⟨parent, isChild⟩ := mem_references.mp among
      have atMost := isLargest parent (Finset.mem_range.mpr (lt_of_child isChild))
      exact absurd (counts.child_lt isChild) (Nat.not_lt.mpr atMost)
    have counted := counts.sum_eq
    rw [← sum_toFinset _ forest.unshared, ← Finset.add_sum_erase _ size inArena] at counted
    have fewer : prog.references.toFinset.sum size ≤ _ := Finset.sum_le_sum_of_subset others
    have bound := isLargest id (Finset.mem_range.mpr inside)
    omega
  · rw [counts id, kind_eq_empty (Nat.le_of_not_lt inside)]
    simp [NodeKind.children]

end Counts

noncomputable def treeSize {prog : Program} (wellFounded : WellFounded prog.Child) :
    NodeId → Nat :=
  wellFounded.fix fun id sizes =>
    1 + ((prog.kind id).children.attach.map fun child => sizes child.1 child.2).sum

theorem treeSize_counts (wellFounded : WellFounded prog.Child) :
    prog.Counts (treeSize wellFounded) := by
  intro id
  rw [treeSize, WellFounded.fix_eq, ← treeSize]
  congr 2
  exact attach_map_val (f := treeSize wellFounded)

end Breadboard.Program
