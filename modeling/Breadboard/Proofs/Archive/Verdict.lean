import Breadboard.Proofs.Archive.Delimited
import Mathlib.Data.List.Pairwise

/-!
What the errors about the graph of a file say. A node that is called shared is a child twice, one
that is called dangling refers to a node that does not exist or is an item that does not, and a
file that is called too deep has a way down that is too long. A node that is called cyclic is the
first one that no root leads to: some cycle leads to it, but it need not be on one.
-/

open List

namespace Breadboard

namespace Program

open Relation

variable {prog : Program} {id child parent other : NodeId}

/-- Following child links from a node leads back to it. -/
def OnCycle (prog : Program) (id : NodeId) : Prop := TransGen prog.Child id id

/-- A node that child links lead to from a node on a cycle. -/
def UnderCycle (prog : Program) (id : NodeId) : Prop :=
  ∃ upper, prog.OnCycle upper ∧ ReflTransGen prog.Child id upper

theorem parent_unique (unshared : prog.references.Nodup) (one : prog.Child child parent)
    (two : prog.Child child other) : parent = other := by
  by_contra apart
  rw [references_eq, nodup_flatMap] at unshared
  have : Std.Symm (Function.onFun List.Disjoint fun id => (prog.kind id).children) :=
    ⟨fun _ _ => List.Disjoint.symm⟩
  have disjoint := unshared.2.forall (mem_range.mpr (lt_of_child one))
    (mem_range.mpr (lt_of_child two)) apart
  exact disjoint one two

/-- With one parent each, the nodes above a node are in a row, so a root above it is above all. -/
theorem not_underCycle_of_root (unshared : prog.references.Nodup)
    (isRoot : root ∉ prog.references) (accessible : Acc prog.Child root)
    (below : ReflTransGen prog.Child id root) : ¬ prog.UnderCycle id := by
  rintro ⟨upper, cycle, under⟩
  have unique : Relator.RightUnique prog.Child := fun _ _ _ => parent_unique unshared
  have row : ReflTransGen prog.Child upper root := by
    rcases ReflTransGen.total_of_right_unique unique below under with above | above
    · rcases above.cases_head with rfl | ⟨parent, isChild, -⟩
      · exact .refl
      · exact absurd (mem_references.mpr ⟨parent, isChild⟩) isRoot
    · exact above
  exact Archive.not_ancestor_of_acc (acc_of_descendant row accessible) cycle

/-- What an error about its graph says of an arena. -/
def Explains (prog : Program) : ArchiveError → Prop
  | .danglingNode id =>
      (∃ child, prog.Child child id ∧ prog.nodes.size ≤ child) ∨
        id ∈ prog.items ∧ prog.nodes.size ≤ id
  | .sharedNode id => 2 ≤ prog.references.count id
  | .cyclicNode id => prog.UnderCycle id ∧ ∀ other, prog.UnderCycle other → id ≤ other
  | .tooDeep limit => limit = Archive.maxDepth ∧
      ∃ path, prog.Descends path ∧ Archive.maxDepth < path.length
  | _ => False

end Program

namespace Archive

open Breadboard.Text (Bytes)

variable {claimed children : List NodeId} {count : Nat} {parent : NodeId} {nodes : List Node}
  {error : ArchiveError} {prog : Program} {bytes : Bytes}

theorem claimChildren_error (failed : claimChildren count parent claimed children = .error error) :
    (∃ child ∈ children, count ≤ child ∧ error = .danglingNode parent) ∨
      ∃ child, error = .sharedNode child ∧ 2 ≤ (claimed ++ children).count child := by
  induction children generalizing claimed with
  | nil => cases failed
  | cons child children ih =>
    unfold claimChildren at failed
    split at failed
    · cases failed
      exact .inl ⟨child, mem_cons_self, ‹_›, rfl⟩
    · split at failed
      · rename_i among
        cases failed
        refine .inr ⟨child, rfl, ?_⟩
        have before : 0 < claimed.count child := count_pos_iff.mpr (by simpa using among)
        rw [count_append, count_cons_self]
        omega
      · rcases ih failed with ⟨lost, among, outside, rfl⟩ | ⟨shared, rfl, twice⟩
        · exact .inl ⟨lost, mem_cons_of_mem _ among, outside, rfl⟩
        · refine .inr ⟨shared, rfl, ?_⟩
          rwa [perm_middle.count_eq]

theorem claimAll_error (failed : claimAll count parent claimed nodes = .error error) :
    (∃ index node, nodes[index]? = some node ∧ error = .danglingNode (parent + index) ∧
      ∃ child ∈ node.kind.children, count ≤ child) ∨
    ∃ child, error = .sharedNode child ∧
      2 ≤ (claimed ++ nodes.flatMap (·.kind.children)).count child := by
  induction nodes generalizing parent claimed with
  | nil => cases failed
  | cons node nodes ih =>
    rw [flatMap_cons, ← append_assoc]
    cases first : claimChildren count parent claimed node.kind.children with
        rw [claimAll, first] at failed
    | error =>
      cases failed
      rcases claimChildren_error first with ⟨child, among, outside, rfl⟩ | ⟨child, rfl, twice⟩
      · exact .inl ⟨0, node, rfl, rfl, child, among, outside⟩
      · refine .inr ⟨child, rfl, ?_⟩
        rw [count_append]
        omega
    | ok next =>
      rcases ih failed with ⟨index, lost, found, rfl, outside⟩ | ⟨child, rfl, twice⟩
      · exact .inl ⟨index + 1, lost, found, by rw [Nat.add_right_comm, Nat.add_assoc], outside⟩
      · refine .inr ⟨child, rfl, ?_⟩
        rw [(claimChildren_ok first).1] at twice
        simp only [count_append, count_reverse] at twice ⊢
        omega

/-- The node that is called cyclic is the first that no root leads to. The nodes before it have a
root above them and no cycle; above it there is no root, and so a cycle. -/
theorem explains_cyclic (unshared : prog.references.Nodup)
    (ended : ((rootWalk prog).finish prog).pending = []) {id : NodeId}
    (found : (List.range prog.nodes.size).find? (fun id =>
      !((rootWalk prog).finish prog).reached.contains id) = some id) :
    prog.Explains (.cyclicNode id) := by
  obtain ⟨unreached, inside, earlier⟩ := List.find?_range_eq_some.mp found
  have noRoot : id ∉ ((rootWalk prog).finish prog).reached := by simpa using unreached
  have shallow := rootWalk_pending_eq_nil.mp ended
  constructor
  · rcases Program.exists_root_or_cycle (mem_range.mp inside) with rooted | cycle
    · exact absurd ((mem_rootWalk_reached ended).mpr rooted) noRoot
    · exact cycle
  · intro other under
    by_contra less
    have reached : other ∈ ((rootWalk prog).finish prog).reached := by
      simpa using earlier other (Nat.lt_of_not_le less)
    obtain ⟨root, rootInside, isRoot, below⟩ := (mem_rootWalk_reached ended).mp reached
    exact Program.not_underCycle_of_root unshared isRoot (shallow root rootInside isRoot).acc below
      under

theorem explains_of_checkForest (failed : checkForest prog = .error error) :
    prog.Explains error := by
  cases claims : claimAll prog.nodes.size 0 [] prog.nodes.toList with
  | error fault =>
    rw [checkForest, claims] at failed
    cases failed
    rcases claimAll_error claims with ⟨id, node, found, rfl, child, among, outside⟩ | ⟨_, rfl, twice⟩
    · refine .inl ⟨child, ?_, outside⟩
      rw [Array.getElem?_toList] at found
      simpa [Program.Child, Program.kind, found] using among
    · simpa [Program.Explains, Program.references] using twice
  | ok next =>
    by_cases itemsInside : ∀ item ∈ prog.items, item < prog.nodes.size
    · rw [checkForest_eq claims itemsInside] at failed
      split at failed
      · rename_i ended
        split at failed <;> cases failed
        rename_i found
        obtain ⟨split, -, distinct⟩ := claimAll_ok claims
        have nodup := distinct .nil
        rw [split, append_nil] at nodup
        exact explains_cyclic (nodup_reverse.mp nodup) (List.isEmpty_iff.mp ended) found
      · rename_i pending
        cases failed
        rw [List.isEmpty_iff, rootWalk_pending_eq_nil] at pending
        simp only [Program.Within, not_forall, Nat.not_le] at pending
        obtain ⟨root, -, -, path, -, descends, long⟩ := pending
        exact ⟨rfl, path, descends, long⟩
    · simp only [not_forall, Nat.not_lt] at itemsInside
      obtain ⟨item, among, outside⟩ := itemsInside
      cases lost : prog.items.find? (prog.nodes.size ≤ ·) with
      | none => exact absurd (decide_eq_true outside) (List.find?_eq_none.mp lost item among)
      | some first =>
        simp only [checkForest, claims, lost] at failed
        cases failed
        have beyond := List.find?_some lost
        exact .inr ⟨mem_of_find?_eq_some lost, of_decide_eq_true beyond⟩

/-- An error about the graph comes from an arena that the bytes spell. -/
theorem checkForest_of_decode (failed : decode bytes = .error error)
    (fault : error.isGraphFault = true) :
    ∃ prog source, StateT.run Read.program { rest := bytes } = .ok (prog, source) ∧
      checkForest prog = .error error := by
  cases read : StateT.run Read.program { rest := bytes } with
  | ok found =>
    obtain ⟨prog, source⟩ := found
    refine ⟨prog, source, rfl, ?_⟩
    rw [decode, read] at failed
    change (checkForest prog >>= fun _ => .ok prog) = _ at failed
    cases checked : checkForest prog with rw [checked] at failed
    | error =>
      cases failed
      rfl
    | ok => cases failed
  | error =>
    rw [decode, read] at failed
    cases failed
    cases fault.symm.trans (Read.program_plain read)

/-- Errors about the graph of a file are true of the arena that its bytes spell. One that calls a
node cyclic names the first node that is on a cycle or under one; that node is on a cycle just if
the first node of all those is. -/
theorem graph_faults_explained (failed : decode bytes = .error error)
    (fault : error.isGraphFault = true) :
    ∃ program source, StateT.run Read.program { rest := bytes } = .ok (program, source) ∧
      program.Explains error ∧ ∀ id, error = .cyclicNode id → (program.OnCycle id ↔
        ∃ first, program.OnCycle first ∧ ∀ other, program.UnderCycle other → first ≤ other) := by
  obtain ⟨program, source, read, checked⟩ := checkForest_of_decode failed fault
  have explains := explains_of_checkForest checked
  refine ⟨program, source, read, explains, ?_⟩
  rintro id rfl
  obtain ⟨under, least⟩ := explains
  constructor
  · intro cycle
    exact ⟨id, cycle, least⟩
  · rintro ⟨first, cycle, smallest⟩
    have same : id = first :=
      Nat.le_antisymm (least first ⟨first, cycle, .refl⟩) (smallest id under)
    exact same ▸ cycle

/-- The nodes 1 and 2 are on a cycle, and node 0 is a leaf under it. -/
def pendant : Program where
  nodes := #[⟨.nullLiteral, ⟨1, 1⟩⟩, ⟨.binary .add 2 0, ⟨1, 3⟩⟩, ⟨.unary .neg 1, ⟨1, 5⟩⟩]
  items := []

/-- The leaf is called its own ancestor, which it is not. -/
theorem pendant_blamed :
    decode (encode pendant) = .error (.cyclicNode 0) ∧ ¬ pendant.OnCycle 0 ∧
      ∃ program source, StateT.run Read.program { rest := encode pendant } = .ok (program, source) ∧
        program.Explains (.cyclicNode 0) := by
  have failed : decode (encode pendant) = .error (.cyclicNode 0) := by decide +kernel
  obtain ⟨program, source, read, explains, -⟩ := graph_faults_explained failed rfl
  refine ⟨failed, ?_, program, source, read, explains⟩
  intro cycle
  obtain ⟨parent, -, isChild⟩ := Relation.TransGen.tail'_iff.mp cycle
  cases isChild

end Archive

end Breadboard
