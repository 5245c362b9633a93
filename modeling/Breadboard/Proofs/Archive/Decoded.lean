import Breadboard.Archive
import Breadboard.Proofs.Machine.Answer
import Breadboard.Proofs.Sketch.Bounded

/-!
Stored programs are the forests of bounded depth. The check that follows the reading collects the
children of all nodes, and walks from the nodes without a parent down to all others. The walk
comes to an end on any arena; it leaves nothing pending just if no way down is too long, and then
it has reached all that lies below its start.
-/

open List

namespace Breadboard.Archive

variable {claimed : List NodeId} {count : Nat} {parent : NodeId} {children next : List NodeId}
  {nodes : List Node} {bytes : Text.Bytes}

theorem claimChildren_ok (succeeded : claimChildren count parent claimed children = .ok next) :
    next = children.reverse ++ claimed ∧ (∀ child ∈ children, child < count) ∧
      (claimed.Nodup → next.Nodup) := by
  induction children generalizing claimed with
  | nil =>
    cases succeeded
    exact ⟨rfl, nofun, id⟩
  | cons child children ih =>
    unfold claimChildren at succeeded
    split at succeeded
    · cases succeeded
    · rename_i inside
      split at succeeded
      · cases succeeded
      · rename_i unclaimed
        obtain ⟨split, exist, distinct⟩ := ih succeeded
        refine ⟨by simp [split], ?_, ?_⟩
        · exact forall_mem_cons.mpr ⟨Nat.lt_of_not_le inside, exist⟩
        · intro nodup
          exact distinct (nodup_cons.mpr ⟨by simpa using unclaimed, nodup⟩)

theorem claimAll_ok (succeeded : claimAll count parent claimed nodes = .ok next) :
    next = (nodes.flatMap (·.kind.children)).reverse ++ claimed ∧
      (∀ child ∈ nodes.flatMap (·.kind.children), child < count) ∧
      (claimed.Nodup → next.Nodup) := by
  induction nodes generalizing parent claimed with
  | nil =>
    cases succeeded
    exact ⟨rfl, nofun, id⟩
  | cons node nodes ih =>
    obtain ⟨between, first, rest⟩ := bind_eq_ok.mp succeeded
    obtain ⟨firstSplit, firstExist, firstDistinct⟩ := claimChildren_ok first
    obtain ⟨restSplit, restExist, restDistinct⟩ := ih rest
    refine ⟨by simp [restSplit, firstSplit], ?_, fun nodup => restDistinct (firstDistinct nodup)⟩
    rw [flatMap_cons, forall_mem_append]
    exact ⟨firstExist, restExist⟩

theorem claimChildren_of_nodup (inside : ∀ child ∈ children, child < count)
    (distinct : (children.reverse ++ claimed).Nodup) :
    claimChildren count parent claimed children = .ok (children.reverse ++ claimed) := by
  induction children generalizing claimed with
  | nil => rfl
  | cons child children ih =>
    obtain ⟨exists_, insideRest⟩ := forall_mem_cons.mp inside
    rw [reverse_cons, append_assoc, singleton_append] at distinct ⊢
    have unclaimed : child ∉ claimed := (nodup_cons.mp distinct.of_append_right).1
    rw [claimChildren, if_neg (Nat.not_le.mpr exists_), if_neg (by simpa using unclaimed)]
    exact ih insideRest distinct

theorem claimAll_of_nodup (inside : ∀ child ∈ nodes.flatMap (·.kind.children), child < count)
    (distinct : ((nodes.flatMap (·.kind.children)).reverse ++ claimed).Nodup) :
    claimAll count parent claimed nodes =
      .ok ((nodes.flatMap (·.kind.children)).reverse ++ claimed) := by
  induction nodes generalizing parent claimed with
  | nil => rfl
  | cons node nodes ih =>
    rw [flatMap_cons, forall_mem_append] at inside
    rw [flatMap_cons, reverse_append, append_assoc] at distinct ⊢
    rw [claimAll, claimChildren_of_nodup inside.1 distinct.of_append_right]
    exact ih inside.2 distinct

namespace Walk

variable {prog : Program} {walk : Walk}

theorem wellFounded_next? (prog : Program) :
    WellFounded fun next walk => next? prog walk = some next := by
  refine Subrelation.wf ?_ (measure (work prog)).wf
  intro next walk visited
  exact Nat.lt_of_lt_of_eq (Nat.lt_succ_self _) (work_eq visited).symm

theorem finish_stops (prog : Program) (walk : Walk) :
    Relation.ReflTransGen (fun walk next => next? prog walk = some next) walk
      (walk.finish prog) ∧ (walk.finish prog).next? prog = none := by
  fun_induction finish prog walk with
  | case1 walk stopped => exact ⟨.refl, stopped⟩
  | case2 walk next visited ih =>
    exact ⟨ih.1.head visited, ih.2⟩

theorem next?_eq_none (stopped : walk.next? prog = none) : walk.pending = [] ∨
      ∃ id level rest, walk.pending = (id, level) :: rest ∧ maxDepth < level := by
  unfold next? at stopped
  split at stopped
  · exact .inl ‹_›
  · split at stopped
    · exact .inr ⟨_, _, _, ‹_›, ‹_›⟩
    · cases stopped

theorem next?_eq_some {next : Walk} (visited : walk.next? prog = some next) :
    ∃ id level rest, walk.pending = (id, level) :: rest ∧ level ≤ maxDepth ∧
      next = ⟨(prog.kind id).children.map (·, level + 1) ++ rest, id :: walk.reached⟩ := by
  unfold next? at visited
  split at visited
  · cases visited
  · split at visited <;> cases visited
    exact ⟨_, _, _, ‹_›, Nat.le_of_not_lt ‹_›, rfl⟩

theorem pending_finish_eq_nil : (walk.finish prog).pending = [] ↔
      ∀ entry ∈ walk.pending, prog.Within (maxDepth + 1 - entry.2) entry.1 := by
  fun_induction finish prog walk with
  | case1 walk stopped =>
    rcases next?_eq_none stopped with empty | ⟨id, level, rest, pending, tooDeep⟩
    · simp [empty]
    · have noLevel : maxDepth + 1 - level = 0 := by omega
      simp [pending, noLevel]
  | case2 walk next visited ih =>
    obtain ⟨id, level, rest, pending, shallow, rfl⟩ := next?_eq_some visited
    have levels : maxDepth + 1 - level = maxDepth - level + 1 := by omega
    rw [ih, pending, forall_mem_append, forall_mem_map,
      forall_mem_cons, levels, Program.within_succ]
    simp only [Nat.add_sub_add_right]
    rfl

theorem mem_reached_finish {id : NodeId} (ended : (walk.finish prog).pending = []) :
    id ∈ (walk.finish prog).reached ↔ id ∈ walk.reached ∨
      ∃ entry ∈ walk.pending, Relation.ReflTransGen prog.Child id entry.1 := by
  fun_induction finish prog walk with
  | case1 walk stopped => simp [ended]
  | case2 walk next visited ih =>
    obtain ⟨top, level, rest, pending, -, rfl⟩ := next?_eq_some visited
    have below : Relation.ReflTransGen prog.Child id top ↔ id = top ∨
        ∃ child ∈ (prog.kind top).children, Relation.ReflTransGen prog.Child id child := by
      rw [Relation.ReflTransGen.cases_tail_iff, eq_comm]
      simp only [Program.Child, and_comm]
    have entries : (∃ entry ∈ (prog.kind top).children.map (·, level + 1) ++ rest,
        Relation.ReflTransGen prog.Child id entry.1) ↔
        (∃ child ∈ (prog.kind top).children, Relation.ReflTransGen prog.Child id child) ∨
          ∃ entry ∈ rest, Relation.ReflTransGen prog.Child id entry.1 := by
      simp [or_and_right, exists_or]
    rw [ih ended, pending, entries, exists_mem_cons_iff, below,
      mem_cons, or_assoc, or_left_comm, or_assoc]

end Walk

variable {prog : Program}

def rootWalk (prog : Program) : Walk where
  pending := ((List.range prog.nodes.size).filter fun id =>
    !prog.references.contains id).map (·, 1)

theorem checkForest_eq (claims : claimAll prog.nodes.size 0 [] prog.nodes.toList = .ok claimed)
    (itemsInside : ∀ item ∈ prog.items, item < prog.nodes.size) : checkForest prog =
      if ((rootWalk prog).finish prog).pending.isEmpty then
        match (List.range prog.nodes.size).find? fun id =>
          !((rootWalk prog).finish prog).reached.contains id with
        | some id => .error (.cyclicNode id)
        | none => .ok ()
      else .error (.tooDeep maxDepth) := by
  have split := (claimAll_ok claims).1
  have none : prog.items.find? (prog.nodes.size ≤ ·) = none := by simpa using itemsInside
  have start : rootWalk prog = ⟨((List.range prog.nodes.size).filter fun id =>
      !claimed.contains id).map (·, 1), []⟩ := by
    rw [split, append_nil]
    simp only [rootWalk, Program.references, contains_reverse]
  simp only [checkForest, claims, none, start]
  rfl

/-- The walk of the check leaves nothing pending just if no way down from a root is too long. -/
theorem rootWalk_pending_eq_nil : ((rootWalk prog).finish prog).pending = [] ↔
      ∀ root, root < prog.nodes.size → root ∉ prog.references →
        prog.Within maxDepth root := by
  rw [Walk.pending_finish_eq_nil, rootWalk, forall_mem_map]
  simp

theorem mem_rootWalk_reached {id : NodeId} (ended : ((rootWalk prog).finish prog).pending = []) :
    id ∈ ((rootWalk prog).finish prog).reached ↔
      ∃ root, root < prog.nodes.size ∧ root ∉ prog.references ∧
        Relation.ReflTransGen prog.Child id root := by
  rw [Walk.mem_reached_finish ended]
  simp [rootWalk, and_assoc]

theorem not_ancestor_of_acc {id : NodeId} (accessible : Acc prog.Child id) :
    ¬ Relation.TransGen prog.Child id id := by
  induction accessible.transGen with
  | intro id _ ih =>
    intro cycle
    exact ih id cycle (accessible.inv_of_transGen cycle) cycle

theorem isBoundedForest_of_checkForest (checked : checkForest prog = .ok ()) :
    prog.IsBoundedForest maxDepth := by
  obtain ⟨claimed, claims, afterClaims⟩ := bind_eq_ok.mp checked
  obtain ⟨split, inside, distinct⟩ := claimAll_ok claims
  have itemsInside : ∀ item ∈ prog.items, item < prog.nodes.size := by
    split at afterClaims
    · cases afterClaims
    · rename_i noneOutside
      intro item among
      exact Nat.lt_of_not_le fun outside =>
        List.find?_eq_none.mp noneOutside item among (decide_eq_true outside)
  rw [checkForest_eq claims itemsInside] at checked
  split at checked
  · rename_i ended
    replace ended := List.isEmpty_iff.mp ended
    split at checked
    · cases checked
    · rename_i allReached
      have shallow := rootWalk_pending_eq_nil.mp ended
      refine ⟨inside, itemsInside, ?_, ?_, shallow⟩
      · have nodup := distinct .nil
        rw [split, append_nil] at nodup
        exact nodup_reverse.mp nodup
      · intro id cycle
        obtain ⟨child, -, isChild⟩ := Relation.TransGen.tail'_iff.mp cycle
        have found := List.find?_eq_none.mp allReached id
          (mem_range.mpr (Program.lt_of_child isChild))
        obtain ⟨root, rootInside, isRoot, below⟩ :=
          (mem_rootWalk_reached ended).mp (by simpa using found)
        have accessible := Program.acc_of_descendant below (shallow root rootInside isRoot).acc
        exact not_ancestor_of_acc accessible cycle
  · cases checked

theorem checkForest_of_isBoundedForest (bounded : prog.IsBoundedForest maxDepth) :
    checkForest prog = .ok () := by
  have claims : claimAll prog.nodes.size 0 [] prog.nodes.toList = .ok _ :=
    claimAll_of_nodup bounded.inside
      ((append_nil _).symm ▸ nodup_reverse.mpr bounded.unshared)
  have ended := rootWalk_pending_eq_nil.mpr bounded.shallow
  have allReached : (List.range prog.nodes.size).find? (fun id =>
      !((rootWalk prog).finish prog).reached.contains id) = none := by
    rw [List.find?_eq_none]
    intro id among
    have reached := (mem_rootWalk_reached ended).mpr
      (Program.exists_root bounded.acyclic (mem_range.mp among))
    simpa using reached
  rw [checkForest_eq claims bounded.itemsInside, if_pos (List.isEmpty_iff.mpr ended), allReached]

theorem checkForest_eq_tooDeep (inside : ∀ child ∈ prog.references, child < prog.nodes.size)
    (itemsInside : ∀ item ∈ prog.items, item < prog.nodes.size) (unshared : prog.references.Nodup)
    (acyclic : ∀ id, ¬ Relation.TransGen prog.Child id id) (descends : prog.Descends path)
    (long : maxDepth < path.length) : checkForest prog = .error (.tooDeep maxDepth) := by
  have claims : claimAll prog.nodes.size 0 [] prog.nodes.toList = .ok _ :=
    claimAll_of_nodup inside ((append_nil _).symm ▸ nodup_reverse.mpr unshared)
  have pending : ¬ ((rootWalk prog).finish prog).pending.isEmpty := by
    rw [List.isEmpty_iff, rootWalk_pending_eq_nil]
    intro shallow
    exact Nat.not_lt_of_le (Program.length_le_of_roots (by decide) acyclic shallow descends) long
  rw [checkForest_eq claims itemsInside, if_neg pending]

theorem decode_eq_ok : decode bytes = .ok prog ↔
      (∃ source, StateT.run Read.program { rest := bytes } = .ok (prog, source)) ∧
        checkForest prog = .ok () := by
  constructor
  · intro read
    obtain ⟨⟨found, source⟩, spelled, read⟩ := bind_eq_ok.mp read
    obtain ⟨⟨⟩, checked, done⟩ := bind_eq_ok.mp read
    cases done
    exact ⟨⟨source, spelled⟩, checked⟩
  · rintro ⟨⟨source, spelled⟩, checked⟩
    refine bind_eq_ok.mpr ⟨(prog, source), spelled, ?_⟩
    exact bind_eq_ok.mpr ⟨(), checked, rfl⟩

theorem isForest_of_decode (read : decode bytes = .ok prog) : prog.IsForest :=
  (isBoundedForest_of_checkForest (decode_eq_ok.mp read).2).isForest

/-- Bytes are accepted just if they spell an arena, with nothing behind it, and the arena is a
forest of bounded depth. The walk that finds this out cannot go on for ever, whatever the arena
and wherever it starts, and it goes on until it has no further visit to make. -/
theorem accepts_bounded_forests :
    (∀ bytes program, decode bytes = .ok program ↔
      (∃ source, StateT.run Read.program { rest := bytes } = .ok (program, source)) ∧
        program.IsBoundedForest maxDepth) ∧
    ∀ program, (WellFounded fun next walk => Walk.next? program walk = some next) ∧
      ∀ walk, Relation.ReflTransGen (fun walk next => Walk.next? program walk = some next) walk
        (walk.finish program) ∧ (walk.finish program).next? program = none := by
  refine ⟨fun bytes program => ?_, fun program =>
    ⟨Walk.wellFounded_next? program, Walk.finish_stops program⟩⟩
  rw [decode_eq_ok]
  exact and_congr_right fun _ =>
    ⟨isBoundedForest_of_checkForest, checkForest_of_isBoundedForest⟩

end Breadboard.Archive
