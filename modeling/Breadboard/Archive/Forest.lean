import Breadboard.Archive.Format

/-!
Which arenas are programs: forests, in which every node has at most one parent,
no node is its own ancestor, and nesting is bounded.
-/

namespace Breadboard.Archive

/-- Records the children of one node, each of which must exist and have had no
parent so far. -/
def claimChildren (count : Nat) (parent : NodeId) (claimed : List NodeId) :
    List NodeId → Except ArchiveError (List NodeId)
  | [] => .ok claimed
  | child :: rest =>
      if count ≤ child then .error (.danglingNode parent)
      else if claimed.contains child then .error (.sharedNode child)
      else claimChildren count parent (child :: claimed) rest

def claimAll (count : Nat) (parent : NodeId) (claimed : List NodeId) :
    List Node → Except ArchiveError (List NodeId)
  | [] => .ok claimed
  | node :: rest => do
      let claimed ← claimChildren count parent claimed node.kind.children
      claimAll count (parent + 1) claimed rest

/-- A walk down an arena: the nodes still to visit, each with its level, and those that
have been visited. -/
structure Walk where
  pending : List (NodeId × Nat)
  reached : List NodeId := []

namespace Walk

/-- Visits the node on top, whose children come next. There is no next visit when nothing
is left, or when the node lies too deep. -/
def next? (program : Program) (walk : Walk) : Option Walk :=
  match walk.pending with
  | [] => none
  | (id, level) :: rest =>
      if maxDepth < level then none
      else some {
        pending := (program.kind id).children.map (·, level + 1) ++ rest
        reached := id :: walk.reached }

/-- How many visits a node takes with all below it, down to `levels` levels. -/
def visits (program : Program) : Nat → NodeId → Nat
  | 0, _ => 0
  | levels + 1, id => ((program.kind id).children.map (visits program levels)).foldr (· + ·) 1

def work (program : Program) (walk : Walk) : Nat :=
  (walk.pending.map fun (id, level) => visits program (maxDepth + 1 - level) id).foldr (· + ·) 0

theorem foldr_add_one (counts : List Nat) (more : Nat) :
    counts.foldr (· + ·) 1 + more = counts.foldr (· + ·) more + 1 := by
  induction counts with
  | nil => exact Nat.add_comm 1 more
  | cons count counts ih =>
    simp only [List.foldr_cons]
    omega

theorem work_eq {program : Program} {walk next : Walk} (visited : walk.next? program = some next) :
    walk.work program = next.work program + 1 := by
  unfold next? at visited
  split at visited
  · cases visited
  · rename_i id level rest pending
    split at visited
    · cases visited
    · cases visited
      have levels : maxDepth + 1 - level = maxDepth - level + 1 := by omega
      have below : (fun (id, level) => visits program (maxDepth + 1 - level) id) ∘
          (fun child => (child, level + 1)) = visits program (maxDepth - level) := by
        funext child
        exact congrArg (visits program · child) (Nat.add_sub_add_right maxDepth 1 level)
      simp only [work, pending, List.map_cons, List.foldr_cons, levels, visits, List.map_append,
        List.map_map, List.foldr_append, below]
      exact foldr_add_one _ _

def finish (program : Program) (walk : Walk) : Walk :=
  match _ : walk.next? program with
  | none => walk
  | some next => next.finish program
termination_by walk.work program
decreasing_by exact Nat.lt_of_lt_of_eq (Nat.lt_succ_self _) (work_eq ‹_›).symm

end Walk

def checkForest (program : Program) : Except ArchiveError Unit := do
  let count := program.nodes.size
  let claimed ← claimAll count 0 [] program.nodes.toList
  match program.items.find? (count ≤ ·) with
  | some item => .error (.danglingNode item)
  | none =>
      let roots := (List.range count).filter fun id => !claimed.contains id
      let walk := Walk.finish program { pending := roots.map (·, 1) }
      if walk.pending.isEmpty then
        -- Every node has at most one parent, so what no root leads to is on or below a cycle.
        match (List.range count).find? fun id => !walk.reached.contains id with
        | some id => .error (.cyclicNode id)
        | none => .ok ()
      else .error (.tooDeep maxDepth)

end Breadboard.Archive
