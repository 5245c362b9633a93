import Breadboard.Proofs.Sketch.Forest
import Breadboard.Proofs.Sketch.Tracing
import Mathlib.Data.List.Nodup

/-!
How rules of the grammar grow an arena. A rule appends nodes, and a new node takes as children
nodes that no other has taken. `Builds` says which nodes a rule takes from those that are still
unused, and which unused ones it yields; the rules for it follow the way in which rules of the
grammar are put together.
-/

open List

namespace Breadboard

/-- An arena in which children come before their parents, and nodes in it that are no
children yet. -/
structure Grown (nodes : Array Node) (unused : List NodeId) : Prop where
  ordered : ∀ (parent : Nat) (node : Node), nodes[parent]? = some node →
    ∀ child ∈ node.kind.children, child < parent
  inside : ∀ id ∈ unused, id < nodes.size
  distinct : (nodes.toList.flatMap (·.kind.children) ++ unused).Nodup

namespace Grown

variable {nodes : Array Node} {unused kept : List NodeId}

theorem empty : Grown #[] [] := ⟨by simp, by simp, by simp⟩

theorem drop (grown : Grown nodes unused) (fewer : kept.Sublist unused) : Grown nodes kept where
  ordered := grown.ordered
  inside id among := grown.inside id (fewer.subset among)
  distinct := grown.distinct.sublist (fewer.append_left _)

theorem references_lt (grown : Grown nodes unused) :
    ∀ child ∈ nodes.toList.flatMap (·.kind.children), child < nodes.size := by
  intro child among
  obtain ⟨node, inside, isChild⟩ := mem_flatMap.mp among
  obtain ⟨parent, found⟩ := mem_iff_getElem?.mp inside
  rw [Array.getElem?_toList] at found
  have before := grown.ordered parent node found child isChild
  exact Nat.lt_trans before (Array.getElem?_eq_some_iff.mp found).1

theorem push (grown : Grown nodes (unused ++ node.kind.children)) :
    Grown (nodes.push node) (unused ++ [nodes.size]) where
  ordered := by
    intro parent other found child isChild
    rw [Array.getElem?_push] at found
    split at found
    · cases found
      rename_i last
      rw [last]
      exact grown.inside child (mem_append_right _ isChild)
    · exact grown.ordered parent other found child isChild
  inside := by
    intro id among
    rw [Array.size_push]
    rcases mem_append.mp among with earlier | last
    · exact Nat.lt_succ_of_lt (grown.inside id (mem_append_left _ earlier))
    · cases mem_singleton.mp last
      exact Nat.lt_succ_self _
  distinct := by
    have fresh : nodes.size ∉ nodes.toList.flatMap (·.kind.children) ++
        (unused ++ node.kind.children) := by
      intro among
      rcases mem_append.mp among with among | among
      · exact Nat.lt_irrefl _ (grown.references_lt _ among)
      · exact Nat.lt_irrefl _ (grown.inside _ among)
    have reordered : (node.kind.children ++ (unused ++ [nodes.size])).Perm
        (nodes.size :: (unused ++ node.kind.children)) := by
      refine perm_append_comm.trans ?_
      rw [append_assoc]
      exact perm_middle
    rw [Array.toList_push, flatMap_append, flatMap_singleton, append_assoc]
    refine ((reordered.append_left _).trans perm_middle).nodup_iff.mpr ?_
    exact nodup_cons.mpr ⟨fresh, grown.distinct⟩

theorem child_lt (grown : Grown nodes unused)
    (isChild : (Program.mk nodes items).Child child parent) : child < parent := by
  cases found : nodes[parent]? with simp only [Program.Child, Program.kind, found] at isChild
  | none => cases isChild
  | some node => exact grown.ordered parent node found child isChild

theorem isForest (grown : Grown nodes unused) : Program.IsForest ⟨nodes, items⟩ where
  inside := grown.references_lt
  unshared := grown.distinct.of_append_left
  wellFounded := Subrelation.wf (fun isChild => grown.child_lt isChild) Nat.lt_wfRel.wf

end Grown

/-- How the parse goes on when given nodes are taken from those that are unused. What is left in
their place is among them or new. -/
structure Growth (before after : ParseState) (given yielded : List NodeId) : Prop where
  traced : before.Traced after
  grown : ∀ unused, Grown before.nodes (unused ++ given) → Grown after.nodes (unused ++ yielded)
  given_or_new : ∀ id ∈ yielded, id ∈ given ∨ before.nodes.size ≤ id

namespace Growth

variable {before between after : ParseState} {given middle yielded : List NodeId}

theorem of_nodes_eq (moves : before.Moves after) (same : after.nodes = before.nodes) :
    Growth before after given given where
  traced := moves.traced same
  grown _ grown := same ▸ grown
  given_or_new _ among := .inl among

theorem trans (first : Growth before between given middle)
    (second : Growth between after middle yielded) : Growth before after given yielded where
  traced := first.traced.trans second.traced
  grown unused grown := second.grown unused (first.grown unused grown)
  given_or_new := by
    intro id among
    rcases second.given_or_new id among with taken | isNew
    · exact first.given_or_new id taken
    · have longer : before.nodes.size ≤ between.nodes.size := first.traced.moves.nodes.length_le
      exact .inr (Nat.le_trans longer isNew)

theorem frame (spare : List NodeId) (growth : Growth before after given yielded) :
    Growth before after (spare ++ given) (spare ++ yielded) where
  traced := growth.traced
  grown := by
    intro unused grown
    rw [← append_assoc] at grown ⊢
    exact growth.grown (unused ++ spare) grown
  given_or_new := by
    intro id among
    rcases mem_append.mp among with kept | among
    · exact .inl (mem_append_left _ kept)
    · rcases growth.given_or_new id among with taken | isNew
      · exact .inl (mem_append_right _ taken)
      · exact .inr isNew

theorem dropAll (growth : Growth before after [] yielded) : Growth before after given yielded where
  traced := growth.traced
  grown := by
    intro unused grown
    refine growth.grown unused (grown.drop ?_)
    rw [append_nil]
    exact sublist_append_left unused given
  given_or_new := by
    intro id among
    rcases growth.given_or_new id among with nothing | isNew
    · cases nothing
    · exact .inr isNew

/-- A new node takes its children. If it declares something, a rule for it was run. -/
theorem push {id : NodeId} (growth : Growth before between given kind.children)
    (built : Parse.node kind place between = .ok (id, after))
    (known : kind.declares = true → ∃ rule, Parse.Declares rule ∧ rule before = .ok (id, after)) :
    Growth before after given [id] where
  traced := growth.traced.push built known
  grown := by
    intro unused grown
    cases built
    have taken : Grown between.nodes (unused ++ (Node.mk kind place).kind.children) :=
      growth.grown unused grown
    exact taken.push
  given_or_new := by
    intro other among
    cases mem_singleton.mp among
    cases built
    exact .inr growth.traced.moves.nodes.length_le

end Growth

/-- The first token may be known, and at most so many are left, with the end of the file as the
last one. -/
structure ParseState.Within (state : ParseState) (seen : Option TokenKind) (n : Nat) : Prop where
  current : ∀ kind ∈ seen, state.kind = kind
  few : state.tokens.length ≤ n
  ends : ∃ front place, state.tokens = front ++ [⟨.endOfFile, place⟩]

theorem ParseState.Within.mono {state : ParseState} (within : state.Within seen m) (le : m ≤ n) :
    state.Within none n :=
  ⟨nofun, within.few.trans le, within.ends⟩

namespace Parse

variable {α β : Type} {given : List NodeId} {n m k c : Nat} {seen : Option TokenKind}

/-- At most so many tokens are left, unless a rule failed, but not because it reached a bound. -/
def Lands (n : Nat) : Except ParseError (α × ParseState) → Prop
  | .ok (_, next) => next.Within none n
  | .error error => error.fault ≠ .exhausted

/-- With at most `n` tokens left a rule takes `k` of them or fails, and reaches no bound. -/
structure Leads (rule : Parse α) (seen : Option TokenKind) (n k : Nat) : Prop where
  lands : ∀ state, ∀ few ≤ n, state.Within seen few → Lands (few - k) (rule state)

/-- A rule takes tokens and the given nodes, and yields other nodes. -/
structure Builds (rule : Parse α) (seen : Option TokenKind) (n k : Nat) (given : List NodeId)
    (yields : α → List NodeId) : Prop extends rule.Leads seen n k where
  grows : ∀ state res next, rule state = .ok (res, next) → Growth state next given (yields res)

def Ensures (rule : Parse α) (property : α → Prop) : Prop :=
  ∀ state res next, rule state = .ok (res, next) → property res

def Quiet (rule : Parse α) (n k : Nat) : Prop := rule.Builds none n k [] fun _ => []

variable {rule : Parse α} {yields : α → List NodeId} {final : β → List NodeId}

theorem bind_ok {next} (succeeded : (rule >>= next) state = .ok (res, last)) :
    ∃ value between, rule state = .ok (value, between) ∧ next value between = .ok (res, last) := by
  change (do let x ← rule state; next x.1 x.2) = _ at succeeded
  cases first : rule state with rw [first] at succeeded
  | error => cases succeeded
  | ok found => exact ⟨found.1, found.2, rfl, succeeded⟩

theorem Lands.mono {out : Except ParseError (α × ParseState)} (lands : Lands m out) (le : m ≤ n) :
    Lands n out := by
  cases out with
  | error => exact lands
  | ok found => exact ParseState.Within.mono lands le

theorem Leads.bind_of {next : α → Parse β} (first : rule.Leads seen n k)
    (ensures : rule.Ensures property)
    (second : ∀ value, property value → (next value).Leads none (n - k) (c - k)) :
    (rule >>= next).Leads seen n c where
  lands state few le within := by
    have lands := first.lands state few le within
    change Lands _ (do let x ← rule state; next x.1 x.2)
    cases built : rule state with rw [built] at lands
    | error => exact lands
    | ok found =>
      have goesOn := (second found.1 (ensures _ _ _ built)).lands found.2 _
        (Nat.sub_le_sub_right le k) lands
      exact goesOn.mono (by omega)

theorem Leads.bind {next : α → Parse β} (first : rule.Leads seen n k)
    (second : ∀ value, (next value).Leads none (n - k) (c - k)) : (rule >>= next).Leads seen n c :=
  first.bind_of (fun _ _ _ _ => trivial : rule.Ensures fun _ => True) fun value _ => second value

namespace Builds

theorem grown (builds : rule.Builds none 0 k given yields)
    (succeeded : rule state = .ok (res, last)) : Growth state last given (yields res) :=
  builds.grows state res last succeeded

theorem weaken (builds : rule.Builds none m k given yields) (le : n ≤ m) :
    rule.Builds seen n k given yields where
  grows := builds.grows
  lands state few less within := builds.lands state few (less.trans le) (within.mono le_rfl)

theorem fewer (builds : rule.Builds seen n k given yields) : rule.Builds seen n 0 given yields where
  grows := builds.grows
  lands state few le within := (builds.lands state few le within).mono (Nat.sub_le _ _)

/-- What the first rule yields may be all that the second one takes. -/
theorem bind {next : α → Parse β} (first : rule.Builds seen n k given yields)
    (second : ∀ value, (next value).Builds none (n - k) (c - k) (yields value) final) :
    (rule >>= next).Builds seen n c given final where
  grows state res last succeeded := by
    obtain ⟨value, between, built, rest⟩ := bind_ok succeeded
    exact (first.grows _ _ _ built).trans ((second value).grows _ _ _ rest)
  toLeads := first.toLeads.bind fun value => (second value).toLeads

theorem dropAll (builds : rule.Builds seen n k [] yields) : rule.Builds seen n k given yields where
  grows state res next succeeded := (builds.grows state res next succeeded).dropAll
  toLeads := builds.toLeads

end Builds

theorem builds_bind {next} (first : rule.Builds none n k [] yields)
    (second : ∀ value, (next value).Builds none (n - k) (c - k) (given ++ yields value) final) :
    (rule >>= next).Builds seen n c given final := by
  refine (Builds.mk (first.weaken le_rfl).toLeads fun state res last succeeded => ?_).bind second
  have growth := (first.grows state res last succeeded).frame given
  rwa [append_nil] at growth

theorem quiet_bind {next} (first : rule.Quiet n k)
    (second : ∀ value, (next value).Builds none (n - k) (c - k) given final) :
    (rule >>= next).Builds seen n c given final := by
  refine builds_bind first fun value => ?_
  rw [append_nil]
  exact second value

theorem quiet_bind_of {next : α → Parse β} (first : rule.Quiet n k)
    (ensures : rule.Ensures property)
    (second : ∀ value, property value → (next value).Builds none (n - k) (c - k) given final) :
    (rule >>= next).Builds seen n c given final where
  grows state res last succeeded := by
    obtain ⟨value, between, read, rest⟩ := bind_ok succeeded
    have growth := (first.grows state value between read).frame given
    rw [append_nil] at growth
    exact growth.trans ((second value (ensures _ _ _ read)).grows _ _ _ rest)
  toLeads := (first.weaken le_rfl).bind_of ensures fun value holds => (second value holds).toLeads

theorem builds_pure (same : yields value = given) :
    (pure value : Parse α).Builds seen n 0 given yields where
  grows state res next succeeded := by
    cases succeeded
    rw [same]
    exact .of_nodes_eq (.refl _) rfl
  lands _ _ _ within := within.mono le_rfl

theorem leads_node {kind : NodeKind} : (node kind loc).Leads seen n 0 :=
  ⟨fun _ _ _ within => ⟨nofun, within.few, within.ends⟩⟩

theorem builds_node {kind : NodeKind} (children : kind.children = given)
    (plain : kind.declares = false) : (node kind loc).Builds seen n 0 given fun id => [id] where
  grows state id next built := by
    cases children
    exact (Growth.of_nodes_eq (.refl _) rfl).push built (by simp [plain])
  toLeads := leads_node

theorem builds_fail (other : fault ≠ .exhausted) :
    (fail fault : Parse α).Builds seen n k given yields :=
  ⟨⟨fun _ _ _ _ => other⟩, nofun⟩

/-- No bound is reached if no token is left to reach it with. -/
theorem builds_exhausted (enough : n ≤ 0) :
    (fail .exhausted : Parse α).Builds seen n k given yields where
  grows := nofun
  lands state few le within := by
    obtain ⟨-, less, front, place, ends⟩ := within
    rw [ends, length_append, length_singleton] at less
    omega

theorem builds_missing : (missing what : Parse α).Builds seen n k given yields :=
  ⟨⟨fun _ _ _ _ => nofun⟩, nofun⟩

theorem builds_unexpected : (unexpected : Parse α).Builds seen n k given yields :=
  ⟨⟨fun _ _ _ _ => nofun⟩, nofun⟩

theorem builds_map (builds : rule.Builds seen n k given fun value => final (f value)) :
    (f <$> rule).Builds seen n k given final := by
  rw [map_eq_pure_bind]
  refine builds.bind fun value => ?_
  rw [Nat.sub_self]
  exact builds_pure rfl

theorem quiet_of_nodes_eq (same : ∀ state res next, rule state = .ok (res, next) →
      state.Moves next ∧ next.nodes = state.nodes)
    (lands : ∀ state few, state.Within none few → Lands (few - k) (rule state)) :
    rule.Quiet n k where
  grows state res next succeeded := by
    obtain ⟨moves, same⟩ := same state res next succeeded
    exact .of_nodes_eq moves same
  lands state few _ within := lands state few within

end Parse

end Breadboard
