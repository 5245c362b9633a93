import Breadboard.Proofs.Sketch.Spelling
import Breadboard.Sketch.Grammar.Declaration

/-!
How a parse goes on. It consumes tokens, appends nodes and learns constants, and every node that
declares a variable or the fields of a structure is built by the rule for it at some point.
-/

open List

namespace Breadboard

def NodeKind.declares : NodeKind → Bool
  | .varDecl .. | .structDef .. => true
  | _ => false

theorem GrowsTo.kind_eq (grows : GrowsTo nodes grown) {id : NodeId} (inside : id < nodes.size)
    (items others : List NodeId) :
    (Program.mk grown items).kind id = (Program.mk nodes others).kind id := by
  have found := Array.getElem?_eq_getElem inside
  simp only [Program.kind, found, grows.getElem? found]

structure ParseState.Moves (state next : ParseState) : Prop where
  tokens : next.tokens <:+ state.tokens
  constants : state.constants <:+ next.constants
  nodes : GrowsTo state.nodes next.nodes

theorem ParseState.Moves.refl (state : ParseState) : state.Moves state :=
  ⟨suffix_rfl, suffix_rfl, prefix_rfl⟩

theorem ParseState.Moves.trans {state between next : ParseState} (first : state.Moves between)
    (second : between.Moves next) : state.Moves next where
  tokens := second.tokens.trans first.tokens
  constants := first.constants.trans second.constants
  nodes := List.IsPrefix.trans first.nodes second.nodes

namespace Parse

variable {α : Type}

def Between (rule : Parse α) (start : ParseState) (res : α) (stop : ParseState) : Prop :=
  ∃ before after, start.Moves before ∧ rule before = .ok (res, after) ∧ after.Moves stop

theorem Between.trans {after} {rule : Parse α}
    (reached : before.Moves start) (between : rule.Between start res stop)
    (goes : stop.Moves after) : rule.Between before res after := by
  obtain ⟨first, second, reachedOn, done, goesOn⟩ := between
  exact ⟨first, second, reached.trans reachedOn, done, goesOn.trans goes⟩

/-- The rules that build declaring nodes. A variable has its array dimensions from the brackets
behind its name only. -/
inductive Declares : Parse NodeId → Prop where
  | ofVariable {spec base word place}
      (plain : base.dims = []) : Declares (variableAfterName spec base word place)
  | ofStructure : Declares structDefinition

end Parse

namespace ParseState

/-- The parse goes on, and each new node that declares something was built by the rule for it. -/
structure Traced (state next : ParseState) : Prop where
  moves : state.Moves next
  declared : ∀ id, state.nodes.size ≤ id → (next.nodeKind id).declares = true →
    ∃ rule, Parse.Declares rule ∧ rule.Between state id next

variable {state between next : ParseState}

theorem Moves.traced (moves : state.Moves next) (same : next.nodes = state.nodes) :
    state.Traced next := by
  refine ⟨moves, fun id isNew declares => ?_⟩
  rw [nodeKind, same, Program.kind, Array.getElem?_eq_none isNew] at declares
  cases declares

theorem Traced.trans (first : state.Traced between) (second : between.Traced next) :
    state.Traced next := by
  refine ⟨first.moves.trans second.moves, fun id isNew declares => ?_⟩
  by_cases inside : id < between.nodes.size
  · have same : next.nodeKind id = between.nodeKind id := second.moves.nodes.kind_eq inside _ _
    rw [same] at declares
    obtain ⟨rule, isRule, ran⟩ := first.declared id isNew declares
    exact ⟨rule, isRule, ran.trans (.refl _) second.moves⟩
  · obtain ⟨rule, isRule, ran⟩ := second.declared id (Nat.le_of_not_lt inside) declares
    exact ⟨rule, isRule, ran.trans first.moves (.refl _)⟩

/-- A new node can be traced if it declares nothing, or else to the rule that has built it. -/
theorem Traced.push {kind : NodeKind} {id : NodeId} (traced : state.Traced between)
    (built : Parse.node kind place between = .ok (id, next))
    (known : kind.declares = true → ∃ rule, Parse.Declares rule ∧ rule state = .ok (id, next)) :
    state.Traced next := by
  have goes : between.Moves next := by
    cases built
    exact ⟨suffix_rfl, suffix_rfl, [⟨kind, place⟩], by simp⟩
  refine ⟨traced.moves.trans goes, fun other isNew declares => ?_⟩
  by_cases last : other = id
  · cases last
    have same : next.nodeKind id = kind := by
      cases built
      simp [nodeKind, Program.kind]
    obtain ⟨rule, isRule, ran⟩ := known (same ▸ declares)
    exact ⟨rule, isRule, state, next, .refl _, ran, .refl _⟩
  · have same : next.nodeKind other = between.nodeKind other := by
      cases built
      simp only [nodeKind, Program.kind, Array.getElem?_push, if_neg last]
    obtain ⟨rule, isRule, ran⟩ := traced.declared other isNew (same ▸ declares)
    exact ⟨rule, isRule, ran.trans (.refl _) goes⟩

end ParseState

end Breadboard
