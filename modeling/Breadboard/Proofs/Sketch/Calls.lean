import Breadboard.Proofs.Sketch.Forest
import Mathlib.Data.Set.Finite.List
import Mathlib.Logic.Relation
import Mathlib.Order.WellFoundedSet

/-!
Which functions call which. If no function of a sketch leads back to itself through the calls in
the functions, then going from nodes to their children and from calls to the functions that they
call comes to an end.
-/

open List

namespace Breadboard.Program

open Relation

variable {prog : Program}

def callee? (prog : Program) (id : NodeId) : Option NodeId :=
  match prog.kind id with
  | .call callee _ => prog.function? callee
  | _ => none

/-- One function has a call of another somewhere in it. -/
def Calls (prog : Program) (caller callee : String) : Prop :=
  ∃ fn target node args, prog.function? caller = some fn ∧
    prog.function? callee = some target ∧ ReflTransGen prog.Child node fn ∧
    prog.kind node = .call callee args

/-- No function leads back to itself. -/
def NonRecursive (prog : Program) : Prop :=
  ∀ name, ¬ TransGen prog.Calls name name

theorem NonRecursive.of_rank (rank : String → Nat)
    (descends : ∀ caller callee, prog.Calls caller callee → rank callee < rank caller) :
    prog.NonRecursive := by
  have below {caller callee : String} (path : TransGen prog.Calls caller callee) :
      rank callee < rank caller := by
    induction path with
    | single calls => exact descends _ _ calls
    | tail _ calls ih =>
      exact Nat.lt_trans (descends _ _ calls) ih
  intro name cycle
  exact Nat.lt_irrefl _ (below cycle)

/-- Functions that are defined before they are called do not lead back to themselves, in an arena
where children come before their parents. -/
theorem NonRecursive.of_definedFirst
    (ordered : ∀ child parent, prog.Child child parent → child < parent)
    (definedFirst : ∀ id fn, prog.callee? id = some fn → fn < id) : prog.NonRecursive := by
  have below {node fn : NodeId} (inside : ReflTransGen prog.Child node fn) : node ≤ fn := by
    induction inside with
    | refl => exact Nat.le_refl _
    | tail _ isChild ih =>
      exact Nat.le_trans ih (Nat.le_of_lt (ordered _ _ isChild))
  apply of_rank fun name => (prog.function? name).getD 0
  rintro caller callee ⟨fn, target, node, args, isCaller, isCallee, inside, kind⟩
  have called : prog.callee? node = some target := by
    simp [callee?, kind, isCallee]
  simp only [isCaller, isCallee, Option.getD_some]
  exact Nat.lt_of_lt_of_le (definedFirst node target called) (below inside)

def Needs (prog : Program) (needed id : NodeId) : Prop :=
  prog.Child needed id ∨ prog.callee? id = some needed

theorem definition_of_function? (found : prog.function? name = some fn) :
    fn ∈ prog.items ∧ ∃ params retType body,
      prog.kind fn = .functionDef name params retType body := by
  unfold function? at found
  refine ⟨mem_reverse.mp (mem_of_find?_eq_some found), ?_⟩
  have defines := List.find?_some found
  unfold definesFunction at defines
  split at defines
  · rename_i defined params retType body kind
    cases of_decide_eq_true defines
    exact ⟨params, retType, body, kind⟩
  · cases defines

theorem finite_functions (prog : Program) :
    {name : String | (prog.function? name).isSome}.Finite := by
  -- A function has one name, and it is an item.
  refine Set.Finite.of_injOn (f := prog.function?) (t := {found | found ∈ prog.items.map some})
    ?_ ?_ (finite_toSet _)
  · intro name isDefined
    obtain ⟨fn, found⟩ := Option.isSome_iff_exists.mp isDefined
    rw [found]
    exact mem_map_of_mem (definition_of_function? found).1
  · intro name isDefined other _ same
    obtain ⟨fn, found⟩ := Option.isSome_iff_exists.mp isDefined
    obtain ⟨-, _, _, _, kind⟩ := definition_of_function? found
    obtain ⟨-, _, _, _, kind'⟩ := definition_of_function? (same ▸ found)
    rw [kind] at kind'
    cases kind'
    rfl

theorem NonRecursive.wellFounded (acyclic : prog.NonRecursive) :
    WellFounded (Function.swap prog.Calls) := by
  have order : IsStrictOrder String (TransGen (Function.swap prog.Calls)) :=
    { irrefl := fun name cycle => acyclic name (transGen_swap.mp cycle)
      trans := fun _ _ _ => TransGen.trans }
  have onFunctions := prog.finite_functions.wellFoundedOn (r := TransGen (Function.swap prog.Calls))
  rw [Set.wellFoundedOn_iff] at onFunctions
  refine Subrelation.wf ?_ onFunctions
  intro callee caller calls
  obtain ⟨fn, target, node, args, isCaller, isCallee, inside⟩ := calls
  refine ⟨.single ⟨fn, target, node, args, isCaller, isCallee, inside⟩, ?_, ?_⟩
  · simp [isCallee]
  · simp [isCaller]

theorem acc_function (forest : WellFounded prog.Child) (acyclic : prog.NonRecursive)
    (found : prog.function? name = some fn) : Acc prog.Needs fn := by
  induction name using acyclic.wellFounded.induction generalizing fn with
  | _ name ih =>
    have inside (node : NodeId) (below : ReflTransGen prog.Child node fn) :
        Acc prog.Needs node := by
      induction node using forest.induction with
      | _ node childHypothesis =>
        constructor
        rintro needed (isChild | called)
        · exact childHypothesis needed isChild (.head isChild below)
        · unfold callee? at called
          split at called
          · rename_i callee args kind
            exact ih callee ⟨fn, needed, node, args, found, called, below, kind⟩ called
          · cases called
    exact inside fn .refl

theorem NonRecursive.wellFounded_needs (acyclic : prog.NonRecursive)
    (forest : WellFounded prog.Child) : WellFounded prog.Needs := by
  constructor
  intro id
  induction id using forest.induction with
  | _ id ih =>
    constructor
    rintro needed (isChild | called)
    · exact ih needed isChild
    · unfold callee? at called
      split at called
      · exact acc_function forest acyclic called
      · cases called

end Breadboard.Program
