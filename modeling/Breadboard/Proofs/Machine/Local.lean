import Breadboard.Proofs.Machine.Upkeep

/-!
Steps look only at the top of the stacks, and what they do does not depend on where an expression is
written down.
-/

namespace Breadboard.Act

open Bridge

variable {α : Type} {fw : Firmware} {br : Bridge fw}

theorem not_underflows {act : Act α} (meets : act.Meets ctx yields (Fair frame)) :
    ¬ Underflows (act ctx) := by
  intro lacks
  cases out : act ctx with rw [out] at lacks
  | ok value final => exact lacks
  | error fault final =>
    have fair : Fair frame fault final := meets.of_error out
    rw [Fair, show fault.cause = _ from lacks] at fair
    rcases fair with ⟨⟨⟩⟩ | ⟨_, _, _, _, _, -, ⟨⟩⟩

def resultOn (frames : List Frame) (values : List Value) :
    EStateM.Result Fault Context α → EStateM.Result Fault Context α
  | .ok res ctx => .ok res (ctx.on frames values)
  | .error fault ctx => .error fault (ctx.on frames values)

section Frames

variable {ctx : Context} {frame : Frame}
  (called : frame.isStatement = true → ∃ other ∈ ctx.frames, other.isBarrier = true)
  {behind : Nat} (suits : fw.Suits frame)
  (taken : fw.operandsBehind ctx.values.length frame = some behind)
include called suits taken

/-- Frames that match do the same, where they find their operands and a statement its call. -/
theorem runFrame_pairs (grows : br.discipline.Grows) (closes : br.discipline.Closes)
    (sees : br.discipline.Sees ctx.env) (matched : br.Matches frame twin)
    (joins : br.Joins true ctx copy) :
    br.Pairs false Effect.Reports (runFrame fw frame ctx) (runFrame fw twin copy) :=
  runFrame_twins matched joins (fun _ => grows.toOpens) (fun _ => grows.toDeclares)
    (fun _ => grows.toWrites) (fun _ => closes) (fun _ => sees) (fun isStatement _ =>
      called isStatement) (fun _ => pops_le_of_operandsBehind taken)
    fun _ => not_underflows (runFrame_steps suits taken)

/-- A frame that finds its operands, and a statement its call, does the same whatever lies
below. -/
theorem runFrame_on (frames : List Frame) (values : List Value) :
    runFrame fw (frame.raise values.length) (ctx.on frames values) =
      resultOn frames values (runFrame fw frame ctx) := by
  have joins : (Bridge.below (.free fw) frames values).Joins true ctx _ :=
    joins_on (Discipline.free_holds true ctx)
  have pairs : Bridge.Pairs _ false _ _ (runFrame fw (frame.raise values.length) _) :=
    runFrame_pairs called suits taken Discipline.free_grows (fun _ _ => trivial)
      (fun _ _ _ => trivial) (matches_raise frame) joins
  cases out : runFrame fw frame ctx <;>
    cases out' : runFrame fw (frame.raise values.length) (ctx.on frames values) <;>
      rw [out, out'] at pairs
  · obtain ⟨rfl, -, joins⟩ := pairs
    rw [eq_on_of_joins joins]
    rfl
  · exact pairs.elim
  · exact pairs.elim
  · rename_i fault final fault' final'
    obtain ⟨cause, loc, joins⟩ := pairs
    rw [eq_on_of_joins joins]
    obtain ⟨_, _⟩ := fault
    obtain ⟨_, _⟩ := fault'
    cases cause
    cases loc
    rfl

end Frames

end Breadboard.Act
