import Mathlib.Logic.Function.Iterate
import Breadboard.Proofs.Machine.Local
import Breadboard.Proofs.Machine.Rest
import Breadboard.Proofs.Session.Reach

/-!
Evaluation is local. An expression is put on stacks of frames and operands and run with its
answers at hand until its own frames are gone. Its own run, with nothing below, already decides
everything: on other stacks the same happens above them, and nothing of them is looked at. The
expression leaves one operand more, and the scopes and locals as it has found them.
-/

open List

namespace Breadboard

namespace Firmware

def LeavesOne (firmware : Firmware) (owed : Nat) (context : Context) : Prop :=
  firmware.Balanced owed { context with frames := context.frames ++ [.discard] }

namespace LeavesOne

variable {fw : Firmware} {ctx next : Context} {frame : Frame} {rest : List Frame}

theorem eval (fw : Firmware) (node : NodeId) (env : Environment) (random : UInt64) :
    fw.LeavesOne 0 ⟨env, [.eval node], [], random⟩ where
  suited := by simp [Suits]
  layered := ⟨rfl, rfl, trivial⟩
  operands := rfl

theorem values_eq (leaves : fw.LeavesOne 0 ctx) (done : ctx.frames = []) :
    ∃ value, ctx.values = [value] := by
  have opds := leaves.operands
  rw [done] at opds
  cases left : ctx.values with
  | nil => simp [left, operandsBehind, pops] at opds
  | cons value below =>
    cases below with
    | nil => exact ⟨value, rfl⟩
    | cons => simp [left, operandsBehind, pops, Frame.pushes] at opds

section Step

variable (top : ctx.frames = frame :: rest) (leaves : fw.LeavesOne 0 ctx)
  {effect : Effect}
include top leaves

theorem layered_cons : Layered (frame :: (rest ++ [.discard])) := by
  have layered := leaves.layered
  rwa [top] at layered

theorem called (statement : frame.isStatement = true) : ∃ other ∈ rest, other.isBarrier = true :=
  (layered_cons top leaves).exists_barrier statement rfl rfl

theorem noDriver : ∀ other ∈ frame :: rest, other.isDriver = false :=
  (layered_cons top leaves : Layered ((frame :: rest) ++ [.discard])).isDriver_eq_false

theorem suits : fw.Suits frame := leaves.suited frame (by simp [top])

theorem taken : ∃ behind, fw.operandsBehind ctx.values.length frame = some behind := by
  have opds := leaves.operands
  simp only [top, cons_append, operandsAfter_cons, Nat.add_zero,
    Option.bind_eq_some_iff] at opds
  obtain ⟨behind, taken, -⟩ := opds
  exact ⟨behind, taken⟩

theorem step_on (frames : List Frame) (values : List Value) :
    fw.step (ctx.on frames values) (frame.raise values.length)
        (rest.map (Frame.raise values.length) ++ frames) =
      Act.resultOn frames values (fw.step ctx frame rest) := by
  obtain ⟨behind, taken⟩ := leaves.taken top
  have called : frame.isStatement = true →
      ∃ other ∈ Context.frames { ctx with frames := rest }, other.isBarrier = true :=
    leaves.called top
  exact Act.runFrame_on called (leaves.suits top) taken frames values

theorem stepped (out : fw.step ctx frame rest = .ok effect next) :
    Stepped fw frame { ctx with frames := rest } effect next := by
  obtain ⟨behind, taken⟩ := leaves.taken top
  have steps : (Act.runFrame fw frame).Meets { ctx with frames := rest } _ _ :=
    Act.runFrame_steps (leaves.suits top) taken
  exact steps.of_ok out

theorem step_rests {outer : Environment} (rests : outer.Rests (scopeKinds ctx.frames) ctx.env)
    (out : fw.step ctx frame rest = .ok effect next) :
    outer.Rests (scopeKinds next.frames) next.env := by
  have stepped := leaves.stepped top out
  rw [top] at rests
  exact stepped.rests (forall_mem_cons.mp (leaves.noDriver top)).2 (leaves.called top) rests

theorem step_leaves (out : fw.step ctx frame rest = .ok effect next) :
    fw.LeavesOne effect.owed next := by
  have above : Context.frames { ctx with frames := ctx.frames ++ [.discard] } =
      frame :: (rest ++ [.discard]) := by
    simp [top]
  have moved := leaves.step_on top [.discard] []
  rw [out, Act.resultOn, length_nil, Frame.raise_zero, Context.on_nil, Context.on_nil,
    map_id'' Frame.raise_zero] at moved
  exact ((step_meets above leaves).of_ok moved).2.1

end Step

end LeavesOne

end Firmware

inductive Progress where
  | going
  /-- No answer is left for a request. -/
  | asking (request : Request)
  | failed (fault : Fault)

/-- A run of frames that lie on others, with the answers at hand. -/
structure Evaluation where
  context : Context
  answers : List Primitive
  /-- What the steps have done besides changing the context, in order. -/
  effects : List Effect := []
  progress : Progress := .going

namespace Evaluation

/-- Goes on after a step, at a request with the next answer. -/
def proceed (run : Evaluation) (effect : Effect) (context : Context) : Evaluation :=
  let run := { run with context, effects := run.effects ++ [effect] }
  match effect, run.answers with
  | .request request, [] => { run with progress := .asking request }
  | .request request, answer :: answers =>
    { run with
      context := { context with values := request.response answer :: context.values }
      answers }
  | _, _ => run

def settle (run : Evaluation) : EStateM.Result Fault Context Effect → Evaluation
  | .ok effect context => run.proceed effect context
  | .error fault context => { run with context, progress := .failed fault }

/-- Acts on the frame on top unless just the frames of `base` are left. -/
def next (firmware : Firmware) (base : List Frame) (run : Evaluation) : Evaluation :=
  match run.progress, run.context.frames with
  | .going, frame :: rest =>
    if frame :: rest = base then run else run.settle (firmware.step run.context frame rest)
  | _, _ => run

/-- The frames of the evaluation are gone. -/
def Returns (base : List Frame) (run : Evaluation) : Prop :=
  run.progress = .going ∧ run.context.frames = base

instance (progress : Progress) : Decidable (progress = .going) :=
  match progress with
  | .going => .isTrue rfl
  | .asking _ | .failed _ => .isFalse nofun

instance (base : List Frame) (run : Evaluation) : Decidable (run.Returns base) :=
  inferInstanceAs (Decidable (_ ∧ _))

def on (run : Evaluation) (frames : List Frame) (values : List Value) : Evaluation :=
  { run with context := run.context.on frames values }

end Evaluation

/-- What the evaluation of a node on stacks of frames and operands has come to after `steps`
steps. -/
def Firmware.evaluate (firmware : Firmware) (node : NodeId) (env : Environment) (random : UInt64)
    (answers : List Primitive) (frames : List Frame) (values : List Value) (steps : Nat) :
    Evaluation :=
  (Evaluation.next firmware frames)^[steps]
    { context := ⟨env, .eval node :: frames, values, random⟩, answers }

namespace Evaluation

variable {fw : Firmware} {outer : Environment} {run : Evaluation} {base : List Frame}

/-- While an evaluation with nothing below goes on, it is to leave one operand and no scope. -/
structure Sound (firmware : Firmware) (outer : Environment) (run : Evaluation) : Prop where
  leaves : run.progress = .going → firmware.LeavesOne 0 run.context
  rests : run.progress = .going → outer.Rests (scopeKinds run.context.frames) run.context.env

theorem returns_on : (run.on frames values).Returns frames ↔ run.Returns [] := by
  simp [Returns, on, Context.on]

variable (frames : List Frame) (values : List Value)

theorem proceed_on (run : Evaluation) (effect : Effect) (ctx : Context) :
    (run.on frames values).proceed effect (ctx.on frames values) =
      (run.proceed effect ctx).on frames values := by
  cases effect with
  | request request =>
    obtain ⟨_, answers, _, _⟩ := run
    cases answers <;> rfl
  | _ => rfl

theorem settle_on (run : Evaluation) (res : EStateM.Result Fault Context Effect) :
    (run.on frames values).settle (Act.resultOn frames values res) =
      (run.settle res).on frames values := by
  cases res with
  | ok effect ctx => exact proceed_on frames values run effect ctx
  | error fault ctx => rfl

theorem next_of_ne_going (ended : run.progress ≠ .going) (base : List Frame) :
    run.next fw base = run := by
  unfold next
  split
  · exact absurd ‹_› ended
  · rfl

theorem next_of_returns (returned : run.Returns base) : run.next fw base = run := by
  unfold next
  split
  · rename_i top
    rw [if_pos (top.symm.trans returned.2)]
  · rfl

theorem next_of_nil (done : run.context.frames = []) (base : List Frame) :
    run.next fw base = run := by
  unfold next
  split
  · cases done.symm.trans ‹_›
  · rfl

theorem next_of_cons (going : run.progress = .going) (top : run.context.frames = frame :: rest)
    (further : frame :: rest ≠ base) :
    run.next fw base = run.settle (fw.step run.context frame rest) := by
  simp only [next, going, top, if_neg further]

theorem next_on (sound : run.Sound fw outer) :
    (run.on frames values).next fw frames = (run.next fw []).on frames values := by
  by_cases going : run.progress = .going
  · have goingOn : (run.on frames values).progress = .going := going
    cases top : run.context.frames with
    | nil =>
      have returned : (run.on frames values).context.frames = frames := by
        simp [on, Context.on, top]
      rw [next_of_returns ⟨going, top⟩, next_of_returns ⟨goingOn, returned⟩]
    | cons frame rest =>
      have above : (run.on frames values).context.frames =
          frame.raise values.length :: (rest.map (Frame.raise values.length) ++ frames) := by
        simp [on, Context.on, top]
      have further : frame.raise values.length :: (rest.map (Frame.raise values.length) ++ frames) ≠
            frames := by
        intro same
        have lengths := congrArg List.length same
        simp only [length_cons, length_append] at lengths
        omega
      rw [next_of_cons going top (cons_ne_nil _ _), next_of_cons goingOn above further,
        ← settle_on, ← (sound.leaves going).step_on top]
      rfl
  · have endedOn : (run.on frames values).progress ≠ .going := going
    rw [next_of_ne_going going, next_of_ne_going endedOn]

theorem proceed_sound (leaves : fw.LeavesOne effect.owed ctx)
    (rests : outer.Rests (scopeKinds ctx.frames) ctx.env) :
    (run.proceed effect ctx).Sound fw outer := by
  cases effect with
  | request request =>
    obtain ⟨_, answers, _, _⟩ := run
    cases answers with
    | nil => exact ⟨nofun, nofun⟩
    | cons answer answers =>
      exact ⟨fun _ => Firmware.Balanced.answered _ leaves, fun _ => rests⟩
  | _ => exact ⟨fun _ => leaves, fun _ => rests⟩

theorem next_sound (sound : run.Sound fw outer) : (run.next fw []).Sound fw outer := by
  by_cases going : run.progress = .going
  · cases top : run.context.frames with
    | nil => rwa [next_of_returns ⟨going, top⟩]
    | cons frame rest =>
      rw [next_of_cons going top (cons_ne_nil _ _)]
      cases out : fw.step run.context frame rest with
      | error fault ctx => exact ⟨nofun, nofun⟩
      | ok effect ctx =>
        have leaves := sound.leaves going
        exact proceed_sound (leaves.step_leaves top out)
          (leaves.step_rests top (sound.rests going) out)
  · rwa [next_of_ne_going going]

theorem iterate_sound (sound : run.Sound fw outer) (steps : Nat) :
    ((next fw [])^[steps] run).Sound fw outer := by
  induction steps with
  | zero => exact sound
  | succ steps ih =>
    rw [Function.iterate_succ_apply']
    exact next_sound ih

/-- A run on any stacks is the run with nothing below, put on them. -/
theorem iterate_on (sound : run.Sound fw outer) (steps : Nat) :
    (next fw frames)^[steps] (run.on frames values) =
      ((next fw [])^[steps] run).on frames values := by
  induction steps with
  | zero => rfl
  | succ steps ih =>
    rw [Function.iterate_succ_apply', Function.iterate_succ_apply', ih]
    exact next_on frames values (iterate_sound sound steps)

end Evaluation

namespace Firmware

variable (firmware : Firmware) (node : NodeId) (env : Environment) (random : UInt64)
  (answers : List Primitive)

theorem evaluate_sound (steps : Nat) :
    (firmware.evaluate node env random answers [] [] steps).Sound firmware env :=
  Evaluation.iterate_sound ⟨fun _ => .eval firmware node env random, fun _ => .refl env⟩ steps

/-- An evaluation on any stacks is its own run, put on them. -/
theorem evaluate_eq_on (frames : List Frame) (values : List Value) (steps : Nat) :
    firmware.evaluate node env random answers frames values steps =
      (firmware.evaluate node env random answers [] [] steps).on frames values :=
  Evaluation.iterate_on frames values (firmware.evaluate_sound node env random answers 0) steps

/-- Whatever lies below an expression, its evaluation makes the same requests and gives the same
commands, fails alike, and leaves memory, random numbers and answers alike. What lies below stays
there. An evaluation that returns leaves the same value in both cases, the frames and operands
below it, and the scopes and the number of locals as they were. -/
theorem evaluation_local (frames otherFrames : List Frame) (values otherValues : List Value)
    (steps : Nat) :
    let run := firmware.evaluate node env random answers frames values steps
    let other := firmware.evaluate node env random answers otherFrames otherValues steps
    (run.effects = other.effects ∧ run.answers = other.answers ∧ run.progress = other.progress ∧
      run.context.env = other.context.env ∧ run.context.random = other.context.random) ∧
    (frames <:+ run.context.frames ∧ values <:+ run.context.values) ∧
    (run.Returns frames ↔ other.Returns otherFrames) ∧
    (run.Returns frames →
      ∃ value, run.context.values = value :: values ∧
        other.context.values = value :: otherValues ∧
        run.context.env.scopes = env.scopes ∧ run.context.env.base = env.base ∧
        run.context.env.locals.size = env.locals.size) := by
  intro run other
  have sound := firmware.evaluate_sound node env random answers steps
  have run_eq : run = _ := firmware.evaluate_eq_on node env random answers frames values steps
  have other_eq : other = _ :=
    firmware.evaluate_eq_on node env random answers otherFrames otherValues steps
  generalize firmware.evaluate node env random answers [] [] steps = own at sound run_eq other_eq
  rw [run_eq, other_eq]
  refine ⟨⟨rfl, rfl, rfl, rfl, rfl⟩, ⟨suffix_append _ _, suffix_append _ _⟩, ?_, ?_⟩
  · rw [Evaluation.returns_on, Evaluation.returns_on]
  · intro returned
    obtain ⟨going, done⟩ := Evaluation.returns_on.mp returned
    obtain ⟨value, left⟩ := (sound.leaves going).values_eq done
    obtain ⟨⟨opened, scopes, above, rooted⟩, base⟩ := sound.rests going
    rw [done, scopeKinds_nil, map_eq_nil_iff] at above
    subst above
    have found (frames : List Frame) (values : List Value) :
        (own.on frames values).context.values = value :: values :=
      congrArg (· ++ values) left
    exact ⟨value, found .., found .., scopes, base, rooted⟩

/-- The node 13 adds to a number what a function reads and returns from a loop, in a switch, in
another loop. -/
def lookout : Firmware where
  program := {
    nodes := #[
      ⟨.boolLiteral true, ⟨4, 14⟩⟩,
      ⟨.intLiteral 0 false, ⟨4, 40⟩⟩,
      ⟨.call "analogRead" [1], ⟨4, 29⟩⟩, ⟨.returnStmt (some 2), ⟨4, 22⟩⟩, ⟨.block [3], ⟨4, 20⟩⟩,
      ⟨.whileLoop 0 4, ⟨4, 7⟩⟩, ⟨.intLiteral 1 false, ⟨2, 21⟩⟩, ⟨.switch 6 [⟨none, [5]⟩], ⟨2, 13⟩⟩,
      ⟨.block [7], ⟨2, 11⟩⟩, ⟨.forLoop none none none 8, ⟨2, 3⟩⟩, ⟨.block [9], ⟨1, 12⟩⟩,
      ⟨.functionDef "poll" [] (.of .int) 10, ⟨1, 5⟩⟩, ⟨.call "poll" [], ⟨9, 13⟩⟩,
      ⟨.binary .add 6 12, ⟨9, 11⟩⟩]
    items := [11] }

theorem lookout_evaluation_local :
    (lookout.evaluate 13 {} 1 [.int 742] [.discard] [.bool true] 27).Returns [.discard] ∧
      (lookout.evaluate 13 {} 1 [.int 742] [] [] 27).Returns [] ∧
      ∃ value,
        (lookout.evaluate 13 {} 1 [.int 742] [.discard] [.bool true] 27).context.values =
          [value, .bool true] ∧
        (lookout.evaluate 13 {} 1 [.int 742] [] [] 27).context.values = [value] := by
  have returned :
      (lookout.evaluate 13 {} 1 [.int 742] [.discard] [.bool true] 27).Returns [.discard] := by
    decide +kernel
  obtain ⟨-, -, returns, leaves⟩ :=
    evaluation_local lookout 13 {} 1 [.int 742] [.discard] [] [.bool true] [] 27
  obtain ⟨value, left, otherLeft, -⟩ := leaves returned
  exact ⟨returned, returns.mp returned, value, left, otherLeft⟩

end Firmware

end Breadboard
