import Breadboard.Proofs.Memory.Confinement
import Breadboard.Proofs.Session.Evaluation

/-!
What a callee can change. A call runs above the frames and operands of its caller, and the
names of the caller cannot be seen from inside. So the callee, and whatever it calls, gets to
locals of the caller only through pointers: those in its arguments, those in globals, and those
found behind them. All other locals are at every moment of the call what they were at its start.
-/

open List

namespace Breadboard

open Value Evaluation

variable {frame : Frame}

/-- What a library computes points only where one of the arguments points. -/
def Library.Honest (library : Library) : Prop :=
  ∀ className method compute, library.route? className method = some (.internal compute) →
    ∀ values res, compute values = some res →
      ∀ cell, res.PointsTo cell → ∃ value ∈ values, value.PointsTo cell

theorem Library.standard_honest : standard.Honest := by
  intro className method compute route values res computed cell points
  have nowhere : res.Within fun _ => False := within_of_isBare (standard_isBare route computed)
  exact (nowhere cell points).elim

namespace Firmware

variable {fw : Firmware} {ctx : Context}

def anchoring (fw : Firmware) : Discipline fw :=
  .ofMemory fw Environment.Anchored

theorem anchoring_lasting (fw : Firmware) : Lasting fw.anchoring where
  grows := {
    openScope := fun kind anchored => anchored.pushScope kind
    declare := fun anchored _ out =>
      Environment.perform_of_declare out ▸ anchored.perform _
    declareStatic := fun site anchored _ => anchored.perform (.declareStatic site _)
    rebind := fun anchored known bound =>
      Environment.perform_of_rebind known bound ▸ anchored.perform _
    write := fun anchored _ _ _ _ out =>
      Environment.perform_of_write out ▸ anchored.perform _ }
  closes _ anchored := anchored.perform .close
  sees _ _ _ _ _ := trivial
  frames _ := trivial
  initial seed := by
    refine ⟨?_, nofun⟩
    rintro level name cell rfl bound
    have named := Environment.boundAt_zero.mp bound
    obtain ⟨before, after, split, -⟩ := lookup_eq_some_iff.mp named
    have among : (name, cell) ∈ (Context.initial seed).env.base := by
      simp [split]
    cases mem_singleton.mp among
    exact ⟨0, rfl⟩

theorem Reaches.anchored (reached : fw.Reaches pending ctx) : ctx.env.Anchored :=
  ((anchoring_lasting fw).reaches reached).memory

def confinement (fw : Firmware) (honest : fw.library.Honest) (outer : Environment)
    (given : List Value) (closing : Bool) : Discipline fw where
  operand := Value.Within (outer.Grants given)
  stored _ := Value.Within (outer.Grants given)
  memory := outer.Confined given closing
  frame _ := True
  bare := within_of_isBare
  pointer granted within := within_pointer.mpr (within ▸ within_pointer.mp granted)
  array := within_array.mpr
  read confined granted := confined.read (within_pointer.mp granted)
  convert := Value.Within.convert
  default := DataType.within_default fw.structs
  object _ _ := within_of_isBare rfl
  sized := id
  operand_of_stored := id
  computed route within computed cell points := by
    obtain ⟨value, among, pointed⟩ := honest _ _ _ route _ _ computed cell points
    exact within value among cell pointed
  nodeless _ := trivial

variable {honest : fw.library.Honest} {outer : Environment} {given : List Value}

theorem confinement_grows : (fw.confinement honest outer given false).Grows where
  openScope kind confined := confined.pushScope kind
  declare confined within out := Environment.perform_of_declare out ▸ confined.declare within
  declareStatic site confined within := confined.declareStatic site within
  rebind confined known bound := Environment.perform_of_rebind known bound ▸
      confined.declareStatic _ (within_of_isBare rfl)
  write confined granted _ _ within out :=
    Environment.perform_of_write out ▸ confined.write (within_pointer.mp granted) within

theorem confinement_closes : (fw.confinement honest outer given true).Closes :=
  fun _ confined => confined.popScope

theorem step_confined (honest : fw.library.Honest) (frame : Frame)
    (confined : outer.Confined given false ctx.env)
    (opds : ∀ value ∈ ctx.values, value.Within (outer.Grants given))
    (sees : frame.looksUp = true → ∀ name cell, ctx.env.lookup? name = some cell →
      outer.Grants given cell) :
    let bounded (next : Context) : Prop := outer.Confined given (fw.closes frame) next.env ∧
      ∀ value ∈ next.values, value.Within (outer.Grants given)
    (Act.runFrame fw frame).Meets ctx (fun _ => bounded) (fun _ => bounded) := by
  have holds : (fw.confinement honest outer given (fw.closes frame)).Holds true
      ctx := ⟨confined.weaken, opds, fun _ _ _ => trivial⟩
  have keeps := Act.keepsAt_runFrame frame (fun grows => grows ▸ confinement_grows)
    (fun closes => closes ▸ confinement_closes) holds
    fun looks name cell found => within_pointer.mpr (sees looks name cell found)
  exact keeps.weaken (fun _ _ kept => ⟨kept.2.memory, kept.2.operands⟩)
    fun _ _ kept => ⟨kept.memory, kept.operands⟩

end Firmware

/-! The scopes of a call. -/

namespace Environment.Rests

variable {outer env : Environment} {kinds : List ScopeKind}

theorem size_le (rests : outer.Rests kinds env) : outer.locals.size ≤ env.locals.size := by
  obtain ⟨own, -, -, rooted⟩ := rests.scopes
  generalize env.locals.size = size at rooted
  induction own generalizing size with
  | nil => exact Nat.le_of_eq rooted.symm
  | cons scope own ih =>
    exact Nat.le_trans (ih _ rooted.2) rooted.1

theorem exists_function (rests : outer.Rests kinds env) (called : .function ∈ kinds) :
    ∃ level, outer.level < level ∧ env.kinds[level]? = some .function := by
  obtain ⟨own, scopes, above, -⟩ := rests.scopes
  have split : env.kinds = outer.kinds ++ kinds.reverse := by
    simp only [Environment.kinds, outward, scopes, map_append, reverse_append, above,
      cons_append]
  obtain ⟨index, found⟩ := List.getElem?_of_mem (mem_reverse.mpr called)
  have length : outer.kinds.length = outer.level + 1 := length_outward ..
  refine ⟨outer.level + 1 + index, by omega, ?_⟩
  rw [split, List.getElem?_append_right (by omega), length, Nat.add_sub_cancel_left, found]

end Environment.Rests

namespace Act

variable {α : Type} {fw : Firmware} {outer : Environment} {ctx : Context} (node : NodeId)

def Spares (outer : Environment) (ctx : Context) (act : Act α) : Prop :=
  act.Meets ctx (fun _ _ => True) fun _ final => outer.locals.size ≤ final.env.locals.size

theorem Spares.returning {act : Act α} (spares : act.Spares outer ctx) (value : β) :
    (act >>= fun _ => pure value).Spares outer ctx :=
  Meets.bind spares (fun _ _ _ => trivial) fun _ _ roomy => roomy

section

variable (roomy : outer.locals.size ≤ ctx.env.locals.size)
include roomy

theorem spares_pop {next : Value → Act α} (loc : Location)
    (rest : ∀ value below, (next value).Spares outer { ctx with values := below }) :
    (pop loc >>= next).Spares outer ctx := by
  cases opds : ctx.values with
  | nil =>
    rw [Spares, meets_bind]
    simp only [pop, meets_bind, meets_get, opds, meets_unsupported]
    exact roomy
  | cons value below =>
    rw [Spares, meets_bind, meets_pop loc opds]
    exact rest value below

theorem spares_startBody (parts : LoopParts) (iters : Nat) (hasScope : Bool) (loc : Location) :
    (startBody fw node parts iters hasScope loc).Spares outer ctx := by
  unfold startBody
  dsimp only
  split
  · split
    · exact roomy
    · trivial
  · trivial

theorem spares_runLoop (phase : LoopPhase) (iters : Nat) (hasScope : Bool) :
    (runLoop fw node phase iters hasScope).Spares outer ctx := by
  unfold runLoop
  dsimp only
  split
  · exact roomy
  · cases phase with
    | cond | advance =>
      dsimp only
      split <;> trivial
    | body => exact spares_startBody _ roomy _ _ _ _
    | test =>
      refine spares_pop roomy _ fun value below => ?_
      rw [Spares, meets_bind, meets_truth]
      refine ⟨fun holds _ => ?_, fun _ => roomy⟩
      split
      · exact spares_startBody _ (by exact roomy) _ _ _ _
      · split <;> trivial

end

theorem spares_finishCall (retType : DataType) (height : Nat) (returned : Bool) (loc : Location)
    (rests : outer.Rests (kind :: kinds) ctx.env) :
    (finishCall fw retType height returned loc).Spares outer ctx := by
  have finished (value : Value) {ctx : Context}
      (rests : outer.Rests (kind :: kinds) ctx.env) : (do
        truncate height
        closeScope
        push (← convert fw value retType loc) : Act Unit).Spares outer ctx := by
    simp only [Spares, meets_bind, meets_truncate, meets_closeScope, meets_convert]
    exact ⟨fun _ _ => trivial, fun _ _ => rests.popScope.size_le⟩
  cases returned with
  | true => exact spares_pop rests.size_le loc fun value below => finished value rests
  | false => exact finished _ rests

theorem spares_release : release.Spares outer ctx := by
  obtain ⟨env, frames, values, random⟩ := ctx
  cases frames <;> trivial

section

variable (rests : outer.Rests (scopeKinds ctx.frames) ctx.env)
include rests

theorem spares_unwindTo {next : Option Frame → Act α}
    (stops : ∀ frame : Frame, stop frame = false → frame.isBarrier = false)
    (rest : ∀ top reached, outer.locals.size ≤ reached.env.locals.size →
      (next top).Spares outer reached) : (unwindTo stop >>= next).Spares outer ctx := by
  rw [Spares, meets_bind]
  refine unwindTo_meets _ fun above below split passed _ => rest _ _ ?_
  rw [split] at rests
  exact (rests.release fun frame among => stops frame (passed frame among)).size_le

theorem spares_breakLoop (loc : Location) : (breakLoop loc).Spares outer ctx := by
  refine spares_unwindTo rests (fun _ => Frame.isBarrier_of_stopsBreak) fun top reached roomy => ?_
  split
  · exact spares_release
  · exact spares_release
  · exact roomy

theorem spares_continueLoop (loc : Location) : (continueLoop loc).Spares outer ctx := by
  refine spares_unwindTo rests (fun _ => Frame.isBarrier_of_stopsContinue)
    fun top reached roomy => ?_
  split
  · trivial
  · exact roomy

theorem spares_returnValue (value : Value) (loc : Location) :
    (returnValue value loc).Spares outer ctx := by
  refine spares_unwindTo rests (fun _ => id) fun top reached roomy => ?_
  split
  · trivial
  · exact roomy

theorem spares_leaveFunction : (leaveFunction fw node).Spares outer ctx := by
  unfold leaveFunction
  dsimp only
  split
  · exact spares_pop rests.size_le _ fun value below =>
      spares_returnValue (by exact rests) value _
  · exact spares_returnValue rests .void _

end

theorem spares_runFrame (closes : fw.closes frame = true)
    (rests : outer.Rests (scopeKinds (frame :: ctx.frames)) ctx.env) :
    (runFrame fw frame).Spares outer ctx := by
  cases frame with
  | block node next hasScope =>
    refine Spares.returning ?_ _
    unfold runBlock
    split
    · split
      · trivial
      · split <;> trivial
    · trivial
  | loop node phase iters hasScope =>
    exact (spares_runLoop node rests.size_le phase iters hasScope).returning _
  | switch node arm next =>
    refine Spares.returning ?_ _
    unfold runSwitch
    split
    · split
      · trivial
      · split <;> trivial
    · trivial
  | callReturn retType height returned loc =>
    exact (spares_finishCall retType height returned loc rests).returning _
  | leave node => exact (spares_leaveFunction node rests).returning _
  | exec node =>
    change (exec fw node).Spares outer ctx
    simp only [Firmware.closes, Firmware.isJump] at closes
    split at closes
    · rename_i kind
      simp only [exec, kind]
      exact (spares_breakLoop rests _).returning _
    · rename_i kind
      simp only [exec, kind]
      exact (spares_continueLoop rests _).returning _
    · cases closes
  | _ => cases closes

end Act

/-! The run of a call. -/

/-- The frames of a call alone: the call itself, or its end with what is run for it above, or
nothing when it has returned. -/
inductive CallFrames : List Frame → Prop where
  | calling : CallFrames [.call fn argc loc]
  | inside (above : List Frame) {retType height returned loc} :
      CallFrames (above ++ [.callReturn retType height returned loc])
  | returned : CallFrames []

theorem Turn.scheduled_of_call (turn : Turn fw height (.call fn argc loc) pushed scheduled move) :
    ∃ body retType, scheduled = Frame.entry body retType height loc := by
  cases turn with
  | call => exact ⟨_, _, rfl⟩

namespace CallFrames

variable {frame : Frame} {rest : List Frame}

theorem step {ctx next : Context}
    (stepped : Stepped fw frame { ctx with frames := rest } effect next)
    (frames : CallFrames (frame :: rest)) : CallFrames next.frames := by
  generalize whole : frame :: rest = stack at frames
  cases frames with
  | calling =>
    obtain ⟨rfl, rfl⟩ := List.cons.inj whole
    rcases stepped with ⟨pushed, scheduled, move, turn, frames, -⟩ | ⟨-, jump⟩
    · obtain ⟨body, retType, rfl⟩ := turn.scheduled_of_call
      rw [frames]
      exact .inside [.block body 0 false]
    · cases jump
  | inside above =>
    cases above with
    | nil =>
      obtain ⟨rfl, rfl⟩ := List.cons.inj whole
      rw [stepped.frames_of_isEnding rfl]
      exact .returned
    | cons upper above =>
      obtain ⟨-, split⟩ := List.cons.inj whole
      rcases stepped.keeps split with ⟨between, frames | ⟨_, _, _, _, -, frames⟩⟩ | ⟨⟨⟩, -⟩
      · rw [frames]
        exact .inside between
      · rw [frames]
        exact .inside between
  | returned => cases whole

theorem function_mem (frames : CallFrames (frame :: rest)) (looks : frame.looksUp = true) :
    .function ∈ scopeKinds (frame :: rest) := by
  generalize whole : frame :: rest = stack at frames ⊢
  cases frames with
  | calling =>
    obtain ⟨rfl, -⟩ := List.cons.inj whole
    cases looks
  | inside above =>
    rw [scopeKinds_append]
    exact mem_append_right _ mem_cons_self
  | returned => cases whole

end CallFrames

namespace Evaluation

variable {fw : Firmware} {outer : Environment} {given : List Value} {run : Evaluation}
  {effect : Effect} {ctx : Context}

/-- A call keeps within the bounds that it got at its start. -/
structure Confined (outer : Environment) (given : List Value) (run : Evaluation) : Prop where
  memory : outer.Confined given false run.context.env
  operands : ∀ value ∈ run.context.values, value.Within (outer.Grants given)
  frames : run.progress = .going → CallFrames run.context.frames

section Confined

variable (honest : fw.library.Honest)
include honest

theorem proceed_confined (memory : outer.Confined given false ctx.env)
    (opds : ∀ value ∈ ctx.values, value.Within (outer.Grants given))
    (frames : CallFrames ctx.frames) : (run.proceed effect ctx).Confined outer given := by
  cases effect with
  | request request =>
    obtain ⟨_, answers, _, _⟩ := run
    cases answers with
    | nil => exact ⟨memory, opds, nofun⟩
    | cons answer answers =>
      have operand := Firmware.response_operand
        (fw.confinement honest outer given false) request answer
      exact ⟨memory, forall_mem_cons.mpr ⟨operand, opds⟩, fun _ => frames⟩
  | _ => exact ⟨memory, opds, fun _ => frames⟩

section Step

variable {frame : Frame} {rest : List Frame} (top : run.context.frames = frame :: rest)
  (going : run.progress = .going) (sound : run.Sound fw outer)
  (confined : run.Confined outer given)
include top going sound confined

theorem Confined.step :
    let bounded (next : Context) : Prop := outer.Confined given (fw.closes frame) next.env ∧
      ∀ value ∈ next.values, value.Within (outer.Grants given)
    (Act.runFrame fw frame).Meets { run.context with frames := rest }
      (fun _ => bounded) (fun _ => bounded) := by
  refine Firmware.step_confined honest frame confined.memory confined.operands ?_
  intro looks name cell found
  have rests := sound.rests going
  have frames := confined.frames going
  rw [top] at rests frames
  obtain ⟨level, above, inside⟩ := rests.exists_function (frames.function_mem looks)
  exact confined.memory.lookup? above inside found

theorem Confined.settle_ok {next : Context}
    (out : fw.step run.context frame rest = .ok effect next) :
    (run.proceed effect next).Confined outer given := by
  obtain ⟨memory, opds⟩ := (confined.step honest top going sound).of_ok out
  have leaves := sound.leaves going
  have rests := leaves.step_rests top (sound.rests going) out
  have frames := confined.frames going
  rw [top] at frames
  exact proceed_confined honest (memory.restore rests.size_le) opds
    (frames.step (leaves.stepped top out))

theorem Confined.settle_error (out : fw.step run.context frame rest = .error fault final) :
    ({ run with context := final, progress := .failed fault } : Evaluation).Confined
      outer given := by
  obtain ⟨memory, opds⟩ := (confined.step honest top going sound).of_error out
  have roomy : outer.locals.size ≤ final.env.locals.size := by
    cases closes : fw.closes frame with
    | false => exact memory.roomy closes
    | true =>
      have rests := sound.rests going
      rw [top] at rests
      have spares : (Act.runFrame fw frame).Spares outer
          { run.context with frames := rest } := Act.spares_runFrame closes rests
      exact spares.of_error out
  exact ⟨memory.restore roomy, opds, nofun⟩

end Step

theorem next_confined (sound : run.Sound fw outer) (confined : run.Confined outer given) :
    (run.next fw []).Confined outer given := by
  by_cases going : run.progress = .going
  · cases top : run.context.frames with
    | nil => rwa [next_of_returns ⟨going, top⟩]
    | cons frame rest =>
      rw [next_of_cons going top (cons_ne_nil _ _)]
      cases out : fw.step run.context frame rest with
      | ok effect next => exact confined.settle_ok honest top going sound out
      | error fault final => exact confined.settle_error honest top going sound out
  · rwa [next_of_ne_going going]

theorem Confined.iterate (confined : run.Confined outer given) (sound : run.Sound fw outer)
    (steps : Nat) : ((next fw [])^[steps] run).Confined outer given := by
  induction steps with
  | zero => exact confined
  | succ steps ih =>
    rw [Function.iterate_succ_apply']
    exact next_confined honest (iterate_sound sound steps) ih

end Confined

/-- What is run is what a run of the whole program reaches. -/
structure Reached (fw : Firmware) (run : Evaluation) : Prop where
  going : run.progress = .going → fw.Reaches none run.context
  asking : ∀ request, run.progress = .asking request → fw.Reaches (some request) run.context
  failed : ∀ fault, run.progress = .failed fault → fw.Fails fault run.context

theorem proceed_reached (going : run.progress = .going) (reached : fw.Reaches effect.request? ctx) :
    (run.proceed effect ctx).Reached fw := by
  obtain ⟨_, answers, _, _⟩ := run
  cases going
  cases effect with
  | request request =>
    cases answers with
    | nil =>
      refine ⟨nofun, ?_, nofun⟩
      rintro _ ⟨rfl⟩
      exact reached
    | cons answer answers => exact ⟨fun _ => reached.answer answer, nofun, nofun⟩
  | _ => exact ⟨fun _ => reached, nofun, nofun⟩

theorem next_reached (base : List Frame) (reached : run.Reached fw) :
    (run.next fw base).Reached fw := by
  by_cases going : run.progress = .going
  · by_cases returned : run.context.frames = base
    · rwa [next_of_returns ⟨going, returned⟩]
    · cases top : run.context.frames with
      | nil => rwa [next_of_nil top]
      | cons frame rest =>
        rw [next_of_cons going top (top ▸ returned)]
        have here := reached.going going
        cases out : fw.step run.context frame rest with
        | ok effect next => exact proceed_reached going (here.step top out)
        | error fault final =>
          refine ⟨nofun, nofun, ?_⟩
          rintro _ ⟨rfl⟩
          exact ⟨run.context, frame, rest, here, top, out⟩
  · rwa [next_of_ne_going going]

end Evaluation

namespace Firmware

variable {fw : Firmware} {ctx : Context}

theorem LeavesOne.call (suits : fw.Suits (.call fn args.length loc)) (env : Environment)
    (random : UInt64) : fw.LeavesOne 0 ⟨env, [.call fn args.length loc], args, random⟩ where
  suited := by
    intro frame among
    rcases mem_cons.mp among with rfl | ending
    · exact suits
    · obtain rfl := mem_singleton.mp ending
      trivial
  layered := ⟨rfl, rfl, trivial⟩
  operands := by simp [operandsAfter, operandsBehind, pops, Frame.pushes]

/-- What a call has come to after some steps, with the answers of the host at hand. It is over
when just the frames below it are left. -/
def callRun (fw : Firmware) (call : Context) (base : List Frame) (answers : List Primitive)
    (steps : Nat) : Evaluation :=
  (next fw base)^[steps] { context := call, answers }

theorem Reaches.callRun (reached : fw.Reaches none ctx) (base : List Frame)
    (answers : List Primitive) (steps : Nat) : (fw.callRun ctx base answers steps).Reached fw := by
  induction steps with
  | zero => exact ⟨fun _ => reached, nofun, nofun⟩
  | succ steps ih =>
    rw [Firmware.callRun, Function.iterate_succ_apply']
    exact next_reached base ih

theorem Reaches.pops_le (reached : fw.Reaches none ctx) (top : ctx.frames = frame :: rest) :
    fw.pops frame ≤ ctx.values.length := by
  have opds := reached.balanced.operands
  rw [top, operandsAfter_cons] at opds
  obtain ⟨behind, taken, -⟩ := Option.bind_eq_some_iff.mp opds
  exact Act.pops_le_of_operandsBehind taken

theorem Reaches.callRun_confined (reached : fw.Reaches none call)
    (top : call.frames = .call fn argc loc :: base) (honest : fw.library.Honest)
    (answers : List Primitive) (steps : Nat) :
    ∃ own : Evaluation, own.Confined call.env (call.values.take argc) ∧
      fw.callRun call base answers steps = own.on base (call.values.drop argc) := by
  let args := call.values.take argc
  have length : args.length = argc := length_take_of_le (reached.pops_le top)
  have suits : fw.Suits (.call fn args.length loc) :=
    reached.balanced.suited _ (by simp [top, length])
  let own : Evaluation :=
    { context := ⟨call.env, [.call fn args.length loc], args, call.random⟩, answers }
  have sound : own.Sound fw call.env :=
    ⟨fun _ => .call suits call.env call.random, fun _ => .refl call.env⟩
  have confined : own.Confined call.env args := ⟨.start reached.anchored args,
      fun value among cell points => (Environment.Reachable.given among points).grants,
      fun _ => .calling⟩
  have whole : own.on base (call.values.drop argc) = { context := call, answers } := by
    obtain ⟨env, frames, values, random⟩ := call
    cases top
    simp [own, on, Context.on, Frame.raise, args, length]
  refine ⟨_, confined.iterate honest sound steps, ?_⟩
  rw [Firmware.callRun, ← whole]
  exact iterate_on base _ sound steps

theorem Reaches.locals_of_program (reached : fw.Reaches none ctx)
    (top : ctx.frames = .program phase :: rest) : ctx.env.locals = #[] := by
  obtain ⟨balanced, mirrors⟩ := reached.balanced_and_mirrors
  have layered := balanced.layered
  rw [top] at layered
  cases rest with
  | cons lower rest => cases layered.1
  | nil => exact (locals_eq_empty_of_scopeKinds_eq_nil mirrors (top ▸ rfl)).2

/-- A callee can change only what it can reach. Through a call, with all that it calls and
whatever the host answers, a local that is live at its start stays as it is, even if the call
fails, unless pointers lead to it from the arguments or from the globals. Functions that the
driver calls find no locals. -/
theorem callee_leaves_unreachable (firmware : Firmware) (honest : firmware.library.Honest) :
    (∀ call function argc location base answers steps,
      firmware.Reaches none call → call.frames = .call function argc location :: base →
      let run := firmware.callRun call base answers steps
      run.Reached firmware ∧ base <:+ run.context.frames ∧
      ∀ index generation held,
        call.env.resolve? (.frame index generation) = some held →
        ¬ call.env.Reachable (call.values.take argc) (.frame index generation) →
        run.context.env.resolve? (.frame index generation) = some held) ∧
    ∀ context phase rest, firmware.Reaches none context →
      context.frames = .program phase :: rest → context.env.locals = #[] := by
  refine ⟨?_, fun context phase rest reached top => reached.locals_of_program top⟩
  intro call function argc location base answers steps reached top run
  obtain ⟨own, confined, same⟩ := reached.callRun_confined top honest answers steps
  refine ⟨reached.callRun base answers steps, ?_, ?_⟩
  · rw [show run = _ from same]
    exact suffix_append _ _
  · intro index generation held live unreachable
    rw [show run = _ from same]
    exact confined.memory.spared live unreachable

/-- A function gets a structure with the address of a local of its caller. Another local, whose
address the caller keeps for itself, has a namesake in the function. -/
def loan : Firmware where
  program := {
    nodes := #[
      ⟨.structDef "Box" [⟨"slot", { base := .int, pointerDepth := 1 }⟩], ⟨1, 1⟩⟩,
      ⟨.intLiteral 5 false, ⟨2, 34⟩⟩, ⟨.varDecl "kept" (.of .int) (some 1) false false, ⟨2, 27⟩⟩,
      ⟨.identifier "box", ⟨2, 38⟩⟩, ⟨.member 3 "slot" false, ⟨2, 41⟩⟩, ⟨.unary .deref 4, ⟨2, 37⟩⟩,
      ⟨.intLiteral 0 false, ⟨2, 60⟩⟩, ⟨.call "analogRead" [6], ⟨2, 49⟩⟩, ⟨.assign 5 7, ⟨2, 47⟩⟩,
      ⟨.exprStmt 8, ⟨2, 37⟩⟩, ⟨.identifier "kept", ⟨2, 64⟩⟩, ⟨.intLiteral 6 false, ⟨2, 71⟩⟩,
      ⟨.assign 10 11, ⟨2, 69⟩⟩, ⟨.exprStmt 12, ⟨2, 64⟩⟩, ⟨.block [2, 9, 13], ⟨2, 21⟩⟩,
      ⟨.functionDef "poke" [⟨"box", .of (.record "Box")⟩] (.of .void) 14, ⟨2, 6⟩⟩,
      ⟨.intLiteral 1 false, ⟨3, 29⟩⟩, ⟨.varDecl "kept" (.of .int) (some 16) false false, ⟨3, 22⟩⟩,
      ⟨.intLiteral 2 false, ⟨3, 43⟩⟩, ⟨.varDecl "lent" (.of .int) (some 18) false false, ⟨3, 36⟩⟩,
      ⟨.identifier "kept", ⟨3, 60⟩⟩, ⟨.unary .addressOf 20, ⟨3, 59⟩⟩,
      ⟨.varDecl "other" { base := .int, pointerDepth := 1 } (some 21) false false, ⟨3, 51⟩⟩,
      ⟨.identifier "lent", ⟨3, 78⟩⟩, ⟨.unary .addressOf 23, ⟨3, 77⟩⟩, ⟨.initList [24], ⟨3, 76⟩⟩,
      ⟨.varDecl "box" (.of (.record "Box")) (some 25) false false, ⟨3, 70⟩⟩,
      ⟨.identifier "box", ⟨3, 90⟩⟩, ⟨.call "poke" [27], ⟨3, 85⟩⟩, ⟨.exprStmt 28, ⟨3, 85⟩⟩,
      ⟨.block [17, 19, 22, 26, 29], ⟨3, 14⟩⟩, ⟨.functionDef "setup" [] (.of .void) 30, ⟨3, 6⟩⟩]
    items := [0, 15, 31] }

/-- The context in which `loan` calls the function. -/
def loanCall : Context := (loan.callRun (.initial Session.defaultSeed) [] [] 26).context

theorem loanCall_reached : loan.Reaches none loanCall := by
  refine (Reaches.start.callRun [] [] 26).going ?_
  decide +kernel

theorem loanCall_unreachable : ¬ loanCall.env.Reachable (loanCall.values.take 1) (.frame 0 0) := by
  intro reachable
  have encloses : loanCall.env.Encloses (loanCall.values.take 1) [.frame 1 1] := by
    decide +kernel
  cases mem_singleton.mp (reachable.mem_of_encloses encloses)

/-- The function returns, and has changed the one local but not the other. -/
theorem loan_spares_local :
    let base := loanCall.frames.tail
    let integer (run : Evaluation) (cell : Cell) : Option Int64 :=
      (run.context.env.resolve? cell).bind (·.value.integer?)
    loan.library.Honest ∧ loan.Reaches none loanCall ∧
      loanCall.frames = .call 15 1 ⟨3, 85⟩ :: base ∧
      ¬ loanCall.env.Reachable (loanCall.values.take 1) (.frame 0 0) ∧
      (loan.callRun loanCall base [.int 742] 27).Returns base ∧
      integer (loan.callRun loanCall base [.int 742] 27) (.frame 1 1) = some 742 ∧
      ∀ answers steps,
        integer (loan.callRun loanCall base answers steps) (.frame 0 0) = some 1 := by
  intro base integer
  have top : loanCall.frames = .call 15 1 ⟨3, 85⟩ :: base := by decide +kernel
  have live : (loanCall.env.resolve? (.frame 0 0)).bind (·.value.integer?) = some 1 := by
    decide +kernel
  refine ⟨Library.standard_honest, loanCall_reached, top, loanCall_unreachable, ?_, ?_, ?_⟩
  · decide +kernel
  · decide +kernel
  · intro answers steps
    obtain ⟨held, resolved, value⟩ := Option.bind_eq_some_iff.mp live
    obtain ⟨calls, -⟩ := callee_leaves_unreachable loan Library.standard_honest
    obtain ⟨-, -, spares⟩ := calls loanCall 15 1 ⟨3, 85⟩ base answers steps loanCall_reached top
    have kept := spares 0 0 held resolved loanCall_unreachable
    exact Option.bind_eq_some_iff.mpr ⟨held, kept, value⟩

end Firmware

end Breadboard
