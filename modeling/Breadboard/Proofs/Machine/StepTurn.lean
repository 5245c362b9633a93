import Breadboard.Proofs.Machine.StatementTurn

/-!
Every step is a turn or a jump. A step at a frame that stands for a node of the
right kind and finds its operands either does what `Stepped` lists, or fails for a
cause that the sketch is to blame for.
-/

namespace Breadboard

open Arguments

theorem Program.function?_kind {prog : Program} (found : prog.function? name = some fn) :
    ∃ name params retType body, prog.kind fn = .functionDef name params retType body := by
  have defines := List.find?_some found
  unfold definesFunction at defines
  split at defines
  · exact ⟨_, _, _, _, ‹_›⟩
  · cases defines

namespace Act

variable {fw : Firmware} {ctx : Context} (loc : Location) {behind : Nat}
  {frame : Frame} {node : NodeId} {values below : List Value} {method : String}

theorem callMain_meets
    (found : fw.program.function? name = some fn) (done : ∀ env name retType body,
      fw.program.kind fn = .functionDef name [] retType body →
      (ScopeMove.enter .function).Relates ctx.env env →
      yields () { ctx with
        env
        frames := Frame.entry body retType ctx.values.length
          (fw.program.location fn) ++ .discard :: ctx.frames }) :
    (callMain fw fn).Meets ctx yields FromData := by
  obtain ⟨name, params, retType, body, kind⟩ := Program.function?_kind found
  rw [callMain, meets_bind, meets_schedule]
  refine enterFunction_meets [] _ kind fun env enters counted => ?_
  obtain rfl : params = [] := List.length_eq_zero_iff.mp counted.symm
  exact done env name retType body kind enters

theorem runProgram_turns (phase : ProgramPhase) :
    (runProgram fw phase).Meets ctx (Turned fw (.program phase) ctx) FromData := by
  cases phase with
  | globals next =>
    simp only [runProgram]
    split
    · exact .frames (.global ‹_›) rfl rfl
    · exact .frames (.globalsDone ‹_›) rfl rfl
  | setup =>
    simp only [runProgram, meets_bind, meets_schedule]
    split
    · rename_i fn found
      rw [meets_bind]
      refine callMain_meets found fun env name retType body kind enters => ?_
      have turned : Turned fw (.program .setup) ctx .quiet _ :=
        .moved (.setup found kind) rfl rfl enters
      exact turned
    · exact .frames (.noSetup ‹_›) rfl rfl
  | loop completed =>
    simp only [runProgram]
    split
    · exact .frames (.noLoop ‹_›) rfl rfl
    · rename_i fn found
      split
      · exact ⟨[], [], .keep, .loopLimit ‹_›, rfl, rfl, ⟨rfl, rfl, rfl⟩, fun _ limit => by
          cases limit; exact ⟨rfl, rfl⟩⟩
      · rename_i under
        simp only [meets_bind, meets_schedule]
        refine callMain_meets found fun env name retType body kind enters => ?_
        have turned : Turned fw (.program (.loop completed)) ctx .quiet _ :=
          .moved (.loop found (Nat.lt_of_not_le under) kind) rfl rfl enters
        exact turned

/-! Functions and methods of the board. -/

theorem drawRandom_meets (done : ∀ n random, yields (.int n) { ctx with random }) :
    (drawRandom args loc).Meets ctx yields FromData := by
  simp only [drawRandom]
  split
  · simp only [pure_bind, meets_bind]
    exact attempt_meets loc (integer_answers fun high => done _ _)
  · simp only [meets_bind]
    exact attempt_meets loc (integer_answers fun low =>
      attempt_meets loc (integer_answers fun high => done _ _))

theorem runBuiltin_meets (loc : Location) (returns : ∀ value effect random, effect.isPlain = true →
      yields effect { ctx with values := value :: ctx.values, random })
    (requests : ∀ request, yields (.request request) ctx) :
    (runBuiltin builtin values loc).Meets ctx yields FromData := by
  simp only [runBuiltin, meets_bind]
  refine attempt_meets loc (checkCount_answers fun _ => ?_)
  split
  · rename_i asked
    rw [meets_bind]
    exact attempt_meets loc ((Builtin.request?_answers asked).weaken fun request _ =>
      requests request)
  · split
    · rename_i told
      simp only [meets_bind]
      exact attempt_meets loc ((Builtin.command?_answers told).weaken fun cmd _ =>
        returns _ _ _ rfl)
    · split
      · rw [meets_bind]
        exact drawRandom_meets loc fun n random => returns _ _ _ rfl
      · simp only [seedRandom, meets_bind]
        exact attempt_meets loc (integer_answers fun seed => returns _ _ _ rfl)
      · simp only [meets_bind, meets_environment]
        exact attempt_meets loc ((Builtin.compute_answers _ _ _).weaken fun value _ =>
          returns _ _ _ rfl)

theorem runCallFrame_turns (suits : fw.Suits (.builtin node))
    (enough : fw.pops (.builtin node) ≤ ctx.values.length) :
    (runCallFrame fw node).Meets ctx (Turned fw (.builtin node) ctx) FromData := by
  obtain ⟨callee, args, kind⟩ := suits
  have taken : fw.pops (.builtin node) = args.length := by
    simp [Firmware.pops, kind, NodeKind.argumentCount]
  simp only [runCallFrame, kind, meets_bind]
  refine popMany_meets _ (taken ▸ enough) fun values _ => ?_
  split
  · refine runBuiltin_meets _ (fun value effect random plain => ?_) fun request => ?_
    · exact .plainly [value] .builtin plain rfl (by simp [taken]) ⟨rfl, rfl, rfl⟩
    · exact .request .builtin (by rw [taken])
  · rfl

section

variable (opds : ctx.values.drop (fw.pops (.method node)) = below)
include opds

theorem runText_turns : (runText text method values loc).Meets { ctx with values := below }
      (Turned fw (.method node) ctx) FromData := by
  simp only [runText, meets_bind, meets_environment]
  exact attempt_meets loc ((Text.call_answers _ _ _ _).weaken fun value _ =>
    .value .method rfl opds)

theorem runSerial_turns : (runSerial method values loc).Meets { ctx with values := below }
      (Turned fw (.method node) ctx) FromData := by
  simp only [runSerial, meets_bind, meets_environment]
  refine attempt_meets loc ((Serial.call_answers _ _ _).weaken fun reply _ => ?_)
  rw [meets_push]
  split <;> exact .value .method rfl opds

theorem runLibrary_turns :
    (runLibrary fw handle method values loc).Meets { ctx with values := below }
      (Turned fw (.method node) ctx) FromData := by
  unfold runLibrary
  split
  · rfl
  · split
    · exact .value .method rfl opds
    · rfl
  · rw [meets_bind, meets_environment]
    dsimp only
    split
    · exact .request .method opds
    · exact .value .method rfl opds

theorem runMethod_turns :
    (runMethod fw receiver method values loc).Meets { ctx with values := below }
      (Turned fw (.method node) ctx) FromData := by
  unfold runMethod
  split
  · split
    · exact runSerial_turns loc opds
    · exact runLibrary_turns loc opds
  · exact runText_turns loc opds
  · rw [meets_bind, meets_environment]
    split
    · exact runText_turns loc opds
    · rfl
  · rfl

end

theorem runMethodFrame_turns (suits : fw.Suits (.method node))
    (enough : fw.pops (.method node) ≤ ctx.values.length) :
    (runMethodFrame fw node).Meets ctx (Turned fw (.method node) ctx) FromData := by
  obtain ⟨receiver, method, args, kind⟩ := suits
  have taken : fw.pops (.method node) = args.length + 1 := by
    simp [Firmware.pops, kind, NodeKind.argumentCount]
  simp only [runMethodFrame, kind, meets_bind]
  refine popMany_meets _ (taken ▸ enough) fun values counted => ?_
  cases values with
  | nil => simp at counted
  | cons receiver values => exact runMethod_turns _ (by rw [taken])

/-! All frames. -/

theorem meets_quietly : (do act; pure .quiet : Act Effect).Meets ctx yields fails ↔
      act.Meets ctx (fun _ => yields .quiet) fails := by
  rw [meets_bind]
  rfl

/-- The operands before a frame suffice if there is a number of them behind it. -/
theorem pops_le_of_operandsBehind (out : fw.operandsBehind opds frame = some behind) :
    fw.pops frame ≤ opds := by
  unfold Firmware.operandsBehind at out
  split at out
  · split at out
    · simp only [Firmware.pops]
      omega
    · cases out
  · split at out
    · assumption
    · cases out

theorem runFrame_steps (suits : fw.Suits frame)
    (balanced : fw.operandsBehind ctx.values.length frame = some behind) :
    (runFrame fw frame).Meets ctx (Stepped fw frame ctx) (Fair frame) := by
  have enough := pops_le_of_operandsBehind balanced
  have turned {act : Act Effect} (turns : act.Meets ctx (Turned fw frame ctx) FromData) :
      act.Meets ctx (Stepped fw frame ctx) (Fair frame) :=
    turns.weaken (fun _ _ => .inl) fun _ _ => .inl
  have quiet {act : Act Unit} (turns : act.Turns fw frame ctx) :
      (do act; pure .quiet : Act Effect).Meets ctx (Stepped fw frame ctx)
        (Fair frame) :=
    meets_quietly.mpr (turns.weaken (fun _ _ => .inl) fun _ _ => .inl)
  cases frame with
  | program phase => exact turned (runProgram_turns phase)
  | exec node => exact (exec_steps node).weaken (fun _ _ => id) fun _ _ => .inl
  | block node next hasScope => exact quiet (runBlock_turns suits)
  | discard => exact .inl (.frames .discard rfl rfl)
  | declare node =>
    refine turned ?_
    simp only [runFrame, meets_bind]
    exact pop_meets _ enough fun value => declareVariable_meets suits
      fun effect env plain declares => .moved .declare plain rfl declares
  | construct node => exact turned (constructObject_turns suits enough)
  | branch node => exact quiet (runBranch_turns suits enough)
  | loop node phase iters hasScope =>
    exact meets_quietly.mpr ((runLoop_turns suits enough).weaken (fun _ _ => .inl) fun _ _ => id)
  | switchSelect node => exact quiet (runSwitchSelect_turns suits enough)
  | switch node arm next => exact quiet (runSwitch_turns suits)
  | leave node =>
    refine meets_quietly.mpr ((leaveFunction_jumps suits enough).weaken ?_ fun _ _ => .inl)
    exact fun _ _ jump => .inr ⟨rfl, jump⟩
  | call fn argc loc =>
    refine turned ?_
    simp only [runFrame, meets_bind]
    exact popMany_meets loc enough fun args _ => call_turns suits
  | callReturn retType height returned loc =>
    exact quiet (finishCall_turns (Option.ite_none_right_eq_some.mp balanced).1)
  | builtin node => exact turned (runCallFrame_turns suits enough)
  | method node => exact turned (runMethodFrame_turns suits enough)
  | eval node => exact quiet (eval_turns node)
  | evalPlace node => exact quiet (evalPlace_turns node)
  | load node => exact quiet (runLoad_turns enough)
  | binary node => exact quiet (runBinary_turns enough suits)
  | logical node isRight => exact quiet (runLogical_turns enough suits)
  | unary node => exact quiet (runUnary_turns enough suits)
  | incDec node => exact turned (runIncDec_turns enough suits)
  | select node => exact quiet (runSelect_turns enough suits)
  | assign node => exact turned (runAssign_turns enough)
  | compoundAssign node => exact turned (runCompoundAssign_turns enough suits)
  | cast node => exact quiet (runCast_turns enough suits)
  | collect count =>
    refine turned ?_
    simp only [runFrame, meets_bind]
    exact popMany_meets _ enough fun items _ => .value .collect rfl rfl
  | indexPlace node fromPlace => exact quiet (runIndexPlace_turns enough)
  | fieldPlace node => exact quiet (runFieldPlace_turns enough suits)
  | derefPlace node fromPlace => exact quiet (runDerefPlace_turns enough)

end Act

end Breadboard
