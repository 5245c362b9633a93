import Breadboard.Proofs.Machine.ExpressionTurn

/-!
Statements, loops, calls and jumps as turns of their frames.
-/

namespace Breadboard.Act

open Firmware Environment

variable {fw : Firmware} {ctx : Context} {node : NodeId} {hasScope : Bool}

/-! Statements. -/

theorem declareIn_meets (loc : Location)
    (done : ∀ cell env, ctx.env.Extends env → yields cell { ctx with env }) :
    (declareIn decl loc).Meets ctx yields FromData := by
  simp only [declareIn, meets_bind, meets_environment, meets_setEnvironment, meets_pure]
  exact attemptMemory_meets loc fun res out =>
    done res.1 res.2 (Environment.Extends.declare out)

theorem declareStatic_meets (loc : Location)
    (done : ∀ cell env, ctx.env.Extends env → yields cell { ctx with env }) :
    (declareStatic node decl loc).Meets ctx yields FromData := by
  simp only [declareStatic, meets_bind, meets_environment, meets_setEnvironment]
  exact attemptMemory_meets loc fun cell _ =>
    done cell _ (.declareStatic ctx.env node decl)

theorem declareVariable_meets (suits : fw.Suits (.declare node))
    (done : ∀ effect env, effect.isPlain = true → ctx.env.Extends env →
      yields effect { ctx with env }) :
    (declareVariable fw node init).Meets ctx yields FromData := by
  obtain ⟨name, type, expr, isStatic, isVolatile, kind⟩ := suits
  have allocated (decl : Variable) (report : Cell → Act Effect)
      (reports : ∀ cell env, ctx.env.Extends env →
        (report cell).Meets { ctx with env } yields FromData) :
      (if isStatic = true then
        declareStatic node decl (fw.program.location node) >>= report
      else declareIn decl (fw.program.location node) >>= report).Meets ctx yields FromData := by
    split
    · exact (meets_bind _ _).mpr (declareStatic_meets _ reports)
    · exact (meets_bind _ _).mpr (declareIn_meets _ reports)
  simp only [declareVariable, kind, meets_bind, meets_environment]
  split
  · simp only [meets_bind, meets_setEnvironment, meets_pure]
    exact attemptMemory_meets _ fun env bound => done _ env rfl (.bind bound)
  · cases init with
    | none =>
      simp only [pure_bind]
      exact allocated _ _ fun cell env declares => done .quiet env rfl declares
    | some given =>
      simp only [meets_bind]
      exact convert_meets _ fun value => allocated _ _ fun cell env declares =>
        done _ env rfl declares

theorem constructObject_turns (suits : fw.Suits (.construct node))
    (enough : fw.pops (.construct node) ≤ ctx.values.length) :
    (constructObject fw node).Meets ctx (Turned fw (.construct node) ctx) FromData := by
  obtain ⟨name, className, args, kind⟩ := suits
  have taken : fw.pops (.construct node) = args.length := by
    simp [pops, kind, NodeKind.argumentCount]
  simp only [constructObject, kind, meets_bind]
  refine popMany_meets _ (taken ▸ enough) fun values _ =>
    declareIn_meets _ fun cell env declares => ?_
  exact .moved .construct rfl (by rw [taken]) declares

theorem runBlock_turns (suits : fw.Suits (.block node next hasScope)) :
    (runBlock fw node next hasScope).Turns fw (.block node next hasScope) ctx := by
  unfold runBlock
  split
  · split
    · exact .frames (.nextStatement ‹_› ‹_›) rfl rfl
    · cases hasScope with
      | true => exact .moved .closeBlock rfl rfl rfl
      | false => exact .frames .endBlock rfl rfl
  · rename_i other
    cases hasScope with
    | true =>
      obtain ⟨statements, kind⟩ := suits rfl
      exact absurd kind (other statements)
    | false => exact .frames .endBlock rfl rfl

theorem runBranch_turns (suits : fw.Suits (.branch node))
    (enough : 1 ≤ ctx.values.length) : (runBranch fw node).Turns fw (.branch node) ctx := by
  obtain ⟨condition, thenBranch, elseBranch, kind⟩ := suits
  simp only [runBranch, kind, meets_bind]
  refine pop_meets _ enough fun value => truth_meets _ fun holds => ?_
  cases holds with
  | true => exact .frames (.thenBranch kind) rfl rfl
  | false => exact .frames (.elseBranch kind) rfl rfl

/-! Loops and switches. -/

/-- A frame fails because of values, or it is a loop that has run too often. -/
def Fair (frame : Frame) (fault : Fault) (_ : Context) : Prop :=
  fault.cause.isOwn = false ∨ ∃ node phase iters hasScope limit,
    frame = .loop node phase iters hasScope ∧ fault.cause = .iterationCap limit

theorem startBody_turns (loc : Location) (starts : phase = .test ∨ phase = .body)
    (loop : (fw.program.kind node).loop? = some parts) (opds :
      ctx.values.drop (fw.pops (.loop node phase iters hasScope)) = below) :
    (startBody fw node parts iters hasScope loc).Meets { ctx with values := below }
      (fun _ => Turned fw (.loop node phase iters hasScope) ctx .quiet)
      (Fair (.loop node phase iters hasScope)) := by
  have started : Turned fw (.loop node phase iters hasScope) ctx .quiet _ :=
    .frames (.startBody starts loop) rfl opds
  unfold startBody
  dsimp only
  split
  · rename_i limit _
    split
    · exact .inr ⟨node, phase, iters, hasScope, limit, rfl, rfl⟩
    · exact started
  · exact started

theorem runLoop_turns (suits : fw.Suits (.loop node phase iters hasScope))
    (enough : fw.pops (.loop node phase iters hasScope) ≤ ctx.values.length) :
    (runLoop fw node phase iters hasScope).Meets ctx
      (fun _ => Turned fw (.loop node phase iters hasScope) ctx .quiet)
      (Fair (.loop node phase iters hasScope)) := by
  obtain ⟨parts, loop⟩ := suits
  simp only [runLoop, loop]
  cases phase with
  | cond =>
    dsimp only
    split
    · exact .frames (.loopCondition loop ‹_›) rfl rfl
    · exact .plainly [_] (.noCondition loop) rfl rfl rfl ⟨rfl, rfl, rfl⟩
  | test =>
    simp only [meets_bind]
    refine (pop_meets _ enough fun value => ?_).weaken (fun _ _ => id) fun _ _ => .inl
    refine (truth_meets _ fun holds => ?_).weaken (fun _ _ => id) fun _ _ => .inl
    cases holds with
    | true => exact startBody_turns _ (.inl rfl) loop rfl
    | false =>
      cases hasScope with
      | true => exact .moved .closeLoop rfl rfl rfl
      | false => exact .frames .endLoop rfl rfl
  | body => exact startBody_turns _ (.inr rfl) loop rfl
  | advance =>
    dsimp only
    split
    · exact .frames (.increment loop ‹_›) rfl rfl
    · exact .frames (.noIncrement loop) rfl rfl

theorem runSwitchSelect_turns (suits : fw.Suits (.switchSelect node))
    (enough : 1 ≤ ctx.values.length) :
    (runSwitchSelect fw node).Turns fw (.switchSelect node) ctx := by
  obtain ⟨expr, cases, kind⟩ := suits
  simp only [runSwitchSelect, kind, meets_bind]
  refine pop_meets _ enough fun value => ?_
  split
  · rfl
  · rename_i selector _
    simp only [meets_bind, meets_environment]
    split
    · rename_i fault failed
      have labels := selectArm_answers
        (fun id => fw.labelAt_answers ctx.env (fw.program.nodes.size + 1) id)
        selector 0 none cases
      exact labels.of_fault failed
    · exact .frames .selectNone rfl rfl
    · exact .moved (.selectArm kind) rfl rfl (pushScope_enters _ _)

theorem runSwitch_turns (suits : fw.Suits (.switch node arm next)) :
    (runSwitch fw node arm next).Turns fw (.switch node arm next) ctx := by
  obtain ⟨expr, cases, kind⟩ := suits
  simp only [runSwitch, kind]
  split
  · exact .moved .closeSwitch rfl rfl rfl
  · split
    · exact .frames (.armStatement kind ‹_› ‹_›) rfl rfl
    · exact .frames (.nextArm kind ‹_›) rfl rfl

/-! Calls. -/

theorem bindParameters_meets (loc : Location) (params : List Field) (args : List Value)
    (done : ∀ env, ctx.env.Extends env → yields () { ctx with env }) :
    (bindParameters fw loc params args).Meets ctx yields FromData := by
  induction params generalizing args ctx with
  | nil => exact done ctx.env (.refl _)
  | cons param params ih =>
    cases args with
    | nil => exact done ctx.env (.refl _)
    | cons arg args =>
      simp only [bindParameters, meets_bind, meets_environment, meets_setEnvironment]
      refine convert_meets loc fun value => ?_
      refine attemptMemory_meets loc fun res out => ?_
      refine ih args fun env declares => ?_
      exact done env ((Environment.Extends.declare out).trans declares)

/-- A call puts the frames of its body in its place and opens the scope of its parameters. -/
theorem enterFunction_meets (args : List Value) (loc : Location)
    (kind : fw.program.kind fn = .functionDef name params retType body)
    (done : ∀ env, (ScopeMove.enter .function).Relates ctx.env env → args.length = params.length →
      yields () { ctx with
        env
        frames := Frame.entry body retType ctx.values.length loc ++ ctx.frames }) :
    (enterFunction fw fn args loc).Meets ctx yields FromData := by
  simp only [enterFunction, kind]
  split
  · rfl
  · rename_i counted
    simp only [meets_bind, meets_openScope, meets_get, meets_schedule]
    refine bindParameters_meets loc params args fun env declares => ?_
    exact done env declares (by simpa using counted)

theorem call_turns (suits : fw.Suits (.call fn argc loc)) :
    (enterFunction fw fn args loc).Meets { ctx with values := ctx.values.drop argc }
      (fun _ => Turned fw (.call fn argc loc) ctx .quiet) FromData := by
  obtain ⟨name, params, retType, body, kind⟩ := suits
  refine enterFunction_meets args loc kind fun env enters _ => ?_
  rw [List.length_drop]
  exact .moved (.call kind) rfl rfl enters

theorem finishCall_turns (balanced : ctx.values.length = height + returned.toNat) :
    (finishCall fw retType height returned loc).Turns fw
      (.callReturn retType height returned loc) ctx := by
  have finished (value : Value) : (do
      truncate height
      closeScope
      push (← convert fw value retType loc) : Act Unit).Meets
        { ctx with values := ctx.values.drop returned.toNat }
        (fun _ => Turned fw (.callReturn retType height returned loc) ctx .quiet)
        FromData := by
    simp only [meets_bind, meets_truncate, meets_closeScope]
    refine convert_meets loc fun converted => ?_
    have below : ctx.values.length - returned.toNat = height := by omega
    have turn : Turn fw (ctx.values.length - returned.toNat)
        (.callReturn retType height returned loc) 1 [] .exit := by
      rw [below]
      exact .callReturn
    exact .plainly [converted] turn rfl rfl (by simp [pops, below]) rfl
  cases returned with
  | true =>
    simp only [finishCall, if_true]
    exact (meets_bind _ _).mpr (pop_meets loc (by simp at balanced; omega) finished)
  | false =>
    simp only [finishCall, Bool.false_eq_true, if_false, pure_bind]
    exact finished _

/-! Jumps. -/

theorem unwind_splits (stop : Frame → Bool) (env : Environment) (frames : List Frame) :
    ∃ above below, frames = above ++ below ∧ (∀ frame ∈ above, stop frame = false) ∧
      (∀ frame, below.head? = some frame → stop frame = true) ∧
      unwind stop env frames = (env.release above, below) := by
  induction frames generalizing env with
  | nil => exact ⟨[], [], rfl, by simp, by simp, rfl⟩
  | cons frame rest ih =>
    cases stopped : stop frame with
    | true => exact ⟨[], frame :: rest, rfl, by simp, by simp [stopped], by
        simp [unwind, stopped, Environment.release]⟩
    | false =>
      obtain ⟨above, below, split, passed, stops, out⟩ :=
        ih (if frame.ownsScope then env.popScope else env)
      refine ⟨frame :: above, below, by simp [split], by simpa [stopped] using passed, stops, ?_⟩
      simp [unwind, stopped, out, Environment.release]

theorem unwindTo_meets (stop : Frame → Bool) (done : ∀ above below, ctx.frames = above ++ below →
      (∀ frame ∈ above, stop frame = false) →
      (∀ frame, below.head? = some frame → stop frame = true) →
      yields below.head? { ctx with env := ctx.env.release above, frames := below }) :
    (unwindTo stop).Meets ctx yields fails := by
  obtain ⟨above, below, split, passed, stops, out⟩ := unwind_splits stop ctx.env ctx.frames
  simp only [unwindTo, meets_bind, meets_get, out, meets_set, meets_pure]
  exact done above below split passed stops

theorem breakLoop_jumps (kind : fw.program.kind node = .breakStmt) :
    (breakLoop (fw.program.location node)).Meets ctx
      (fun _ => Jump fw ctx (.exec node)) FromData := by
  rw [breakLoop, meets_bind]
  refine unwindTo_meets Frame.stopsBreak fun above below split passed stops => ?_
  have released {stop : Frame} (first : below.head? = some stop) (inside : stop.isBarrier = false) :
      release.Meets { ctx with env := ctx.env.release above, frames := below }
        (fun _ => Jump fw ctx (.exec node)) FromData := by
    obtain ⟨below, rfl⟩ := List.head?_eq_some_iff.mp first
    have jump := Jump.breakOut kind split passed (stops stop rfl) inside
    simp only [release, meets_bind, meets_get, meets_set]
    simpa [Environment.release] using jump
  split
  · exact released ‹_› rfl
  · exact released ‹_› rfl
  · rfl

theorem continueLoop_jumps (kind : fw.program.kind node = .continueStmt) :
    (continueLoop (fw.program.location node)).Meets ctx
      (fun _ => Jump fw ctx (.exec node)) FromData := by
  rw [continueLoop, meets_bind]
  refine unwindTo_meets Frame.stopsContinue fun above below split passed stops => ?_
  split
  · rename_i first
    obtain ⟨below, rfl⟩ := List.head?_eq_some_iff.mp first
    exact .goOn kind split passed (stops _ rfl) rfl
  · rfl

theorem returnValue_jumps (value : Value) (loc : Location)
    (behind : opds = ctx.values.drop (fw.pops (.leave node))) :
    (returnValue value loc).Meets { ctx with values := opds }
      (fun _ => Jump fw ctx (.leave node)) FromData := by
  rw [returnValue, meets_bind]
  refine unwindTo_meets Frame.isBarrier fun above below split passed stops => ?_
  split
  · rename_i first
    obtain ⟨below, rfl⟩ := List.head?_eq_some_iff.mp first
    exact .leave split passed behind
  · rfl

theorem leaveFunction_jumps (suits : fw.Suits (.leave node))
    (enough : fw.pops (.leave node) ≤ ctx.values.length) :
    (leaveFunction fw node).Meets ctx (fun _ => Jump fw ctx (.leave node)) FromData := by
  obtain ⟨expr, kind⟩ := suits
  cases expr with
  | some expr =>
    have taken : fw.pops (.leave node) = 1 := by
      simp [pops, kind, NodeKind.returnsValue]
    simp only [leaveFunction, kind, meets_bind]
    exact pop_meets _ (taken ▸ enough) fun value => returnValue_jumps value _ (by rw [taken])
  | none =>
    simp only [leaveFunction, kind, pure_bind]
    exact returnValue_jumps .void _ (by simp [pops, kind, NodeKind.returnsValue])

/-! The start of a statement. -/

theorem exec_steps (node : NodeId) :
    (exec fw node).Meets ctx (Stepped fw (.exec node) ctx) FromData := by
  have decl {name : String} {type : DataType} {init : Option NodeId} {isStatic isVolatile : Bool}
      (kind : fw.program.kind node = .varDecl name type init isStatic isVolatile) :
      (declareVariable fw node none).Meets ctx (Stepped fw (.exec node) ctx) FromData :=
    declareVariable_meets ⟨_, _, _, _, _, kind⟩ fun effect env plain declares =>
      .inl (.moved (.declared kind) plain rfl declares)
  unfold exec
  cases kind : fw.program.kind node with
  | block =>
    exact .inl (.moved (.openBlock kind) rfl rfl (pushScope_enters _ _))
  | exprStmt => exact .inl (.frames (.exprStmt kind) rfl rfl)
  | varDecl name type init isStatic isVolatile =>
    simp only [meets_bind, meets_environment]
    cases init with
    | none => exact decl kind
    | some expr =>
      dsimp only
      split
      · exact decl kind
      · exact .inl (.frames (.initializer kind) rfl rfl)
  | objectDecl => exact .inl (.frames (.objectArguments kind) rfl rfl)
  | declGroup => exact .inl (.frames (.group kind) rfl rfl)
  | ifElse => exact .inl (.frames (.condition kind) rfl rfl)
  | whileLoop => exact .inl (.frames (.whileLoop kind) rfl rfl)
  | doWhile => exact .inl (.frames (.doWhile kind) rfl rfl)
  | forLoop => exact .inl (.moved (.forLoop kind) rfl rfl (pushScope_enters _ _))
  | switch => exact .inl (.frames (.selector kind) rfl rfl)
  | returnStmt => exact .inl (.frames (.result kind) rfl rfl)
  | breakStmt =>
    simp only [meets_bind]
    exact (breakLoop_jumps kind).weaken (fun _ _ jump => .inr ⟨rfl, jump⟩) fun _ _ => id
  | continueStmt =>
    simp only [meets_bind]
    exact (continueLoop_jumps kind).weaken (fun _ _ jump => .inr ⟨rfl, jump⟩) fun _ _ => id
  | empty => exact .inl (.frames (.empty kind) rfl rfl)
  | functionDef | structDef => rfl
  | _ => exact .inl (.frames (.expression (by simp only [isJump, kind])) rfl rfl)

end Breadboard.Act
