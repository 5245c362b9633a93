import Breadboard.Proofs.Session.Evaluation

/-!
Expressions that only compute. Their steps are quiet up to the last one, which may give a command.
What such an expression comes to is put together from what its parts come to: a part that leaves
memory and random numbers as they are hands on its value, or the cause for which it fails.
-/

open List

namespace Breadboard

open Act Evaluation

variable {ε α β : Type}

namespace Firmware

variable {out : Except Cause Value}

/-- What frames come to that are quiet up to their last step: the command of that step, if it
gives one, and the context without frames, or the cause of a fault. -/
inductive Ends (fw : Firmware) : Context → Except Cause (List Command × Context) → Prop where
  | gone (none : ctx.frames = []) : Ends fw ctx (.ok ([], ctx))
  | fails {ctx final frame rest fault} (top : ctx.frames = frame :: rest)
      (out : fw.step ctx frame rest = .error fault final) : Ends fw ctx (.error fault.cause)
  | quiet {ctx next frame rest result} (top : ctx.frames = frame :: rest)
      (out : fw.step ctx frame rest = .ok .quiet next)
      (ends : Ends fw next result) : Ends fw ctx result
  | emits {ctx final frame rest cmd} (top : ctx.frames = frame :: rest)
      (out : fw.step ctx frame rest = .ok (.emit cmd) final)
      (none : final.frames = []) : Ends fw ctx (.ok ([cmd], final))

variable {fw : Firmware} {env : Environment} {random : UInt64} {ctx : Context}
  {frame : Frame} {rest : List Frame} {values : List Value} {node copy : NodeId}
  {result other : Except Cause (List Command × Context)}

theorem Ends.unique (one : fw.Ends ctx result) (two : fw.Ends ctx other) : result = other := by
  induction one with
  | gone none =>
    cases two with
    | gone => rfl
    | fails top | quiet top | emits top => cases none.symm.trans top
  | fails top out | emits top out =>
    cases two with
    | gone none => cases none.symm.trans top
    | fails top' out' | quiet top' out' | emits top' out' =>
      cases top.symm.trans top'
      cases out.symm.trans out' <;> rfl
  | quiet top out ends ih =>
    cases two with
    | gone none => cases none.symm.trans top
    | quiet top' out' ends' =>
      cases top.symm.trans top'
      cases out.symm.trans out'
      exact ih ends'
    | fails top' out' | emits top' out' =>
      cases top.symm.trans top'
      cases out.symm.trans out'

/-- Frames on stacks that lie below: they come to what they come to alone, and then the frames
below go on. -/
theorem Ends.on {out : Except Cause α} {left : α → Context}
    (ends : fw.Ends own (out >>= fun value => .ok ([], left value))) (leaves : fw.LeavesOne 0 own)
    (frames : List Frame) (values : List Value)
    {next : α → Except Cause (List Command × Context)} (goesOn : ∀ value, out = .ok value →
      fw.Ends ((left value).on frames values) (next value)) :
    fw.Ends (own.on frames values) (out >>= next) := by
  generalize made : (out >>= fun value => .ok (([] : List Command), left value)) = result at ends
  induction ends with
  | gone =>
    cases out with
    | error => cases made
    | ok value =>
      cases made
      exact goesOn value rfl
  | fails top failed =>
    cases out with
    | ok => cases made
    | error cause =>
      cases made
      have above := leaves.step_on top frames values
      rw [failed] at above
      exact .fails (by simp [Context.on, top]) above
  | quiet top stepped ends ih =>
    have above := leaves.step_on top frames values
    rw [stepped] at above
    exact .quiet (by simp [Context.on, top]) above (ih (leaves.step_leaves top stepped) made)
  | emits => cases out <;> cases made

section Copying

variable {related : NodeId → NodeId → Prop} {copying : fw.program.Copying related} {twin : Context}

theorem eq_of_joins (joins : (Bridge.copying copying).Joins false ctx twin)
    (none : ctx.frames = []) : twin = ctx := by
  obtain ⟨env, frames, values, random⟩ := ctx
  obtain ⟨env', frames', values', random'⟩ := twin
  obtain ⟨-, rfl, rfl, values, above, matched, stack⟩ := joins
  cases none
  cases matched
  cases stack
  exact congrArg (Context.mk env' [] · random') (values.trans (append_nil _))

theorem LeavesOne.step_pairs (leaves : fw.LeavesOne 0 ctx)
    (joins : (Bridge.copying copying).Joins false ctx twin) (top : ctx.frames = frame :: rest) :
    ∃ frame' rest', twin.frames = frame' :: rest' ∧ (Bridge.copying copying).Pairs false
      Effect.Reports (fw.step ctx frame rest) (fw.step twin frame' rest') := by
  obtain ⟨behind, taken⟩ := leaves.taken top
  obtain ⟨above, matched, stack⟩ := joins.frames
  rw [top] at matched
  cases matched with
  | cons first below =>
    have called : frame.isStatement = true →
        ∃ other ∈ Context.frames { ctx with frames := rest }, other.isBarrier = true :=
      leaves.called top
    exact ⟨_, _, stack, runFrame_pairs called (leaves.suits top) taken Discipline.free_grows
      (fun _ _ => trivial) (fun _ _ _ => trivial) first
      ⟨Discipline.free_holds true _, joins.env, joins.random, joins.values, _, below, rfl⟩⟩

/-- What frames come to does not depend on where their expressions are written down. -/
theorem Ends.copied (copying : fw.program.Copying related)
    (ends : fw.Ends ctx result) (leaves : fw.LeavesOne 0 ctx)
    (joins : (Bridge.copying copying).Joins false ctx twin) : fw.Ends twin result := by
  induction ends generalizing twin with
  | gone none =>
    rw [eq_of_joins joins none]
    exact .gone none
  | fails top out =>
    obtain ⟨frame', rest', top', pair⟩ := leaves.step_pairs joins top
    cases out' : fw.step twin frame' rest' <;> rw [out, out'] at pair
    · exact pair.elim
    · exact pair.1 ▸ .fails top' out'
  | quiet top out ends ih =>
    obtain ⟨frame', rest', top', pair⟩ := leaves.step_pairs joins top
    cases out' : fw.step twin frame' rest' <;> rw [out, out'] at pair
    · obtain ⟨rfl, -, joins⟩ := pair
      exact .quiet top' out' (ih (leaves.step_leaves top out) joins)
    · exact pair.elim
  | emits top out none =>
    obtain ⟨frame', rest', top', pair⟩ := leaves.step_pairs joins top
    cases out' : fw.step twin frame' rest' <;> rw [out, out'] at pair
    · obtain ⟨rfl, -, joins⟩ := pair
      rw [eq_of_joins joins none] at out'
      exact .emits top' out' none
    · exact pair.elim

end Copying

/-! Parts of an expression. -/

/-- The evaluation of a node leaves a value or fails, and does and changes nothing else. -/
def Yields (fw : Firmware) (env : Environment) (random : UInt64) (node : NodeId)
    (out : Except Cause Value) : Prop :=
  fw.Ends ⟨env, [.eval node], [], random⟩
    (out >>= fun value => .ok ([], ⟨env, [], [value], random⟩))

/-- The evaluation of a node for its place leaves one or fails, and does and changes nothing
else. -/
def Locates (fw : Firmware) (env : Environment) (random : UInt64) (node : NodeId)
    (out : Except Cause Place) : Prop :=
  fw.Ends ⟨env, [.evalPlace node], [], random⟩
    (out >>= fun place => .ok ([], ⟨env, [], [.pointer place], random⟩))

theorem LeavesOne.evalPlace (fw : Firmware) (node : NodeId) (env : Environment)
    (random : UInt64) : fw.LeavesOne 0 ⟨env, [.evalPlace node], [], random⟩ where
  suited := by simp [Suits]
  layered := ⟨rfl, rfl, trivial⟩
  operands := rfl

theorem Yields.unique (first : fw.Yields env random node one)
    (second : fw.Yields env random node two) : one = two := by
  have same := Ends.unique first second
  cases one <;> cases two <;> cases same <;> rfl

theorem Yields.copied (yields : fw.Yields env random node out)
    (copies : fw.program.Copies node copy) : fw.Yields env random copy out := by
  obtain ⟨related, copying, one⟩ := copies
  exact Ends.copied copying yields (.eval fw node env random)
    ⟨Discipline.free_holds _ _, rfl, rfl, rfl, _, .cons (.eval (.inr one)) .nil, rfl⟩

theorem Locates.copied {out : Except Cause Place} (locates : fw.Locates env random node out)
    (copies : fw.program.Copies node copy) : fw.Locates env random copy out := by
  obtain ⟨related, copying, one⟩ := copies
  exact Ends.copied copying locates (.evalPlace fw node env random)
    ⟨Discipline.free_holds _ _, rfl, rfl, rfl, _, .cons (.evalPlace (.inr one)) .nil, rfl⟩

theorem Yields.andThen (yields : fw.Yields env random node out)
    {next : Value → Except Cause (List Command × Context)} (goesOn : ∀ value, out = .ok value →
      fw.Ends ⟨env, rest, value :: values, random⟩ (next value)) :
    fw.Ends ⟨env, .eval node :: rest, values, random⟩ (out >>= next) :=
  Ends.on yields (.eval fw node env random) rest values goesOn

theorem Locates.andThen {out : Except Cause Place} (locates : fw.Locates env random node out)
    {next : Place → Except Cause (List Command × Context)} (goesOn : ∀ place, out = .ok place →
      fw.Ends ⟨env, rest, .pointer place :: values, random⟩ (next place)) :
    fw.Ends ⟨env, .evalPlace node :: rest, values, random⟩ (out >>= next) :=
  Ends.on locates (.evalPlace fw node env random) rest values goesOn

theorem Yields.ok_then (yields : fw.Yields env random node (.ok value))
    (ends : fw.Ends ⟨env, rest, value :: values, random⟩ result) :
    fw.Ends ⟨env, .eval node :: rest, values, random⟩ result := by
  change fw.Ends _ (Except.ok value >>= fun _ => result)
  refine yields.andThen fun found same => ?_
  cases same
  exact ends

/-! Frames that finish an expression. -/

end Firmware

@[simp] theorem ok_bind (value : α) (next : α → Except ε β) :
    (Except.ok value >>= next) = next value := rfl

@[simp] theorem error_bind (error : ε) (next : α → Except ε β) :
    (Except.error error >>= next) = .error error := rfl

namespace Act

variable {α β : Type} (place : Place)

def result : EStateM.Result Fault Context α → Except Cause (α × Context)
  | .ok value ctx => .ok (value, ctx)
  | .error fault _ => .error fault.cause

variable (env : Environment) (frames : List Frame) (values : List Value) (random : UInt64)
  (ctx : Context) (loc : Location)

theorem result_eq_ok_iff : result out = .ok (value, ctx) ↔ out = .ok value ctx := by
  cases out <;> simp [result]

@[simp] theorem result_bind (act : Act β) (next : β → Act α) :
    result ((act >>= next) ctx) =
      result (act ctx) >>= fun reached => result (next reached.1 reached.2) := by
  simp only [bind, EStateM.bind]
  cases act ctx <;> rfl

@[simp] theorem result_map (change : β → α) (act : Act β) :
    result ((change <$> act) ctx) =
      result (act ctx) >>= fun reached => .ok (change reached.1, reached.2) := by
  rw [map_eq_pure_bind, result_bind]
  rfl

@[simp] theorem result_pure (value : α) :
    result ((pure value : Act α) ctx) = .ok (value, ctx) := rfl

@[simp] theorem result_pop (value : Value) :
    result (pop loc ⟨env, frames, value :: values, random⟩) =
      .ok (value, ⟨env, frames, values, random⟩) := rfl

@[simp] theorem result_popPlace :
    result (popPlace loc ⟨env, frames, .pointer place :: values, random⟩) =
      .ok (place, ⟨env, frames, values, random⟩) := rfl

@[simp] theorem result_environment :
    result (environment ctx) = .ok (ctx.env, ctx) := rfl

@[simp] theorem result_setEnvironment (final : Environment) :
    result (setEnvironment final ctx) = .ok ((), { ctx with env := final }) := rfl

@[simp] theorem result_push (value : Value) :
    result (push value ctx) =
      .ok ((), { ctx with values := value :: ctx.values }) := rfl

@[simp] theorem result_schedule (scheduled : List Frame) :
    result (schedule scheduled ctx) =
      .ok ((), { ctx with frames := scheduled ++ ctx.frames }) := rfl

@[simp] theorem result_openScope (kind : ScopeKind) :
    result (openScope kind ctx) =
      .ok ((), { ctx with env := ctx.env.pushScope kind }) := rfl

@[simp] theorem result_throw (fault : Fault) :
    result ((throw fault : Act α) ctx) = .error fault.cause := rfl

@[simp] theorem result_raise (cause : Cause) :
    result ((raise cause loc : Act α) ctx) = .error cause := rfl

@[simp] theorem result_unsupported (construct : Unsupported) :
    result ((unsupported construct loc : Act α) ctx) =
      .error (.unsupported construct) := rfl

@[simp] theorem result_mismatch (fault : Mismatch) :
    result ((mismatch fault loc : Act α) ctx) = .error (.typeMismatch fault) := rfl

@[simp] theorem result_attempt (out : Except Cause α) :
    result (attempt out loc ctx) = out >>= fun value => .ok (value, ctx) := by
  cases out <;> rfl

@[simp] theorem result_attemptMemory (out : Except MemoryError α) :
    result (attemptMemory out loc ctx) =
      out.mapError Cause.ofMemory >>= fun value => .ok (value, ctx) := by
  cases out <;> rfl

@[simp] theorem result_convert (fw : Firmware) (value : Value) (type : DataType) :
    result (convert fw value type loc ctx) =
      (ctx.env.givenAs type value).convert fw.structs type >>= fun converted =>
        .ok (converted, ctx) :=
  result_attempt ctx loc _

@[simp] theorem result_varSet (value : Value) : result (varSet place value ctx) =
      .ok (.emit (.varSet (ctx.env.placeName place) (ctx.env.payload value)),
        ctx) := rfl

end Act

namespace Firmware

variable {fw : Firmware} {env : Environment} {random : UInt64} {ctx : Context}
  {frame : Frame} {rest : List Frame} {values : List Value} {node : NodeId} {α : Type}

section

variable (top : ctx.frames = frame :: rest)
include top

theorem Ends.computed {left : α → Context}
    (stepped : result (fw.step ctx frame rest) = out >>= fun value => .ok (.quiet, left value))
    {next : α → Except Cause (List Command × Context)}
    (goesOn : ∀ value, out = .ok value → fw.Ends (left value) (next value)) :
    fw.Ends ctx (out >>= next) := by
  cases step : fw.step ctx frame rest <;> cases out <;> rw [step] at stepped <;>
    cases stepped
  · exact .quiet top step (goesOn _ rfl)
  · exact .fails top step

theorem Ends.scheduled {next : Context}
    (stepped : result (fw.step ctx frame rest) = .ok (.quiet, next))
    (ends : fw.Ends next out) : fw.Ends ctx out := by
  cases step : fw.step ctx frame rest <;> rw [step] at stepped <;> cases stepped
  exact .quiet top step ends

theorem Ends.refused (stepped : result (fw.step ctx frame rest) = .error cause) :
    fw.Ends ctx (.error cause) := by
  cases step : fw.step ctx frame rest <;> rw [step] at stepped <;> cases stepped
  exact .fails top step

theorem Ends.commanded {cmd : α → Command} {left : α → Context}
    (stepped : result (fw.step ctx frame rest) =
      out >>= fun value => .ok (.emit (cmd value), left value))
    (none : ∀ value, (left value).frames = []) :
    fw.Ends ctx (out >>= fun value => .ok ([cmd value], left value)) := by
  cases step : fw.step ctx frame rest <;> cases out <;> rw [step] at stepped <;>
    cases stepped
  · exact .emits top step (none _)
  · exact .fails top step

end

theorem Yields.pushed (stepped : result (fw.step ⟨env, [.eval node], [], random⟩ (.eval node) []) =
      .ok (.quiet, ⟨env, [], [value], random⟩)) : fw.Yields env random node (.ok value) :=
  .scheduled rfl stepped (.gone rfl)

attribute [local simp] step runFrame

theorem Yields.intLiteral (kind : fw.program.kind node = .intLiteral n unsigned) :
    fw.Yields env random node (.ok (.ofLiteral n unsigned)) :=
  .pushed (by simp [eval, kind])

section Parts

variable {op : BinaryOp} {left right : NodeId} {a b : Except Cause Value} {name : String}
  {cell : Cell}

theorem Yields.binary (kind : fw.program.kind node = .binary op left right)
    (first : fw.Yields env random left a) (second : fw.Yields env random right b) :
    fw.Yields env random node (do env.operate op (← a) (← b)) := by
  have starts : result (fw.step ⟨env, [.eval node], [], random⟩ (.eval node) []) =
      .ok (.quiet, ⟨env, [.eval left, .eval right, .binary node], [], random⟩) := by
    simp [eval, kind]
  have finishes (l r : Value) :
      result (fw.step ⟨env, [.binary node], [r, l], random⟩ (.binary node) []) =
        env.operate op l r >>= fun value => .ok (.quiet, ⟨env, [], [value], random⟩) := by
    simp [runBinary, kind]
  unfold Yields
  rw [bind_assoc]
  refine .scheduled rfl starts (first.andThen fun l _ => ?_)
  rw [bind_assoc]
  exact second.andThen fun r _ => Ends.computed rfl (finishes l r) fun value _ => .gone rfl

theorem Yields.identifier (kind : fw.program.kind node = .identifier name)
    (known : env.lookup? name = some cell) :
    fw.Yields env random node ((env.load (.of cell)).mapError Cause.ofMemory) := by
  have loads : result (fw.step ⟨env, [.eval node], [], random⟩ (.eval node) []) =
      (env.load (.of cell)).mapError Cause.ofMemory >>= fun value =>
        .ok (.quiet, ⟨env, [], [value], random⟩) := by
    simp [eval, kind, evalName, known]
  exact Ends.computed rfl loads fun value _ => .gone rfl

theorem Locates.identifier (kind : fw.program.kind node = .identifier name)
    (known : env.lookup? name = some cell) : fw.Locates env random node (.ok (.of cell)) := by
  have found : result (fw.step ⟨env, [.evalPlace node], [], random⟩ (.evalPlace node) [])
      = .ok (.of cell) >>= fun place => .ok (.quiet, ⟨env, [], [.pointer place], random⟩) := by
    simp [evalPlace, kind, known]
  exact Ends.computed rfl found fun place _ => .gone rfl

theorem Locates.loads (starts : result (fw.step ⟨env, [.eval node], [], random⟩ (.eval node) []) =
      .ok (.quiet, ⟨env, [.evalPlace node, .load node], [], random⟩))
    (locates : fw.Locates env random node out) :
    fw.Yields env random node (out >>= fun place => (env.load place).mapError Cause.ofMemory) := by
  have loads (place : Place) :
      result (fw.step ⟨env, [.load node], [.pointer place], random⟩ (.load node) []) =
        (env.load place).mapError Cause.ofMemory >>= fun value =>
          .ok (.quiet, ⟨env, [], [value], random⟩) := by
    simp [runLoad]
  unfold Yields
  rw [bind_assoc]
  exact .scheduled rfl starts (locates.andThen fun place _ =>
    .computed rfl (loads place) fun value _ => .gone rfl)

/-- An expression that has a place has the value that is there. -/
theorem Locates.yields (locates : fw.Locates env random node (.ok place)) :
    fw.Yields env random node ((env.load place).mapError Cause.ofMemory) := by
  have refused (fails : ∃ cause, result (fw.step ⟨env, [.evalPlace node], [], random⟩
      (.evalPlace node) []) = .error cause) :
      fw.Yields env random node ((env.load place).mapError Cause.ofMemory) := by
    obtain ⟨cause, failed⟩ := fails
    cases Ends.unique locates (.refused rfl failed)
  cases kind : fw.program.kind node with
  | identifier name =>
    cases known : env.lookup? name with
    | some cell =>
      cases Ends.unique locates (Locates.identifier kind known)
      exact Yields.identifier kind known
    | none =>
      cases resolved : fw.resolve name <;>
        exact refused (by simp [evalPlace, kind, known, resolved])
  | index array pos | member object field throughPointer =>
    exact locates.loads (by simp [eval, kind])
  | unary op operand =>
    cases op with
    | deref => exact locates.loads (by simp [eval, kind])
    | _ => exact refused (by simp [evalPlace, kind])
  | _ => exact refused (by simp [evalPlace, kind])

end Parts

/-! Evaluation in a context. -/

end Firmware

def Effect.command? : Effect → Option Command
  | .emit cmd => some cmd
  | _ => none

namespace Firmware

/-- The evaluation of a node in a context, without answers, gives commands and returns with a
context. -/
inductive Gives (fw : Firmware) (ctx : Context) (node : NodeId) (cmds : List Command)
    (final : Context) : Prop where
  | intro (steps : Nat) (run : Evaluation)
      (reached : fw.evaluate node ctx.env ctx.random [] ctx.frames ctx.values
        steps = run)
      (returned : run.Returns ctx.frames) (left : run.context = final)
      (given : run.effects.filterMap Effect.command? = cmds)

/-- The evaluation of a node in a context, without answers, fails. -/
inductive Refuses (fw : Firmware) (ctx : Context) (node : NodeId) : Prop where
  | intro (steps : Nat) (run : Evaluation) (fault : Fault)
      (reached : fw.evaluate node ctx.env ctx.random [] ctx.frames ctx.values
        steps = run)
      (failed : run.progress = .failed fault)

/-- The evaluations of two nodes in a context both fail, or they give the same commands, leave the
same value and the same context. -/
inductive SameOutcome (fw : Firmware) (ctx : Context) (node other : NodeId) : Prop where
  | refused : fw.Refuses ctx node → fw.Refuses ctx other →
      SameOutcome fw ctx node other
  | given (cmds : List Command) (final : Context) :
      fw.Gives ctx node cmds final → fw.Gives ctx other cmds final →
      SameOutcome fw ctx node other

end Firmware

namespace Evaluation

variable {fw : Firmware} {base : List Frame} {start : Evaluation}

def EndsWith (run : Evaluation) (before : List Command) :
    Except Cause (List Command × Context) → Prop
  | .ok (cmds, final) => run.Returns [] ∧ run.context = final ∧
      run.effects.filterMap Effect.command? = before ++ cmds
  | .error cause => ∃ fault, run.progress = .failed fault ∧ fault.cause = cause

theorem eq_of_next_eq (stops : ((next fw base)^[steps] start).next fw base =
      (next fw base)^[steps] start)
    (stops' : ((next fw base)^[steps'] start).next fw base = (next fw base)^[steps'] start) :
    (next fw base)^[steps] start = (next fw base)^[steps'] start := by
  have later {steps more : Nat} (stops : ((next fw base)^[steps] start).next fw base =
      (next fw base)^[steps] start) :
      (next fw base)^[steps + more] start = (next fw base)^[steps] start := by
    rw [Nat.add_comm, Function.iterate_add_apply]
    exact Function.iterate_fixed stops more
  rcases Nat.le_total steps steps' with less | less
  · obtain ⟨more, rfl⟩ := Nat.exists_eq_add_of_le less
    exact (later stops).symm
  · obtain ⟨more, rfl⟩ := Nat.exists_eq_add_of_le less
    exact later stops'

end Evaluation

namespace Firmware

variable {fw : Firmware} {ctx final final' : Context} {node other : NodeId}
  {cmds commands' : List Command} {ctx : Context} {cause : Cause} {value : Value}
  {out : Except Cause Value}

theorem Gives.unique (one : fw.Gives ctx node cmds final)
    (two : fw.Gives ctx node commands' final') : cmds = commands' ∧ final = final' := by
  obtain ⟨steps, _, rfl, returned, rfl, rfl⟩ := one
  obtain ⟨steps', _, rfl, returned', rfl, rfl⟩ := two
  have same : fw.evaluate node ctx.env ctx.random [] ctx.frames ctx.values
      steps = fw.evaluate node ctx.env ctx.random [] ctx.frames ctx.values steps' :=
    eq_of_next_eq (next_of_returns returned) (next_of_returns returned')
  exact ⟨by rw [same], by rw [same]⟩

theorem Gives.not_refuses (gives : fw.Gives ctx node cmds final) : ¬ fw.Refuses ctx node := by
  rintro ⟨steps', _, fault, rfl, failed⟩
  obtain ⟨steps, _, rfl, returned, rfl, rfl⟩ := gives
  have ended : (fw.evaluate node ctx.env ctx.random [] ctx.frames ctx.values
      steps').progress ≠ .going := by
    rw [failed]
    rintro ⟨⟩
  have same : fw.evaluate node ctx.env ctx.random [] ctx.frames ctx.values
      steps = fw.evaluate node ctx.env ctx.random [] ctx.frames ctx.values steps' :=
    eq_of_next_eq (next_of_returns returned) (next_of_ne_going ended _)
  exact ended (same ▸ returned.1)

theorem Ends.iterate {result : Except Cause (List Command × Context)}
    (ends : fw.Ends ctx result) (effects : List Effect) :
    ∃ steps run, (next fw [])^[steps] { context := ctx, answers := [], effects } = run ∧
      run.EndsWith (effects.filterMap Effect.command?) result := by
  have first {ctx : Context} {frame : Frame} {rest : List Frame} (effects : List Effect)
      (top : ctx.frames = frame :: rest) :
      next fw [] { context := ctx, answers := [], effects } =
        settle { context := ctx, answers := [], effects } (fw.step ctx frame rest) :=
    next_of_cons rfl top (cons_ne_nil _ _)
  induction ends generalizing effects with
  | gone none => exact ⟨0, _, rfl, ⟨rfl, none⟩, rfl, (append_nil _).symm⟩
  | fails top out =>
    refine ⟨1, _, rfl, _, ?_, rfl⟩
    rw [Function.iterate_one, first effects top, out]
    rfl
  | quiet top out ends ih =>
    obtain ⟨steps, run, reached, ended⟩ := ih (effects ++ [.quiet])
    rw [filterMap_append, show [Effect.quiet].filterMap Effect.command? = [] from rfl,
      append_nil] at ended
    refine ⟨steps + 1, run, ?_, ended⟩
    rw [Function.iterate_succ_apply, first effects top, out]
    exact reached
  | emits top out none =>
    refine ⟨1, _, rfl, ?_⟩
    rw [Function.iterate_one, first effects top, out]
    exact ⟨⟨rfl, none⟩, rfl, filterMap_append⟩

theorem Ends.gives (ends : fw.Ends ⟨ctx.env, [.eval node], [], ctx.random⟩ (.ok (cmds, final))) :
    fw.Gives ctx node cmds (final.on ctx.frames ctx.values) := by
  obtain ⟨steps, run, reached, returned, rfl, given⟩ := ends.iterate []
  refine ⟨steps, _, fw.evaluate_eq_on node _ _ [] _ _ steps, ?_, ?_, ?_⟩
  · rw [returns_on, evaluate, reached]
    exact returned
  · rw [evaluate, reached]
    rfl
  · rw [evaluate, reached]
    exact given

theorem Ends.refuses (ends : fw.Ends ⟨ctx.env, [.eval node], [], ctx.random⟩ (.error cause)) :
    fw.Refuses ctx node := by
  obtain ⟨steps, run, reached, fault, failed, -⟩ := ends.iterate []
  refine ⟨steps, _, fault, fw.evaluate_eq_on node _ _ [] _ _ steps, ?_⟩
  rw [evaluate, reached]
  exact failed

theorem Ends.frames_eq_nil (ends : fw.Ends ctx (.ok (cmds, final))) : final.frames = [] := by
  generalize made : Except.ok (cmds, final) = result at ends
  induction ends with
  | gone none | emits _ _ none =>
    cases made
    exact none
  | fails => cases made
  | quiet _ _ _ ih => exact ih made

theorem eq_of_on_eq {one two : Context} (none : one.frames = []) (none' : two.frames = [])
    (same : one.on frames values = two.on frames values) : one = two := by
  obtain ⟨env, _, values, random⟩ := one
  obtain ⟨env', _, values', random'⟩ := two
  cases none
  cases none'
  simp only [Context.on, Context.mk.injEq, append_cancel_right_eq] at same
  obtain ⟨rfl, -, rfl, rfl⟩ := same
  rfl

/-- Two evaluations that only compute end alike just if they come to the same alone. -/
theorem sameOutcome_iff {result result' : Except Cause (List Command × Context)}
    (ends : fw.Ends ⟨ctx.env, [.eval node], [], ctx.random⟩ result)
    (ends' : fw.Ends ⟨ctx.env, [.eval other], [], ctx.random⟩ result') :
    fw.SameOutcome ctx node other ↔ result.toOption = result'.toOption := by
  cases result with
  | error cause =>
    have refused : fw.Refuses ctx node := ends.refuses
    cases result' with
    | error cause' => exact ⟨fun _ => rfl, fun _ => .refused refused ends'.refuses⟩
    | ok given' =>
      refine ⟨fun same => ?_, nofun⟩
      cases same with
      | refused _ refused' => exact absurd refused' ends'.gives.not_refuses
      | given cmds final given => exact absurd refused given.not_refuses
  | ok given =>
    obtain ⟨cmds, final⟩ := given
    have given : fw.Gives ctx node cmds _ := ends.gives
    cases result' with
    | error cause' =>
      refine ⟨fun same => ?_, nofun⟩
      cases same with
      | refused refused => exact absurd refused given.not_refuses
      | given cmds final _ given' => exact absurd ends'.refuses given'.not_refuses
    | ok given' =>
      obtain ⟨commands', final'⟩ := given'
      have given' : fw.Gives ctx other commands' _ := ends'.gives
      constructor
      · intro same
        cases same with
        | refused refused => exact absurd refused given.not_refuses
        | given _ _ one two =>
          obtain ⟨rfl, left⟩ := given.unique one
          obtain ⟨rfl, left'⟩ := given'.unique two
          rw [eq_of_on_eq ends.frames_eq_nil ends'.frames_eq_nil (left.trans left'.symm)]
      · intro same
        cases same
        exact .given _ _ given given'

theorem Yields.gives (yields : fw.Yields ctx.env ctx.random node (.ok value)) :
    fw.Gives ctx node [] { ctx with values := value :: ctx.values } :=
  Ends.gives yields

theorem Yields.refuses (yields : fw.Yields ctx.env ctx.random node (.error cause)) :
    fw.Refuses ctx node :=
  Ends.refuses yields

theorem Yields.eq_of_gives (yields : fw.Yields ctx.env ctx.random node out)
    (gives : fw.Gives ctx node [] { ctx with values := value :: ctx.values }) :
    out = .ok value := by
  cases out with
  | error => exact absurd yields.refuses gives.not_refuses
  | ok found =>
    have same := (yields.gives.unique gives).2
    simp only [Context.mk.injEq, List.cons.injEq, and_true, true_and] at same
    rw [same]

theorem Yields.sameOutcome_iff (yields : fw.Yields ctx.env ctx.random node out)
    (yields' : fw.Yields ctx.env ctx.random other out') :
    fw.SameOutcome ctx node other ↔ out.toOption = out'.toOption := by
  rw [Firmware.sameOutcome_iff yields yields']
  cases out <;> cases out' <;> simp [Except.toOption]

end Firmware

end Breadboard
