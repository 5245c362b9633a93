import Breadboard.Proofs.Machine.StepTurn

/-!
The shape of the two stacks. Frames lie on each other in layers: what belongs to a
statement lies on frames that take no operands, down to the next call. The operands
are just those that the frames will take off. Both facts survive turns and jumps, so a
step never lacks an operand.
-/

open List

namespace Breadboard

open Firmware Breadboard.Frame

namespace Frame

variable {frame : Frame}

def isStatement : Frame → Bool
  | .exec _ | .block .. | .discard | .declare _ | .construct _ | .branch _ | .loop ..
  | .switchSelect _ | .switch .. | .leave _ => true
  | _ => false

def waits : Frame → Bool
  | .exec _ | .block .. | .switch .. => true
  | .loop _ phase _ _ => phase ≠ .test
  | _ => false

def isDriver : Frame → Bool
  | .program _ => true
  | _ => false

/-- Whether a frame may lie on a stack. The driver lies at the bottom, and a statement only
on statements around it or where its function was called. -/
def liesOn (frame : Frame) : List Frame → Bool
  | [] => true
  | lower :: _ => !frame.isDriver && (!frame.isStatement || lower.waits || lower.isBarrier)

theorem isStatement_of_waits (waits : frame.waits = true) : frame.isStatement = true := by
  cases frame <;> simp [Frame.waits] at waits <;> rfl

end Frame

def Layered : List Frame → Prop
  | [] => True
  | frame :: rest => frame.liesOn rest = true ∧ Layered rest

namespace Layered

variable {above below : List Frame} {nodes : List NodeId} {rest : List Frame} {frame lower : Frame}

@[simp] theorem map_eval_append : Layered (nodes.map .eval ++ rest) ↔ Layered rest := by
  induction nodes with
  | nil => rfl
  | cons node nodes ih =>
    have lies : liesOn (.eval node) (nodes.map .eval ++ rest) = true := by
      cases nodes.map eval ++ rest <;> rfl
    simp only [map_cons, cons_append, Layered, lies, true_and, ih]

theorem map_exec_append (node : NodeId)
    (layered : Layered (.exec node :: rest)) : Layered (nodes.map .exec ++ rest) := by
  induction nodes with
  | nil => exact layered.2
  | cons node nodes ih =>
    refine ⟨?_, ih⟩
    cases nodes with
    | nil => exact layered.1
    | cons next nodes => rfl

theorem of_append (layered : Layered (above ++ below)) : Layered below := by
  induction above with
  | nil => exact layered
  | cons frame above ih => exact ih layered.2

/-- Below a statement everything waits up to the next barrier. -/
theorem waits_of_mem (layered : Layered (frame :: (above ++ below)))
    (statement : frame.isStatement = true) (inside : ∀ other ∈ above, other.isBarrier = false) :
    ∀ other ∈ above, other.waits = true := by
  induction above generalizing frame with
  | nil => simp
  | cons upper above ih =>
    obtain ⟨noBarrier, inside⟩ := forall_mem_cons.mp inside
    have waits : upper.waits = true := by
      have lies := layered.1
      simp only [cons_append, liesOn, statement, noBarrier, Bool.and_eq_true] at lies
      simpa using lies.2
    exact forall_mem_cons.mpr ⟨waits, ih layered.2 (isStatement_of_waits waits) inside⟩

theorem isDriver_eq_false (layered : Layered (above ++ lower :: below)) :
    ∀ frame ∈ above, frame.isDriver = false := by
  induction above with
  | nil => simp
  | cons frame above ih =>
    refine forall_mem_cons.mpr ⟨?_, ih layered.2⟩
    have lies := layered.1
    cases frame with
    | program => cases above <;> cases lies
    | _ => rfl

/-- A statement that does not lie on statements alone lies above a barrier. -/
theorem exists_barrier (layered : Layered (frame :: (above ++ lower :: below)))
    (statement : frame.isStatement = true) (ends : lower.waits = false)
    (plain : lower.isBarrier = false) : ∃ other ∈ above, other.isBarrier = true := by
  refine Classical.byContradiction fun none => ?_
  have inside : ∀ other ∈ above ++ [lower], other.isBarrier = false :=
    forall_mem_append.mpr ⟨fun other found => Bool.eq_false_iff.mpr fun barrier =>
      none ⟨other, found, barrier⟩, forall_mem_singleton.mpr plain⟩
  have split : above ++ lower :: below = (above ++ [lower]) ++ below := by simp
  rw [split] at layered
  have waits := layered.waits_of_mem statement inside lower (by simp)
  rw [ends] at waits
  cases waits

end Layered

namespace Firmware

variable (fw : Firmware)

/-- How many operands are left when all the frames have run, or nothing if one of them does
not find its operands. -/
def operandsAfter (frames : List Frame) (opds : Nat) : Option Nat :=
  frames.foldlM fw.operandsBehind opds

@[simp] theorem operandsAfter_nil (opds : Nat) : fw.operandsAfter [] opds = some opds := rfl

@[simp] theorem operandsAfter_cons (frame : Frame) (frames : List Frame) (opds : Nat) :
    fw.operandsAfter (frame :: frames) opds =
      (fw.operandsBehind opds frame).bind (fw.operandsAfter frames) := rfl

@[simp] theorem operandsAfter_append (above below : List Frame) (opds : Nat) :
    fw.operandsAfter (above ++ below) opds =
      (fw.operandsAfter above opds).bind (fw.operandsAfter below) :=
  foldlM_append

@[simp] theorem operandsAfter_map_eval (nodes : List NodeId) (opds : Nat) :
    fw.operandsAfter (nodes.map .eval) opds = some (opds + nodes.length) := by
  induction nodes generalizing opds with
  | nil => rfl
  | cons node nodes ih =>
    simp [operandsBehind, pops, pushes, ih]
    omega

theorem operandsBehind_of_waits (waits : frame.waits = true) (opds : Nat) :
    fw.operandsBehind opds frame = some opds := by
  cases frame with
  | loop node phase iterations hasScope => cases phase <;> first | rfl | simp [Frame.waits] at waits
  | exec | block | switch => rfl
  | _ => simp [Frame.waits] at waits

theorem operandsAfter_of_waits (wait : ∀ frame ∈ frames, frame.waits = true)
    (opds : Nat) : fw.operandsAfter frames opds = some opds := by
  induction frames with
  | nil => rfl
  | cons frame frames ih =>
    obtain ⟨first, wait⟩ := forall_mem_cons.mp wait
    rw [operandsAfter_cons, fw.operandsBehind_of_waits first]
    exact ih wait

def Suited (frames : List Frame) : Prop := ∀ frame ∈ frames, fw.Suits frame

@[simp] theorem suited_nil : fw.Suited [] := nofun

@[simp] theorem suited_cons (frame : Frame) (frames : List Frame) :
    fw.Suited (frame :: frames) ↔ fw.Suits frame ∧ fw.Suited frames :=
  forall_mem_cons

@[simp] theorem suited_append (above below : List Frame) :
    fw.Suited (above ++ below) ↔ fw.Suited above ∧ fw.Suited below :=
  forall_mem_append

@[simp] theorem suited_map_eval (nodes : List NodeId) : fw.Suited (nodes.map .eval) :=
  forall_mem_map.mpr fun _ _ => trivial

@[simp] theorem suited_map_exec (nodes : List NodeId) : fw.Suited (nodes.map .exec) :=
  forall_mem_map.mpr fun _ _ => trivial

end Firmware

namespace Turn

variable {fw : Firmware} {height pushed : Nat} {frame : Frame} {scheduled : List Frame}
  {move : ScopeMove}

attribute [local simp] Firmware.Suits operandsBehind pops pushes

variable (turn : Turn fw height frame pushed scheduled move)
include turn

theorem balances : fw.operandsAfter scheduled (height + pushed) = some (height + frame.pushes) := by
  cases turn with
  | group | elseBranch => exact fw.operandsAfter_of_waits (by simp [waits]) height
  | forLoop =>
    refine fw.operandsAfter_of_waits ?_ height
    simp only [forall_mem_append, forall_mem_map, forall_mem_singleton]
    exact ⟨fun _ _ => rfl, rfl⟩
  | @result node expr kind =>
    cases expr <;> simp [NodeKind.returnsValue, kind]
  | startBody starts => rcases starts with rfl | rfl <;> rfl
  | @evalMethod node receiver method args kind =>
    have enough : args.length + 1 ≤ height + 1 + args.length := by omega
    have behind : height + 1 + args.length - (args.length + 1) = height := by omega
    simp [NodeKind.argumentCount, kind, enough, behind]
  | placeIndex _ base | placeMember _ base | placeDeref _ base =>
    rcases base with rfl | rfl <;>
      simp
  | _ =>
    simp [entry, NodeKind.argumentCount, *]

theorem suited : fw.Suited scheduled := by
  cases turn with
  | openBlock kind | nextStatement kind _ | objectArguments kind | condition kind
  | selector kind | result kind | selectArm kind | armStatement kind _ _ | nextArm kind _
  | evalBinary kind | evalLogical kind | undecided kind | evalIncDec kind | evalTernary kind
  | evalCompoundAssign kind | evalBuiltin kind | evalMethod kind | evalCast kind =>
    simp [kind]
  | initializer kind => simp [kind, -Bool.exists_bool]
  | whileLoop kind | doWhile kind | forLoop kind =>
    simp [kind, NodeKind.loop?]
  | loopCondition loop _ | noCondition loop | startBody _ loop | increment loop _
  | noIncrement loop => simp [loop]
  | evalUnary kind notDeref notAddress => simp [kind, notDeref, notAddress]
  | evalCall kind found => simpa using Program.function?_kind found
  | placeMember kind base =>
    rcases base with rfl | rfl <;> simp [kind, -Bool.exists_bool]
  | placeIndex _ base | placeDeref _ base => rcases base with rfl | rfl <;> simp
  | _ => simp [entry]

theorem layered (layers : Layered (frame :: rest)) : Layered (scheduled ++ rest) := by
  cases turn with
  | setup | loop => exact ⟨rfl, rfl, rfl, layers⟩
  | increment | evalBinary | evalAssign | evalCompoundAssign => exact ⟨rfl, rfl, layers⟩
  | placeIndex _ base => rcases base with rfl | rfl <;> exact ⟨rfl, rfl, layers⟩
  | placeMember _ base | placeDeref _ base => rcases base with rfl | rfl <;> exact ⟨rfl, layers⟩
  | objectArguments | result | evalCall | evalBuiltin | evalMethod | evalInitList =>
    rw [append_assoc, Layered.map_eval_append]
    exact layers
  | @group node | @elseBranch node => exact Layered.map_exec_append node layers
  | @forLoop node =>
    rw [append_assoc]
    exact Layered.map_exec_append node ⟨rfl, layers⟩
  | global | exprStmt | initializer | condition | selector | expression | nextStatement
  | loopCondition | startBody | armStatement | call | evalLogical | evalLoad | evalUnary
  | evalIncDec | evalTernary | evalCast | undecided => exact ⟨rfl, layers⟩
  | globalsDone | noSetup | openBlock | whileLoop | doWhile | thenBranch | noCondition | noIncrement
  | selectArm | nextArm | evalAddress | select => exact layers
  | _ => exact layers.2

end Turn

namespace Firmware

variable {frame : Frame} {ctx next : Context} {behind : Nat}

/-- The stacks fit each other while `owed` operands are still to come from the host. -/
structure Balanced (fw : Firmware) (owed : Nat) (ctx : Context) : Prop where
  suited : fw.Suited ctx.frames
  layered : Layered ctx.frames
  operands : fw.operandsAfter ctx.frames (ctx.values.length + owed) = some 0

variable {fw : Firmware}

theorem operandsBehind_eq (out : fw.operandsBehind opds frame = some behind) :
    behind = opds - fw.pops frame + frame.pushes := by
  unfold operandsBehind at out
  split at out
  · obtain ⟨found, yields⟩ := Option.ite_none_right_eq_some.mp out
    cases yields
    simp only [pops, pushes]
    omega
  · obtain ⟨-, yields⟩ := Option.ite_none_right_eq_some.mp out
    cases yields
    rfl

theorem Balanced.turned (suited : fw.Suited ctx.frames) (layered : Layered (frame :: ctx.frames))
    (taken : fw.operandsBehind ctx.values.length frame = some behind)
    (opds : fw.operandsAfter ctx.frames behind = some 0)
    (turned : Turned fw frame ctx effect next) : fw.Balanced effect.owed next := by
  obtain ⟨pushed, scheduled, move, turn, frames, values, -, -⟩ := turned
  refine ⟨?_, ?_, ?_⟩
  · rw [frames, suited_append]
    exact ⟨turn.suited, suited⟩
  · rw [frames]
    exact turn.layered layered
  · have height : next.values.length + effect.owed =
        ctx.values.length - fw.pops frame + (pushed.length + effect.owed) := by
      rw [values, length_append, length_drop]
      omega
    rw [frames, height, operandsAfter_append, turn.balances, Option.bind_some,
      ← operandsBehind_eq taken]
    exact opds

theorem frames_eq_nil_of_loopLimit (layered : Layered (frame :: ctx.frames))
    (turned : Turned fw frame ctx (.loopLimit iterations) next) : next.frames = [] := by
  obtain ⟨pushed, scheduled, move, -, frames, -, -, atLimit⟩ := turned
  obtain ⟨rfl, rfl⟩ := atLimit iterations rfl
  rw [frames, nil_append]
  cases below : ctx.frames with
  | nil => rfl
  | cons lower rest =>
    rw [below] at layered
    exact absurd layered.1 (by simp [liesOn, isDriver])

theorem Balanced.jumped (suited : fw.Suited ctx.frames) (layered : Layered (frame :: ctx.frames))
    (taken : fw.operandsBehind ctx.values.length frame = some behind)
    (opds : fw.operandsAfter ctx.frames behind = some 0)
    (jump : Jump fw ctx frame next) : fw.Balanced 0 next := by
  have behind_eq := operandsBehind_eq taken
  cases jump with
  | @breakOut node above below stop kind split passed stops inside =>
    -- Break drops the frame at which it stops along with those above it.
    have split : ctx.frames = (above ++ [stop]) ++ below := by simp [split]
    rw [split] at suited layered opds
    have crossed : ∀ other ∈ above ++ [stop], other.isBarrier = false :=
      forall_mem_append.mpr ⟨fun other found => isBarrier_of_stopsBreak (passed other found),
        forall_mem_singleton.mpr inside⟩
    have wait := layered.waits_of_mem rfl crossed
    rw [operandsAfter_append, fw.operandsAfter_of_waits wait] at opds
    exact ⟨((fw.suited_append _ _).mp suited).2, layered.2.of_append, behind_eq ▸ opds⟩
  | @goOn node above below stop kind split passed stops inside =>
    rw [split] at suited layered opds
    have wait := layered.waits_of_mem rfl fun other found =>
      isBarrier_of_stopsContinue (passed other found)
    rw [operandsAfter_append, fw.operandsAfter_of_waits wait] at opds
    exact ⟨((fw.suited_append _ _).mp suited).2, layered.2.of_append, behind_eq ▸ opds⟩
  | @leave node above below returnType height returned loc value kept split passed left =>
    rw [split] at suited layered opds
    have wait := layered.waits_of_mem rfl passed
    rw [operandsAfter_append, fw.operandsAfter_of_waits wait, Option.bind_some,
      operandsAfter_cons, Option.bind_eq_some_iff] at opds
    obtain ⟨after, found, opds⟩ := opds
    obtain ⟨found, rfl⟩ : behind = height + returned.toNat ∧ height + 1 = after := by
      simpa [operandsBehind, Option.ite_none_right_eq_some] using found
    refine ⟨?_, ?_, ?_⟩
    · rw [suited_append, suited_cons] at suited
      exact (fw.suited_cons _ _).mpr ⟨trivial, suited.2.2⟩
    · exact ⟨layered.2.of_append.1, layered.2.of_append.2⟩
    · have kept_length : kept.length = behind := by
        rw [left, length_drop, behind_eq]
        rfl
      have height_eq : kept.length - (kept.length - height) = height := by omega
      simp only [length_cons, length_drop, height_eq, operandsAfter_cons,
        operandsBehind, Bool.toNat_true, Nat.add_zero, if_true, Option.bind_some, opds]

/-- A step from balanced stacks leaves balanced stacks, or fails for a cause that the sketch is
to blame for. -/
theorem Balanced.step (balanced : fw.Balanced 0 { ctx with frames := frame :: ctx.frames }) :
    (Act.runFrame fw frame).Meets ctx (fun effect next => Stepped fw frame ctx effect next ∧
        fw.Balanced effect.owed next ∧
        ∀ iterations, effect = .loopLimit iterations → next.frames = [])
      (Act.Fair frame) := by
  obtain ⟨suited, layered, opds⟩ := balanced
  rw [suited_cons] at suited
  rw [operandsAfter_cons, Option.bind_eq_some_iff] at opds
  obtain ⟨behind, taken, opds⟩ := opds
  have steps : (Act.runFrame fw frame).Meets ctx _ _ := Act.runFrame_steps suited.1 taken
  refine steps.weaken ?_ fun _ _ => id
  intro effect next stepped
  refine ⟨stepped, ?_⟩
  rcases stepped with turned | ⟨rfl, jump⟩
  · refine ⟨.turned suited.2 layered taken opds turned, ?_⟩
    rintro iterations rfl
    exact frames_eq_nil_of_loopLimit layered turned
  · exact ⟨.jumped suited.2 layered taken opds jump, nofun⟩

end Firmware

end Breadboard
