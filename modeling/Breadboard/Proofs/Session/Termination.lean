import Breadboard.Proofs.Archive.Decoded
import Breadboard.Proofs.Machine.Nesting
import Breadboard.Proofs.Session.Settle
import Breadboard.Proofs.Sketch.Parsed

/-!
Units end. A step at a frame that is no boundary lowers the cost of the stack. A unit passes no
boundary but the first that it meets, which brings on the cost of one statement. So the steps of
a unit are bounded by what the stack and a statement cost, whatever loops and calls itself in the
sketch.
-/

open List

namespace Breadboard

variable {prog : Program}

open Program.Sizing Session

variable {fw : Firmware} {ctx next : Context} {frame : Frame} {effect : Effect}

/-- A jump takes frames off, so whatever is added up along the stack becomes no more. -/
theorem Jump.sum_le (weight : Frame → Nat) (blind : ∀ retType height returned loc,
      weight (.callReturn retType height returned loc) =
        weight (.callReturn retType height true loc)) (jump : Jump fw ctx frame next) :
    (next.frames.map weight).sum ≤ (ctx.frames.map weight).sum := by
  obtain ⟨discarded, kept, split, -, -, -, frames⟩ := jump.releases
  rw [split, map_append, sum_append]
  rcases frames with same | ⟨_, _, returned, _, below, rfl, marked⟩
  · rw [same]
    exact Nat.le_add_left _ _
  · rw [marked, map_cons, map_cons, ← blind _ _ returned]
    exact Nat.le_add_left _ _

variable (sizing : fw.program.Sizing)

theorem Jump.stackCost_le (jump : Jump fw ctx frame next) :
    sizing.stackCost next.frames ≤ sizing.stackCost ctx.frames :=
  jump.sum_le sizing.cost fun _ _ _ _ => rfl

namespace Stepped

theorem stackCost_lt (stepped : Stepped fw frame ctx effect next)
    (within : fw.isBoundary frame = false) (other : ∀ id, frame ≠ .exec id) :
    sizing.stackCost next.frames < sizing.cost frame + sizing.stackCost ctx.frames := by
  rcases stepped with ⟨_, scheduled, _, turn, frames, -⟩ | ⟨-, jump⟩
  · have lower := turn.stackCost_lt sizing within other
    rw [frames, stackCost_append]
    omega
  · have kept := jump.stackCost_le sizing
    have positive : 0 < sizing.cost frame := by
      cases jump with
      | breakOut | goOn => exact absurd rfl (other _)
      | leave => exact Nat.one_pos
    omega

theorem stackCost_le (stepped : Stepped fw frame ctx effect next)
    (boundary : fw.isBoundary frame = true) :
    sizing.stackCost next.frames ≤ sizing.statementCost + sizing.stackCost ctx.frames := by
  rcases stepped with ⟨_, scheduled, _, turn, frames, -⟩ | ⟨-, jump⟩
  · have statement := turn.stackCost_le sizing boundary
    rw [frames, stackCost_append]
    omega
  · have kept := jump.stackCost_le sizing
    omega

end Stepped

namespace Firmware

variable {rest : List Frame}

theorem step_exec_stackCost_lt {id : NodeId} (within : fw.isBoundary (.exec id) = false)
    (out : fw.step ctx (.exec id) rest = .ok effect next) :
    sizing.stackCost next.frames < sizing.execCost id + sizing.stackCost rest := by
  simp only [isBoundary] at within
  split at within
  · rename_i statements kind
    have inner := sizing.blockCost_lt id 0
    simp only [step, Act.runFrame, Act.exec, kind] at out
    cases out
    simp only [cons_append, nil_append, stackCost_cons, cost, execCost, kind]
    omega
  · rename_i decls kind
    have each := sizing.stackCost_map_exec_le decls
    have inner := sizing.statementsCost_le decls
    have size := sizing.size_of_kind kind
    simp only [step, Act.runFrame, Act.exec, kind] at out
    cases out
    simp only [stackCost_append, execCost, kind]
    simp only [NodeKind.children] at size
    omega
  · cases within

theorem Reaches.stackCost_lt (reached : fw.Reaches none ctx) (top : ctx.frames = frame :: rest)
    (within : fw.isBoundary frame = false) (out : fw.step ctx frame rest = .ok effect next) :
    sizing.stackCost next.frames < sizing.stackCost ctx.frames := by
  rw [top, stackCost_cons]
  by_cases other : ∃ id, frame = .exec id
  · obtain ⟨id, rfl⟩ := other
    exact step_exec_stackCost_lt sizing within out
  · obtain ⟨stepped, -⟩ := (step_meets top reached.balanced).of_ok out
    exact stepped.stackCost_lt sizing within fun id same => other ⟨id, same⟩

def remaining (started : Bool) (ctx : Context) : Nat :=
  sizing.stackCost ctx.frames + if started then 0 else sizing.statementCost + 1

theorem Reaches.remaining_lt (reached : fw.Reaches none ctx)
    (top : ctx.frames = frame :: rest) (goesOn : (fw.isBoundary frame && started) = false)
    (out : fw.step ctx frame rest = .ok effect next) :
    remaining sizing (started || fw.isBoundary frame) next < remaining sizing started ctx := by
  unfold remaining
  cases boundary : fw.isBoundary frame with
  | false =>
    rw [Bool.or_false]
    exact Nat.add_lt_add_right (reached.stackCost_lt sizing top boundary out) _
  | true =>
    rw [boundary, Bool.true_and] at goesOn
    obtain ⟨stepped, -⟩ := (step_meets top reached.balanced).of_ok out
    have statement : sizing.stackCost next.frames ≤
        sizing.statementCost + sizing.stackCost rest := stepped.stackCost_le sizing boundary
    simp only [goesOn, Bool.or_true, if_true, Bool.false_eq_true, if_false, top, stackCost_cons]
    omega

end Firmware

def Effect.told : Effect → List Command
  | .emit cmd => [cmd]
  | _ => []

namespace Firmware

variable {started : Bool} {steps : Nat} {res : UnitResult}

/-- What a unit does when nothing bounds its steps: where it starts, how many steps it takes, and
what it leaves. -/
inductive UnitRuns (fw : Firmware) : Bool → Context → Nat → UnitResult → Prop where
  | finished {started : Bool} {ctx : Context} : ctx.frames = [] →
      UnitRuns fw started ctx 0 ⟨ctx, [], .finished⟩
  | boundary {ctx frame rest} : ctx.frames = frame :: rest → fw.isBoundary frame = true →
      UnitRuns fw true ctx 0 ⟨ctx, [], .boundary⟩
  | failed {started ctx final frame rest fault} : ctx.frames = frame :: rest →
      (fw.isBoundary frame && started) = false → fw.step ctx frame rest = .error fault final →
      UnitRuns fw started ctx 1 ⟨final, [], .failed fault⟩
  | suspended {started ctx next frame rest request} : ctx.frames = frame :: rest →
      (fw.isBoundary frame && started) = false →
      fw.step ctx frame rest = .ok (.request request) next →
      UnitRuns fw started ctx 1 ⟨next, [], .suspended request⟩
  | loopLimit {started ctx next frame rest iters} : ctx.frames = frame :: rest →
      (fw.isBoundary frame && started) = false →
      fw.step ctx frame rest = .ok (.loopLimit iters) next →
      UnitRuns fw started ctx 1 ⟨next, [], .loopLimit iters⟩
  | step {started ctx next frame rest effect steps res} : ctx.frames = frame :: rest →
      (fw.isBoundary frame && started) = false → effect.isPlain = true →
      fw.step ctx frame rest = .ok effect next →
      UnitRuns fw (started || fw.isBoundary frame) next steps res →
      UnitRuns fw started ctx (steps + 1)
        { res with commands := effect.told ++ res.commands }

theorem UnitRuns.ending_ne (runs : fw.UnitRuns started ctx steps res) :
    res.ending ≠ .exhausted := by
  induction runs with
  | step _ _ _ _ _ ih => exact ih
  | _ => simp

theorem UnitRuns.runFrames_eq (runs : fw.UnitRuns started ctx steps res) (spare : Nat)
    (emitted : List Command) : fw.runFrames (spare + steps + 1) started emitted ctx =
      { res with commands := emitted.reverse ++ res.commands } := by
  induction runs generalizing emitted with
  | finished empty => simp [runFrames, empty]
  | boundary top boundary => simp [runFrames, top, boundary]
  | failed top goesOn out | suspended top goesOn out | loopLimit top goesOn out =>
    simp [runFrames, top, goesOn, out]
  | @step started ctx next frame rest effect steps res top goesOn plain out _
      ih =>
      rw [← Nat.add_assoc, runFrames]
      cases effect with
      | quiet | emit => simp [top, goesOn, out, ih, Effect.told]
      | request | loopLimit => cases plain

theorem Reaches.unitRuns (started : Bool) (reached : fw.Reaches none ctx) :
    ∃ steps res, fw.UnitRuns started ctx steps res ∧ steps ≤ remaining sizing started ctx + 1 := by
  induction measure : remaining sizing started ctx using Nat.strong_induction_on
    generalizing started ctx with
  | _ left ih =>
    subst measure
    cases top : ctx.frames with
    | nil => exact ⟨0, _, .finished top, Nat.zero_le _⟩
    | cons frame rest =>
      cases goesOn : fw.isBoundary frame && started with
      | true =>
        obtain ⟨boundary, rfl⟩ := Bool.and_eq_true_iff.mp goesOn
        exact ⟨0, _, .boundary top boundary, Nat.zero_le _⟩
      | false =>
        cases out : fw.step ctx frame rest with
        | error fault final =>
          exact ⟨1, _, .failed top goesOn out, Nat.le_add_left _ _⟩
        | ok effect next =>
          have lower := reached.remaining_lt sizing top goesOn out
          have after := reached.step top out
          cases effect with
          | request =>
            exact ⟨1, _, .suspended top goesOn out, Nat.le_add_left _ _⟩
          | loopLimit =>
            exact ⟨1, _, .loopLimit top goesOn out, Nat.le_add_left _ _⟩
          | quiet | emit =>
            obtain ⟨steps, res, runs, bounded⟩ := ih _ lower _ after rfl
            exact ⟨steps + 1, _, .step top goesOn rfl out runs, by omega⟩

theorem Reaches.runUnit_runs (forest : fw.program.IsForest) (started : Bool)
    (reached : fw.Reaches none ctx) :
    ∃ steps, steps < fw.unitBound ctx ∧ fw.UnitRuns started ctx steps (fw.runUnit started ctx) := by
  obtain ⟨steps, res, runs, bounded⟩ := reached.unitRuns forest.sizing started
  have room := stackCost_lt_unitBound forest.sizing ctx
  have below : steps < fw.unitBound ctx := by
    unfold remaining at bounded
    split at bounded <;> omega
  have same : fw.runUnit started ctx = res := by
    obtain ⟨spare, bound⟩ := Nat.exists_eq_add_of_lt below
    rw [runUnit, bound, Nat.add_comm steps]
    exact runs.runFrames_eq spare []
  rw [same]
  exact ⟨steps, below, runs⟩

end Firmware

namespace Session

variable {s : Session} {started : Bool} {control : Control} {ctx : Context}

/-- The unit that a control runs: whether it is under way, and where it starts. -/
def unit? (s : Session) (control : Control) : Option (Bool × Context) :=
  match control, s.status with
  | .step, .idle => some (false, .initial defaultSeed)
  | .step, .active .paused ctx | .tick, .active .running ctx => some (false, ctx)
  | .answer id value, .waiting pending ctx =>
    if pending.id = id then
      some (true, { ctx with values := pending.request.response value :: ctx.values })
    else none
  | _, _ => none

theorem reaches_of_unit? (reached : s.status.Reached s.firmware)
    (found : s.unit? control = some (started, ctx)) : s.firmware.Reaches none ctx := by
  unfold unit? at found
  split at found
  · cases found
    exact .start
  · rename_i status
    cases found
    rwa [status] at reached
  · rename_i status
    cases found
    rwa [status] at reached
  · rename_i status
    split at found <;> cases found
    rw [status] at reached
    exact reached.answer _
  · cases found

theorem control_status_of_unit? (found : s.unit? control = some (started, ctx)) :
    ∃ mode, (s.control control).status =
      (s.firmware.runUnit started ctx).ending.status mode s.nextRequest
        (s.firmware.runUnit started ctx).context := by
  unfold unit? at found
  split at found
  · rename_i status
    cases found
    simp only [control, step, status]
    exact ⟨.paused, settle_status _ _ _ _⟩
  · rename_i status
    cases found
    simp only [control, step, status]
    exact ⟨.paused, settle_status _ _ _ _⟩
  · rename_i status
    cases found
    simp only [control, tick, status]
    exact ⟨.running, settle_status _ _ _ _⟩
  · rename_i pending _ status
    split at found <;> cases found
    rename_i pends
    simp only [control, answer, status, if_pos pends]
    exact ⟨pending.mode, settle_status _ _ _ _⟩
  · cases found

theorem control_context_of_unit?_eq_none (none : s.unit? control = none)
    (held : (s.control control).status.context? = some ctx) :
    s.status.context? = some ctx ∨ s.status = .idle ∧ ctx = .initial defaultSeed := by
  cases control with
  | start =>
    simp only [control, start] at held
    split at held
    · cases held
      exact .inr ⟨‹_›, rfl⟩
    · exact .inl held
  | step =>
    simp only [control, step] at held
    split at held
    · rename_i status
      simp [unit?, status] at none
    · rename_i status
      simp [unit?, status] at none
    · exact .inl held
  | tick =>
    simp only [control, tick] at held
    split at held
    · rename_i status
      simp [unit?, status] at none
    · exact .inl held
  | pause | resume =>
    simp only [control, pause, resume] at held
    split at held
    · rename_i status
      rw [status]
      exact .inl held
    · rename_i status
      rw [status]
      exact .inl held
    · exact .inl held
  | stop =>
    simp only [control, stop] at held
    split at held
    · cases held
    · cases held
    · exact .inl held
  | answer id value =>
    simp only [control, answer] at held
    split at held
    · rename_i status
      split at held
      · rename_i pends
        simp [unit?, status, pends] at none
      · exact .inl held
    · exact .inl held

structure Returns (s : Session) (control : Control) : Prop where
  /-- A unit that it runs ends without a bound on its steps, and leaves the session in the state
  that the ending calls for. -/
  ends : ∀ started ctx, s.unit? control = some (started, ctx) →
    ∃ steps res mode, s.firmware.UnitRuns started ctx steps res ∧
      (s.control control).status =
        res.ending.status mode s.nextRequest res.context
  /-- If it runs none, it leaves the context, unless it begins a run. -/
  keeps : s.unit? control = none → ∀ ctx,
    (s.control control).status.context? = some ctx →
      s.status.context? = some ctx ∨
        s.status = .idle ∧ ctx = .initial defaultSeed

theorem returns_of_reached (forest : s.firmware.program.IsForest)
    (reached : s.status.Reached s.firmware) (control : Control) : s.Returns control where
  ends := by
    intro started ctx found
    obtain ⟨steps, -, runs⟩ := (reaches_of_unit? reached found).runUnit_runs forest started
    obtain ⟨mode, status⟩ := control_status_of_unit? found
    exact ⟨steps, _, mode, runs, status⟩
  keeps := fun none _ held => control_context_of_unit?_eq_none none held

end Session

/-- The programs that come from a text or from an archive. -/
inductive Program.Accepted (prog : Program) : Prop where
  | parsed {source sketch} : parseSketch source = .ok sketch → sketch.program = prog → Accepted prog
  | decoded {bytes} : Archive.decode bytes = .ok prog → Accepted prog

theorem Program.Accepted.of_text (source : String)
    (read : (parseSketch source).toOption.map Sketch.program = some prog) : prog.Accepted := by
  cases parsed : parseSketch source with rw [parsed] at read
  | error => cases read
  | ok sketch => exact .parsed parsed (Option.some.inj read)

theorem Program.Accepted.isForest (accepted : prog.Accepted) : prog.IsForest := by
  cases accepted with
  | parsed parsed same => exact same ▸ isForest_of_parseSketch parsed
  | decoded read => exact Archive.isForest_of_decode read

namespace Firmware

/-- Every unit ends after finitely many steps, from whatever a run reaches and however the sketch
loops or calls itself, and none meets the bound that it runs under. So every control of a session
returns. The recursions inside a step come to an end before their bounds too. -/
theorem units_end (firmware : Firmware) (accepted : firmware.program.Accepted)
    (acyclic : Acyclic firmware.structs) :
    (∀ context, firmware.Reaches none context → ∀ started,
      (firmware.runUnit started context).ending ≠ .exhausted ∧
        ∃ steps, steps < firmware.unitBound context ∧
          firmware.UnitRuns started context steps (firmware.runUnit started context)) ∧
    (∀ nextRequest controls control,
      (({ firmware, nextRequest } : Session).perform controls).Returns control) ∧
    (∀ env id bound, firmware.program.nodes.size < bound →
      firmware.typeAt env bound id = firmware.staticType env id ∧
        firmware.labelAt env bound id = firmware.labelValue env id) ∧
    ∀ (type : DataType) bound, firmware.structs.length < bound →
      type.defaultAt firmware.structs bound = type.default firmware.structs ∧
        type.sizeAt firmware.structs bound = type.size firmware.structs := by
  have forest := accepted.isForest
  refine ⟨?_, ?_, ?_, ?_⟩
  · intro context reached started
    obtain ⟨steps, below, runs⟩ := reached.runUnit_runs forest started
    exact ⟨runs.ending_ne, steps, below, runs⟩
  · intro nextRequest controls control
    have same := Session.perform_firmware ({ firmware, nextRequest } : Session) controls
    have reached : (({ firmware, nextRequest } : Session).perform controls).status.Reached
        firmware := Session.perform_reached controls trivial
    apply Session.returns_of_reached
    · rw [same]
      exact forest
    · rw [same]
      exact reached
  · intro env id bound enough
    exact bounds_suffice forest env id enough
  · intro type bound enough
    exact type.bounds_suffice acyclic enough

/-- A sketch whose `setup` never leaves a loop and calls in it a function that never returns. -/
def descent : Firmware where
  program := {
    nodes := #[
      ⟨.structDef "Link" [⟨"depth", .of .int⟩,
        ⟨"next", { base := .record "Link", pointerDepth := 1 }⟩], ⟨1, 1⟩⟩,
      ⟨.identifier "sink", ⟨2, 30⟩⟩, ⟨.identifier "depth", ⟨2, 35⟩⟩, ⟨.intLiteral 1 false, ⟨2, 43⟩⟩,
      ⟨.binary .add 2 3, ⟨2, 41⟩⟩, ⟨.call "sink" [4], ⟨2, 30⟩⟩, ⟨.returnStmt (some 5), ⟨2, 23⟩⟩,
      ⟨.block [6], ⟨2, 21⟩⟩, ⟨.functionDef "sink" [⟨"depth", .of .int⟩] (.of .int) 7, ⟨2, 5⟩⟩,
      ⟨.boolLiteral true, ⟨3, 23⟩⟩, ⟨.identifier "sink", ⟨3, 31⟩⟩, ⟨.intLiteral 0 false, ⟨3, 36⟩⟩,
      ⟨.call "sink" [11], ⟨3, 31⟩⟩, ⟨.exprStmt 12, ⟨3, 31⟩⟩, ⟨.block [13], ⟨3, 29⟩⟩,
      ⟨.whileLoop 9 14, ⟨3, 16⟩⟩, ⟨.block [15], ⟨3, 14⟩⟩,
      ⟨.functionDef "setup" [] (.of .void) 16, ⟨3, 6⟩⟩]
    items := [0, 8, 17] }

def descentText : String :=
  "struct Link \x7b int depth; Link* next; \x7d;\n" ++
  "int sink(int depth) \x7b return sink(depth + 1); \x7d\n" ++
  "void setup() \x7b while (true) \x7b sink(0); \x7d \x7d"

theorem descent_accepted : descent.program.Accepted := by
  apply Program.Accepted.of_text descentText
  decide +kernel

theorem descent_acyclic : Acyclic descent.structs := by
  apply Acyclic.of_flat
  have tables : descent.structs = [("Link", [⟨"depth", .of .int⟩,
      ⟨"next", { base := .record "Link", pointerDepth := 1 }⟩])] := rfl
  simp [tables, DataType.of]

def descentTicks : List Control := [.start, .tick, .tick, .tick, .tick]

theorem descent_units_end :
    descent.program.Accepted ∧ Acyclic descent.structs ∧
      ((({ firmware := descent } : Session).perform descentTicks).unit? .tick).isSome = true ∧
      (({ firmware := descent } : Session).perform descentTicks).Returns .tick := by
  have runs : ((({ firmware := descent } : Session).perform descentTicks).unit? .tick).isSome =
      true := by
    decide +kernel
  obtain ⟨-, returns, -⟩ := units_end descent descent_accepted descent_acyclic
  exact ⟨descent_accepted, descent_acyclic, runs, returns 1 descentTicks .tick⟩

end Firmware

end Breadboard
