import Breadboard.Proofs.Machine.Price
import Breadboard.Proofs.Session.Termination

/-!
Runs end. If the bodies of loops run a bounded number of times and no function leads back to
itself, then every step lowers the price of the stack, jumps and calls included. Every unit takes
a step or ends the run, and so does every move of a host that answers whatever it is asked. So a
run comes to its end after as many moves as the price at its start allows, whatever the answers.
-/

namespace Breadboard

open Program.Pricing Status

variable {fw : Firmware} {ctx next : Context} {frame : Frame} {effect : Effect} {limit : Nat}
  (forest : fw.program.IsForest) (pricing : fw.program.Pricing limit)
  (capped : fw.config.maxInnerIterations = some limit)

theorem Jump.stackPrice_le (rounds : Nat) (jump : Jump fw ctx frame next) :
    pricing.stackPrice rounds next.frames ≤ pricing.stackPrice rounds ctx.frames :=
  jump.sum_le (pricing.framePrice rounds) fun _ _ _ _ => rfl

theorem Jump.framePrice_pos (rounds : Nat) (jump : Jump fw ctx frame next) :
    0 < pricing.framePrice rounds frame := by
  cases jump with
  | @breakOut id | @goOn id =>
    have least := pricing.sixteen_le id
    simp only [framePrice]
    omega
  | leave => exact Nat.one_pos

namespace Act

include capped

theorem startBody_capped (node : NodeId) (parts : LoopParts) (iters : Nat) (hasScope : Bool)
    (loc : Location) : (startBody fw node parts iters hasScope loc).Meets ctx
      (fun _ _ => iters < limit) (fun _ _ => True) := by
  simp only [startBody, capped]
  split
  · trivial
  · exact Nat.lt_of_not_le ‹_›

theorem runLoop_capped (node : NodeId) (iters : Nat) (hasScope : Bool)
    (starts : phase = .test ∨ phase = .body) :
    (runFrame fw (.loop node phase iters hasScope)).Meets ctx
      (fun _ next => next.frames = ctx.frames ∨ iters < limit) (fun _ _ => True) := by
  have started (before : Context) (parts : LoopParts) (loc : Location) :
      (startBody fw node parts iters hasScope loc).Meets before
        (fun _ next => next.frames = ctx.frames ∨ iters < limit) (fun _ _ => True) :=
    (startBody_capped capped node parts iters hasScope loc).weaken (fun _ _ => .inr) fun _ _ => id
  simp only [runFrame, meets_bind, meets_pure, runLoop]
  cases (fw.program.kind node).loop? with
  | none => trivial
  | some parts =>
    rcases starts with rfl | rfl
    · simp only [meets_bind]
      cases opds : ctx.values with
      | nil => simp [pop, opds]
      | cons value below =>
        rw [meets_pop _ opds, meets_truth]
        refine ⟨?_, fun _ => trivial⟩
        intro holds _
        cases holds with
        | true => exact started _ _ _
        | false => cases hasScope <;> exact .inl rfl
    · exact started _ _ _

end Act

namespace Firmware

variable {rest : List Frame} {started : Bool} {steps : Nat} {res : UnitResult}

theorem UnitRuns.steps_pos (runs : fw.UnitRuns started ctx steps res) :
    res.ending.isFinal = true ∨ 0 < steps ∨ started = true ∧ res.ending = .boundary := by
  cases runs with
  | finished => exact .inl rfl
  | boundary => exact .inr (.inr ⟨rfl, rfl⟩)
  | failed | suspended | loopLimit => exact .inr (.inl Nat.one_pos)
  | step => exact .inr (.inl (Nat.succ_pos _))

include capped

theorem Reaches.stackPrice_lt (reached : fw.Reaches none ctx) (top : ctx.frames = frame :: rest)
    (out : fw.step ctx frame rest = .ok effect next) :
    pricing.stackPrice fw.config.maxLoopIterations next.frames <
      pricing.stackPrice fw.config.maxLoopIterations ctx.frames := by
  obtain ⟨stepped, -⟩ := (step_meets top reached.balanced).of_ok out
  rw [top, stackPrice_cons]
  rcases stepped with ⟨_, scheduled, _, turn, frames, -⟩ | ⟨-, jump⟩
  · rw [frames, stackPrice_append]
    apply Nat.add_lt_add_right
    apply turn.stackPrice_lt
    rintro node phase iters hasScope rfl starts
    rcases (Act.runLoop_capped capped node iters hasScope starts).of_ok out with
      same | below
    · rw [frames] at same
      exact .inl (by simpa using same)
    · exact .inr below
  · have kept := jump.stackPrice_le pricing fw.config.maxLoopIterations
    have positive := jump.framePrice_pos pricing fw.config.maxLoopIterations
    exact Nat.lt_of_le_of_lt kept (Nat.lt_add_of_pos_left positive)

theorem UnitRuns.stackPrice_le (runs : fw.UnitRuns started ctx steps res)
    (reached : fw.Reaches none ctx) : res.ending.isFinal = true ∨
      pricing.stackPrice fw.config.maxLoopIterations res.context.frames + steps ≤
        pricing.stackPrice fw.config.maxLoopIterations ctx.frames := by
  induction runs with
  | finished | failed | loopLimit => exact .inl rfl
  | boundary => exact .inr (Nat.le_refl _)
  | suspended top _ out => exact .inr (reached.stackPrice_lt pricing capped top out)
  | @step _ ctx next _ _ effect _ _ top _ plain out _ ih =>
    have lower := reached.stackPrice_lt pricing capped top out
    have after : fw.Reaches none next := by
      have stepped := reached.step top out
      cases effect with
      | quiet | emit => exact stepped
      | request | loopLimit => cases plain
    rcases ih after with isFinal | less
    · exact .inl isFinal
    · right
      dsimp only
      omega

end Firmware

def Status.Over (status : Status) : Prop :=
  ∃ ctx, status = .complete ctx ∨ status = .failed ctx

/-- A run that is not over goes on by itself, once its request has been answered. -/
def Status.GoesOn : Status → Prop
  | .active mode _ => mode = .running
  | .waiting pending _ => pending.mode = .running
  | _ => True

def Status.left : Status → Nat
  | .idle => 2 * pricing.stackPrice fw.config.maxLoopIterations [.program (.globals 0)] + 2
  | .active _ ctx => 2 * pricing.stackPrice fw.config.maxLoopIterations ctx.frames + 1
  | .waiting _ ctx =>
    2 * pricing.stackPrice fw.config.maxLoopIterations ctx.frames + 2
  | .complete _ | .failed _ => 0

theorem Status.over_of_left {status : Status} (nothing : status.left pricing = 0) :
    status.Over := by
  cases status with
  | complete ctx => exact ⟨ctx, .inl rfl⟩
  | failed ctx => exact ⟨ctx, .inr rfl⟩
  | idle | active | waiting => cases nothing

namespace Session

variable {s : Session} {Host : Type}

/-- A session of a firmware that is not paused, at a point that a run reaches. -/
structure Underway (fw : Firmware) (s : Session) : Prop where
  same : s.firmware = fw
  reached : s.status.Reached fw
  goesOn : s.status.GoesOn

include forest capped

theorem Underway.settle (same : s.firmware = fw) (started : Bool) (reached : fw.Reaches none ctx) :
    (s.settle .running started ctx).Underway fw ∧
      (s.settle .running started ctx).status.left pricing <
        2 * pricing.stackPrice fw.config.maxLoopIterations ctx.frames + 1 + started.toNat := by
  subst same
  obtain ⟨steps, -, runs⟩ := reached.runUnit_runs forest started
  have status := s.settle_status .running started ctx
  refine ⟨⟨settle_firmware _ _ _ _, settle_reached reached, ?_⟩, ?_⟩
  · rw [status]
    cases (s.firmware.runUnit started ctx).ending <;> trivial
  · rw [status]
    have lower := runs.stackPrice_le pricing capped reached
    have progress := runs.steps_pos
    cases ending : (s.firmware.runUnit started ctx).ending with
    | finished | loopLimit | failed =>
      simp only [Ending.status, left]
      omega
    | exhausted => exact absurd ending runs.ending_ne
    | boundary =>
      simp only [ending, Ending.isFinal, Bool.false_eq_true, false_or, and_true] at lower progress
      simp only [Ending.status, left]
      rcases progress with step | rfl
      · omega
      · rw [Bool.toNat_true]
        omega
    | suspended request =>
      simp only [ending, Ending.isFinal, Bool.false_eq_true, false_or, reduceCtorEq, and_false,
        or_false] at lower progress
      simp only [Ending.status, left]
      omega

theorem Underway.move (underway : s.Underway fw) (respond : Responder Host) (host : Host) :
    s.status.Over ∧ s.move .running respond host = (none, s) ∨
      ∃ host' next, s.move .running respond host = (some host', next) ∧
        next.Underway fw ∧ next.status.left pricing < s.status.left pricing := by
  obtain ⟨same, reached, goesOn⟩ := underway
  cases status : s.status with
  | idle =>
    refine .inr ⟨host, s.begun .running, ?_, ⟨same, .start, rfl⟩, ?_⟩
    · simp [Session.move, status, advance, isIdle, start, begun]
    · exact Nat.lt_succ_self _
  | active mode ctx =>
    rw [status] at reached goesOn
    cases goesOn
    obtain ⟨after, less⟩ := Underway.settle forest pricing capped same false reached
    refine .inr ⟨host, _, ?_, after, less⟩
    simp [Session.move, status, advance, isIdle, tick]
  | waiting pending ctx =>
    rw [status] at reached goesOn
    obtain ⟨after, less⟩ := Underway.settle forest pricing capped same true
      (reached.answer (respond host s.log pending.request).1)
    refine .inr ⟨(respond host s.log pending.request).2, _, ?_, after, less⟩
    have mode : pending.mode = .running := goesOn
    simp [Session.move, status, answer, mode]
  | complete ctx =>
    refine .inl ⟨⟨ctx, .inl rfl⟩, ?_⟩
    simp [Session.move, status, advance, isIdle, tick]
  | failed ctx =>
    refine .inl ⟨⟨ctx, .inr rfl⟩, ?_⟩
    simp [Session.move, status, advance, isIdle, tick]

theorem Underway.drive (underway : s.Underway fw) (respond : Responder Host) (host : Host)
    (enough : s.status.left pricing ≤ fuel) :
    (Session.drive .running respond fuel host s).status.Over := by
  induction fuel generalizing s host with
  | zero => exact over_of_left pricing (Nat.le_zero.mp enough)
  | succ fuel ih =>
    rw [Session.drive]
    rcases underway.move forest pricing capped respond host with
      ⟨over', stays⟩ | ⟨host', next, moved, after, less⟩
    · rw [stays]
      exact over'
    · rw [moved]
      exact ih after host' (by omega)

end Session

namespace Firmware

/-- A sketch whose loops are bounded and whose functions do not lead back to themselves comes to
its end, complete or with a failure, whatever its host answers. That holds from wherever its
controls have brought the session, unless it is paused, and how many moves there are at most is
known before the answers are. Every unit among the moves takes finitely many steps, and the
default value of a type is found under any bound above the number of structures. -/
theorem bounded_sketches_end (firmware : Firmware) (limit : Nat)
    (accepted : firmware.program.Accepted) (structs : Acyclic firmware.structs)
    (calls : firmware.program.NonRecursive)
    (capped : firmware.config.maxInnerIterations = some limit) :
    (∀ nextRequest controls,
      let session := ({ firmware, nextRequest } : Session).perform controls
      session.status.GoesOn →
        ∃ moves, ∀ (Host : Type) (respond : Session.Responder Host) (host : Host) (fuel : Nat),
          moves ≤ fuel → (Session.drive .running respond fuel host session).status.Over) ∧
    (∀ context, firmware.Reaches none context → ∀ started, ∃ steps,
      firmware.UnitRuns started context steps (firmware.runUnit started context)) ∧
    ∀ (type : DataType) bound, firmware.structs.length < bound →
      type.defaultAt firmware.structs bound = type.default firmware.structs := by
  have forest := accepted.isForest
  have pricing := Program.pricing (calls.wellFounded_needs forest.wellFounded) limit
  refine ⟨?_, ?_, ?_⟩
  · intro nextRequest controls session goesOn
    have same : session.firmware = firmware := Session.perform_firmware _ controls
    have reached : session.status.Reached firmware := Session.perform_reached controls trivial
    have underway : session.Underway firmware := ⟨same, reached, goesOn⟩
    refine ⟨session.status.left pricing, ?_⟩
    intro Host respond host fuel enough
    exact underway.drive forest pricing capped respond host enough
  · intro context reached started
    obtain ⟨steps, -, runs⟩ := reached.runUnit_runs forest started
    exact ⟨steps, runs⟩
  · intro type bound enough
    exact (type.bounds_suffice structs enough).1

/-- A sketch that reads a pin as long as another one is high. -/
def gatekeeper : Firmware where
  program := {
    nodes := #[
      ⟨.structDef "Gate" [⟨"pin", .of .int⟩, ⟨"level", .of .int⟩], ⟨1, 1⟩⟩,
      ⟨.identifier "digitalRead", ⟨2, 30⟩⟩, ⟨.identifier "pin", ⟨2, 42⟩⟩,
      ⟨.call "digitalRead" [2], ⟨2, 30⟩⟩, ⟨.returnStmt (some 3), ⟨2, 23⟩⟩, ⟨.block [4], ⟨2, 21⟩⟩,
      ⟨.functionDef "sample" [⟨"pin", .of .int⟩] (.of .int) 5, ⟨2, 5⟩⟩,
      ⟨.identifier "sample", ⟨3, 22⟩⟩, ⟨.intLiteral 2 false, ⟨3, 29⟩⟩,
      ⟨.call "sample" [8], ⟨3, 22⟩⟩, ⟨.identifier "sample", ⟨3, 35⟩⟩,
      ⟨.intLiteral 3 false, ⟨3, 42⟩⟩, ⟨.call "sample" [11], ⟨3, 35⟩⟩, ⟨.exprStmt 12, ⟨3, 35⟩⟩,
      ⟨.block [13], ⟨3, 33⟩⟩, ⟨.whileLoop 9 14, ⟨3, 15⟩⟩, ⟨.block [15], ⟨3, 13⟩⟩,
      ⟨.functionDef "loop" [] (.of .void) 16, ⟨3, 6⟩⟩]
    items := [0, 6, 17] }
  config := { maxInnerIterations := some 1000 }

def gatekeeperText : String :=
  "struct Gate \x7b int pin; int level; \x7d;\n" ++
  "int sample(int pin) \x7b return digitalRead(pin); \x7d\n" ++
  "void loop() \x7b while (sample(2)) \x7b sample(3); \x7d \x7d"

theorem gatekeeper_accepted : gatekeeper.program.Accepted := by
  apply Program.Accepted.of_text gatekeeperText
  decide +kernel

theorem gatekeeper_acyclic : Acyclic gatekeeper.structs := by
  apply Acyclic.of_flat
  have tables : gatekeeper.structs = [("Gate", [⟨"pin", .of .int⟩, ⟨"level", .of .int⟩])] := rfl
  simp [tables, DataType.of]

theorem gatekeeper_nonRecursive : gatekeeper.program.NonRecursive := by
  apply Program.NonRecursive.of_definedFirst
  · intro child parent isChild
    have listed : ∀ parent < gatekeeper.program.nodes.size,
        ∀ child ∈ (gatekeeper.program.kind parent).children, child < parent := by
      decide
    exact listed parent (Program.lt_of_child isChild) child isChild
  · intro id fn called
    have listed : ∀ id < gatekeeper.program.nodes.size,
        ∀ fn ∈ gatekeeper.program.callee? id, fn < id := by
      decide
    refine listed id ?_ fn called
    by_contra outside
    rw [Program.callee?, Program.kind_eq_empty (Nat.le_of_not_lt outside)] at called
    cases called

def allHigh : Session.Responder Unit := fun host _ _ => (.int 1, host)

theorem gatekeeper_ends :
    gatekeeper.program.Accepted ∧ Acyclic gatekeeper.structs ∧ gatekeeper.program.NonRecursive ∧
      ∃ moves,
        (Session.drive .running allHigh moves () { firmware := gatekeeper }).status.Over := by
  obtain ⟨ends, -⟩ := bounded_sketches_end gatekeeper 1000 gatekeeper_accepted gatekeeper_acyclic
    gatekeeper_nonRecursive rfl
  obtain ⟨moves, enough⟩ := ends 1 [] trivial
  exact ⟨gatekeeper_accepted, gatekeeper_acyclic, gatekeeper_nonRecursive, moves,
    enough Unit allHigh () moves (Nat.le_refl _)⟩

end Firmware

end Breadboard
