import Breadboard.Proofs.Machine.Cost
import Breadboard.Proofs.Session.Settle
import Breadboard.Proofs.Session.Stepwise

/-!
Suspension is transparent. An oracle runs the same frames but has the answers at hand: where a
frame makes a request, it pushes the next answer and goes on. A host that answers the requests
of a session from the same list sees what the oracle does, command for command and frame for
frame; a unit that is left at a request and finished by an answer does nothing twice.
-/

open List

namespace Breadboard

open Command Firmware Session

namespace Log

variable (log : Log)

/-- The commands other than requests, with numbers of their own. -/
def withoutRequests (log : Log) : Log :=
  { emitAll {} (log.commands.filter (!·.isRequest)) with isSealed := log.isSealed }

theorem withoutRequests_close : log.close.withoutRequests = log.withoutRequests.close := rfl

theorem withoutRequests_emit (cmd : Command) : (log.emit cmd).withoutRequests =
      if cmd.isRequest then log.withoutRequests else log.withoutRequests.emit cmd := by
  cases closed : log.isSealed with
  | true => simp [emit, entry?, withoutRequests, closed]
  | false =>
    have unsealed (cmds : List Command) : (emitAll {} cmds).isSealed = false :=
      isSealed_emitAll {} cmds
    cases asks : cmd.isRequest with
    | true =>
      simp [withoutRequests, commands_emit cmd closed, asks]
    | false =>
      have same (log : Log) (stays : log.isSealed = false) :
          { log with isSealed := false } = log := by
        rw [← stays]
      simp only [withoutRequests, commands_emit cmd closed, isSealed_emit, closed,
        filter_append, filter_cons, asks, Bool.not_false, if_true, filter_nil,
        Bool.false_eq_true, if_false, same _ (unsealed _)]
      simp [emitAll]

theorem withoutRequests_emitAll (report : ∀ cmd ∈ cmds, cmd.isRequest = false) :
    (log.emitAll cmds).withoutRequests = log.withoutRequests.emitAll cmds := by
  induction cmds generalizing log with
  | nil => rfl
  | cons cmd cmds ih =>
    obtain ⟨first, further⟩ := forall_mem_cons.mp report
    change ((log.emit cmd).emitAll cmds).withoutRequests =
      (log.withoutRequests.emit cmd).emitAll cmds
    rw [ih _ further, withoutRequests_emit, first, if_neg Bool.false_ne_true]

end Log

def Firmware.framesRun (fw : Firmware) : Nat → Bool → Context → List Frame
  | 0, _, _ => []
  | fuel + 1, started, ctx =>
    match ctx.frames with
    | [] => []
    | frame :: rest =>
      if fw.isBoundary frame && started then []
      else
        match fw.step ctx frame rest with
        | .ok .quiet next | .ok (.emit _) next =>
          frame :: framesRun fw fuel (started || fw.isBoundary frame) next
        | _ => [frame]

def Firmware.unitFrames (fw : Firmware) (started : Bool) (ctx : Context) : List Frame :=
  fw.framesRun (fw.unitBound ctx) started ctx

structure Oracle where
  log : Log := {}
  answers : List Primitive
  /-- The frames that the run has acted on, in order. -/
  ran : List Frame := []
  stage : Stage := .idle

namespace Oracle

def finish (oracle : Oracle) (ctx : Context) : Oracle :=
  { oracle with log := (oracle.log.emit .programEnd).close, stage := .complete ctx }

def fail (oracle : Oracle) (fault : Fault) (ctx : Context) : Oracle :=
  { oracle with
    log := (oracle.log.emit (.error fault.kind fault.message fault.location)).close
    stage := .failed ctx }

/-- Pushes the next answer to a request. Without one the run cannot go on. -/
def respond (oracle : Oracle) (request : Request) (ctx : Context) : Oracle :=
  match oracle.answers with
  | [] => { oracle with stage := .asking request ctx }
  | answer :: answers =>
    { oracle with
      answers
      stage := .going { ctx with values := request.response answer :: ctx.values } }

def proceed (oracle : Oracle) (effect : Effect) (ctx : Context) : Oracle :=
  match effect with
  | .quiet => { oracle with stage := .going ctx }
  | .emit cmd => { oracle with log := oracle.log.emit cmd, stage := .going ctx }
  | .request request => oracle.respond request ctx
  | .loopLimit iters =>
    { oracle with log := oracle.log.emit (.loopLimitReached iters) }.finish ctx

def next (fw : Firmware) (oracle : Oracle) : Oracle :=
  match oracle.stage with
  | .idle =>
    { oracle with log := openingLog, stage := .going (.initial defaultSeed) }
  | .going ctx =>
    match ctx.frames with
    | [] => oracle.finish ctx
    | frame :: rest =>
      let oracle := { oracle with ran := oracle.ran ++ [frame] }
      match fw.step ctx frame rest with
      | .ok effect ctx => oracle.proceed effect ctx
      | .error fault ctx => oracle.fail fault ctx
  | .asking _ _ | .complete _ | .failed _ => oracle

/-- The run has ended, or has no answer left to go on with. -/
def isOver (oracle : Oracle) : Bool :=
  match oracle.stage with
  | .asking _ _ | .complete _ | .failed _ => true
  | .idle | .going _ => false

variable {fw : Firmware} {oracle : Oracle}

theorem next_of_isOver (ended : oracle.isOver = true) : oracle.next fw = oracle := by
  unfold next
  unfold isOver at ended
  cases stage : oracle.stage with
  | idle | going =>
    rw [stage] at ended
    cases ended
  | asking | complete | failed => rfl

theorem respond_of_stage (log : Log) (answers : List Primitive) (ran : List Frame)
    (stage other : Stage) (request : Request) (ctx : Context) :
    respond ⟨log, answers, ran, stage⟩ request ctx =
      respond ⟨log, answers, ran, other⟩ request ctx := by
  cases answers <;> rfl

def settled (oracle : Oracle) (res : UnitResult) (frames : List Frame) : Oracle :=
  let oracle := { oracle with
    log := oracle.log.emitAll res.commands, ran := oracle.ran ++ frames }
  match res.ending with
  | .boundary | .exhausted => { oracle with stage := .going res.context }
  | .suspended request => oracle.respond request res.context
  | .finished => oracle.finish res.context
  | .loopLimit iters =>
    { oracle with log := oracle.log.emit (.loopLimitReached iters) }.finish res.context
  | .failed fault => oracle.fail fault res.context

theorem iterate_runFrames (fw : Firmware) (oracle : Oracle) (fuel : Nat) (started : Bool)
    (emitted : List Command) (ctx : Context) :
    ∃ steps, ((next fw)^[steps]) { oracle with
        log := oracle.log.emitAll emitted.reverse, stage := .going ctx } =
      oracle.settled (fw.runFrames fuel started emitted ctx) (fw.framesRun fuel started ctx) ∧
      (0 < fuel → started = false → 0 < steps) := by
  induction fuel generalizing oracle started emitted ctx with
  | zero => exact ⟨0, by simp [runFrames, framesRun, settled], nofun⟩
  | succ fuel ih =>
    unfold runFrames framesRun
    cases frames : ctx.frames with
    | nil =>
      refine ⟨1, ?_, fun _ _ => Nat.one_pos⟩
      simp [next, frames, settled, finish]
    | cons frame rest =>
      dsimp only
      split
      · rename_i atBoundary
        refine ⟨0, by simp [settled], ?_⟩
        rintro - rfl
        simp at atBoundary
      · cases out : fw.step ctx frame rest with
        | error fault final =>
          refine ⟨1, ?_, fun _ _ => Nat.one_pos⟩
          simp [next, frames, out, settled, fail]
        | ok effect final =>
          cases effect with
          | quiet =>
            obtain ⟨steps, reached, -⟩ := ih { oracle with ran := oracle.ran ++ [frame] }
              (started || fw.isBoundary frame) emitted final
            refine ⟨steps + 1, ?_, fun _ _ => Nat.succ_pos _⟩
            rw [Function.iterate_succ_apply]
            simpa [next, frames, out, proceed, settled] using reached
          | emit cmd =>
            obtain ⟨steps, reached, -⟩ := ih { oracle with ran := oracle.ran ++ [frame] }
              (started || fw.isBoundary frame) (cmd :: emitted) final
            refine ⟨steps + 1, ?_, fun _ _ => Nat.succ_pos _⟩
            rw [Function.iterate_succ_apply]
            simpa [next, frames, out, proceed, settled, Log.emitAll] using reached
          | request request =>
            refine ⟨1, ?_, fun _ _ => Nat.one_pos⟩
            simp only [Function.iterate_one, next, frames, out, settled, proceed]
            exact respond_of_stage ..
          | loopLimit iters =>
            refine ⟨1, ?_, fun _ _ => Nat.one_pos⟩
            simp [next, frames, out, settled, proceed, finish]

end Oracle

/-- A session whose requests are answered from a list. -/
structure Attended where
  session : Session
  answers : List Primitive
  /-- The frames that the units of the session have acted on, in order. -/
  ran : List Frame := []

namespace Attended

variable (session : Session) (started : Bool)

/-- The context of a session that goes on with an answer. -/
def resumed (request : Request) (answer : Primitive) (ctx : Context) : Context :=
  { ctx with values := request.response answer :: ctx.values }

/-- What the host does next: it starts the run, lets it run a unit, or gives the next answer. -/
def attend (host : Attended) : Attended :=
  let fw := host.session.firmware
  match host.session.status with
  | .idle => { host with session := host.session.start.2 }
  | .active .running ctx =>
    { host with
      session := host.session.tick.2, ran := host.ran ++ fw.unitFrames false ctx }
  | .waiting pending ctx =>
    match host.answers with
    | [] => host
    | answer :: answers =>
      { session := (host.session.answer pending.id answer).2
        answers
        ran := host.ran ++
          fw.unitFrames true (resumed pending.request answer ctx) }
  | .active .paused _ | .complete _ | .failed _ => host

/-- The run has ended, or waits and there is no answer left. -/
def isOver (host : Attended) : Bool :=
  match host.session.status with
  | .waiting _ _ => host.answers.isEmpty
  | .complete _ | .failed _ => true
  | .idle | .active _ _ => false

/-- The oracle that has come as far. It has the next answer already when the session waits
for it. -/
def foreseen (host : Attended) : Oracle :=
  let oracle : Oracle := ⟨host.session.log.withoutRequests, host.answers, host.ran,
    host.session.status.stage⟩
  match host.session.status with
  | .waiting pending ctx => oracle.respond pending.request ctx
  | _ => oracle

def Runs (host : Attended) : Prop :=
  match host.session.status with
  | .active mode _ => mode = .running
  | .waiting pending _ => pending.mode = .running
  | _ => True

variable {host : Attended}

theorem foreseen_settle (ctx : Context) (answers : List Primitive) (ran frames : List Frame)
    (stage : Stage) : foreseen ⟨session.settle .running started ctx, answers, ran ++ frames⟩ =
      Oracle.settled ⟨session.log.withoutRequests, answers, ran, stage⟩
        (session.firmware.runUnit started ctx) frames := by
  have noRequest : ∀ cmd ∈ (session.firmware.runUnit started ctx).commands,
      cmd.isRequest = false := by
    intro cmd inside
    have reports := isReport_of_mem_runUnit cmd inside
    rw [isRequest, requestId?_of_isReport reports, Option.isSome_none]
  have reported := session.log.withoutRequests_emitAll noRequest
  unfold settle Oracle.settled
  dsimp only
  cases (session.firmware.runUnit started ctx).ending with
  | boundary | exhausted => simp [foreseen, Status.stage, reported]
  | suspended request =>
    have asks (id : Nat) : (request.command id).isRequest = true := by
      cases request <;> rfl
    simp only [foreseen, Log.withoutRequests_emit, asks, if_true, reported]
    exact Oracle.respond_of_stage ..
  | finished | failed =>
    simp [foreseen, Status.stage, finish, Oracle.finish, Oracle.fail, reported,
      Log.withoutRequests_close, Log.withoutRequests_emit, isRequest, requestId?]
  | loopLimit iters =>
    simp [foreseen, Status.stage, finish, Oracle.finish, reported,
      Log.withoutRequests_close, Log.withoutRequests_emit, isRequest, requestId?]

theorem settle_runs (ctx : Context) (answers : List Primitive)
    (ran : List Frame) : Runs ⟨session.settle .running started ctx, answers, ran⟩ := by
  unfold Runs
  rw [settle_status]
  cases (session.firmware.runUnit started ctx).ending <;> simp [Ending.status]

theorem attend_keeps (runs : host.Runs) :
    host.attend.Runs ∧ host.attend.session.firmware = host.session.firmware := by
  unfold attend
  cases status : host.session.status with
  | idle =>
    simp only [start, status]
    exact ⟨rfl, trivial⟩
  | active mode ctx =>
    cases mode with
    | running =>
      simp only [tick, status]
      exact ⟨settle_runs .., settle_firmware ..⟩
    | paused => exact ⟨runs, rfl⟩
  | waiting pending ctx =>
    cases host.answers with
    | nil => exact ⟨runs, rfl⟩
    | cons answer further =>
      have mode : pending.mode = .running := by
        rw [Runs, status] at runs
        exact runs
      simp only [Session.answer, status, if_true, mode]
      exact ⟨settle_runs .., Session.settle_firmware ..⟩
  | complete | failed => exact ⟨runs, rfl⟩

theorem iterate_settle (ctx : Context) (answers : List Primitive)
    (ran : List Frame) : ∃ steps, ((Oracle.next session.firmware)^[steps])
        ⟨session.log.withoutRequests, answers, ran, .going ctx⟩ =
      foreseen ⟨session.settle .running started ctx, answers,
        ran ++ session.firmware.unitFrames started ctx⟩ ∧ (started = false → 0 < steps) := by
  obtain ⟨steps, reached, progress⟩ := Oracle.iterate_runFrames session.firmware
    ⟨session.log.withoutRequests, answers, ran, .going ctx⟩
    (session.firmware.unitBound ctx) started [] ctx
  refine ⟨steps, ?_, progress (session.firmware.unitBound_pos ctx)⟩
  rw [foreseen_settle session started ctx answers ran _ (.going ctx)]
  exact reached

/-- What the host does next is a number of steps of the oracle. -/
theorem iterate_attend (runs : host.Runs) :
    ∃ steps, ((Oracle.next host.session.firmware)^[steps]) host.foreseen = host.attend.foreseen ∧
      (host.isOver = false → host.session.status.pending? = none → 0 < steps) := by
  unfold attend
  cases status : host.session.status with
  | idle =>
    refine ⟨1, ?_, fun _ _ => Nat.one_pos⟩
    simp only [foreseen, status, Session.start, Status.stage]
    rfl
  | active mode ctx =>
    rw [Runs, status] at runs
    subst runs
    obtain ⟨steps, reached, progress⟩ := iterate_settle host.session false ctx host.answers host.ran
    refine ⟨steps, ?_, fun _ _ => progress rfl⟩
    simp only [Session.tick, status]
    rw [foreseen, status]
    exact reached
  | waiting pending ctx =>
    cases answers : host.answers with
    | nil => exact ⟨0, rfl, by simp [Status.pending?]⟩
    | cons answer further =>
      rw [Runs, status] at runs
      obtain ⟨steps, reached, -⟩ := iterate_settle host.session true
        (resumed pending.request answer ctx) further host.ran
      refine ⟨steps, ?_, by simp [Status.pending?]⟩
      simp only [Session.answer, status, if_true, runs]
      rw [foreseen, status, answers]
      exact reached
  | complete | failed =>
    refine ⟨0, rfl, ?_⟩
    simp [isOver, status]

theorem foreseen_isOver : host.foreseen.isOver = host.isOver := by
  unfold foreseen isOver
  cases status : host.session.status with
  | waiting pending ctx => cases host.answers <;> rfl
  | _ => rfl

theorem progress_of_pending?_eq_none (runs : host.Runs)
    (none : host.isOver = false → host.session.status.pending? = none) :
    ∃ moves steps, 0 < steps ∧ ((Oracle.next host.session.firmware)^[steps]) host.foreseen =
      (attend^[moves] host).foreseen := by
  cases stands : host.isOver with
  | true =>
    have still : host.foreseen.next host.session.firmware = host.foreseen :=
      Oracle.next_of_isOver (foreseen_isOver.trans stands)
    exact ⟨0, 1, Nat.one_pos, still⟩
  | false =>
    obtain ⟨steps, reached, progress⟩ := iterate_attend runs
    exact ⟨1, steps, progress stands (none stands), reached⟩

theorem progress (runs : host.Runs) :
    ∃ moves steps, 0 < steps ∧ ((Oracle.next host.session.firmware)^[steps]) host.foreseen =
      (attend^[moves] host).foreseen := by
  -- An answer may take the oracle no further, but then there is one answer less.
  induction left : host.answers generalizing host with
  | nil =>
    refine progress_of_pending?_eq_none runs fun goesOn => ?_
    cases status : host.session.status with
    | waiting =>
      rw [isOver, status, left] at goesOn
      cases goesOn
    | _ => rfl
  | cons answer further ih =>
    cases status : host.session.status with
    | waiting pending ctx =>
      have fewer : host.attend.answers = further := by
        simp [attend, status, left]
      obtain ⟨first, attended, -⟩ := iterate_attend runs
      obtain ⟨still, same⟩ := attend_keeps runs
      obtain ⟨moves, steps, progress, reached⟩ := ih still fewer
      refine ⟨moves + 1, steps + first, Nat.add_pos_left progress _, ?_⟩
      rw [Function.iterate_add_apply, attended, Function.iterate_succ_apply]
      rwa [same] at reached
    | _ => exact progress_of_pending?_eq_none runs fun _ => by rw [status]; rfl

theorem iterate_keeps (runs : host.Runs) (moves : Nat) : (attend^[moves] host).Runs ∧
      (attend^[moves] host).session.firmware = host.session.firmware := by
  induction moves with
  | zero => exact ⟨runs, rfl⟩
  | succ moves ih =>
    rw [Function.iterate_succ_apply', ← ih.2]
    exact attend_keeps ih.1

theorem exists_steps (runs : host.Runs) (moves : Nat) :
    ∃ steps, ((Oracle.next host.session.firmware)^[steps]) host.foreseen =
      (attend^[moves] host).foreseen := by
  induction moves with
  | zero => exact ⟨0, rfl⟩
  | succ moves ih =>
    obtain ⟨steps, reached⟩ := ih
    obtain ⟨still, same⟩ := iterate_keeps runs moves
    obtain ⟨further, attended, -⟩ := iterate_attend still
    refine ⟨further + steps, ?_⟩
    rw [same] at attended
    rw [Function.iterate_add_apply, reached, attended, Function.iterate_succ_apply']

theorem exists_moves (runs : host.Runs) (steps : Nat) : ∃ moves further, steps ≤ further ∧
      ((Oracle.next host.session.firmware)^[further]) host.foreseen =
        (attend^[moves] host).foreseen := by
  induction steps with
  | zero => exact ⟨0, 0, Nat.le_refl 0, rfl⟩
  | succ steps ih =>
    obtain ⟨moves, further, bound, reached⟩ := ih
    obtain ⟨still, same⟩ := iterate_keeps runs moves
    obtain ⟨more, ahead, positive, attended⟩ := progress still
    refine ⟨more + moves, ahead + further, by omega, ?_⟩
    rw [same] at attended
    rw [Function.iterate_add_apply, reached, attended, Function.iterate_add_apply]

theorem foreseen_of_isOver (ended : host.isOver = true) :
    host.foreseen = ⟨host.session.log.withoutRequests, host.answers, host.ran,
      host.session.status.stage⟩ := by
  unfold foreseen
  cases status : host.session.status with
  | waiting pending ctx =>
    rw [isOver, status] at ended
    rw [isEmpty_iff.mp ended]
    rfl
  | _ => rfl

end Attended

theorem Oracle.iterate_of_isOver
    (bound : fewer ≤ more) (ended : ((next fw)^[fewer] oracle).isOver = true) :
    (next fw)^[more] oracle = (next fw)^[fewer] oracle := by
  obtain ⟨further, rfl⟩ := Nat.exists_eq_add_of_le' bound
  rw [Function.iterate_add_apply]
  exact Function.iterate_fixed (next_of_isOver ended) further

namespace Session

/-- A host that starts a run, lets it run and answers its requests from a list sees what the
oracle with that list does. Each comes as far as the other; either both are over at some time or
neither is; and then the commands other than requests, the state with its context, and the frames
that were acted on are the same. -/
theorem suspension_transparent (firmware : Firmware) (nextRequest : Nat)
    (answers : List Primitive) :
    let host (moves : Nat) :=
      Attended.attend^[moves] { session := { firmware, nextRequest }, answers }
    let oracle (steps : Nat) := (Oracle.next firmware)^[steps] { answers }
    (∀ moves, ∃ steps, oracle steps = (host moves).foreseen) ∧
    (∀ steps, ∃ moves further, steps ≤ further ∧ oracle further = (host moves).foreseen) ∧
    ((∃ moves, (host moves).isOver = true) ↔ ∃ steps, (oracle steps).isOver = true) ∧
    ∀ moves steps, (host moves).isOver = true → (oracle steps).isOver = true →
      (host moves).session.log.withoutRequests = (oracle steps).log ∧
      (host moves).session.status.stage = (oracle steps).stage ∧
      (host moves).answers = (oracle steps).answers ∧
      (host moves).ran = (oracle steps).ran := by
  intro host oracle
  have runs : Attended.Runs { session := { firmware, nextRequest }, answers } := trivial
  have reached (moves : Nat) : ∃ steps, oracle steps = (host moves).foreseen :=
    Attended.exists_steps runs moves
  have passed (steps : Nat) : ∃ moves further, steps ≤ further ∧
      oracle further = (host moves).foreseen := Attended.exists_moves runs steps
  refine ⟨reached, passed, ⟨?_, ?_⟩, ?_⟩
  · rintro ⟨moves, ended⟩
    obtain ⟨steps, same⟩ := reached moves
    refine ⟨steps, ?_⟩
    rw [same, Attended.foreseen_isOver, ended]
  · rintro ⟨steps, ended⟩
    obtain ⟨moves, further, bound, same⟩ := passed steps
    have final : oracle further = oracle steps := Oracle.iterate_of_isOver bound ended
    refine ⟨moves, ?_⟩
    rw [← Attended.foreseen_isOver, ← same, final, ended]
  · intro moves steps hostOver oracleOver
    obtain ⟨others, same⟩ := reached moves
    have otherOver : (oracle others).isOver = true := by
      rw [same, Attended.foreseen_isOver, hostOver]
    have final : oracle steps = (host moves).foreseen := by
      rw [← same]
      rcases Nat.le_total steps others with bound | bound
      · exact (Oracle.iterate_of_isOver bound oracleOver).symm
      · exact Oracle.iterate_of_isOver bound otherOver
    rw [final, Attended.foreseen_of_isOver hostOver]
    exact ⟨rfl, rfl, rfl, rfl⟩

end Session

end Breadboard
