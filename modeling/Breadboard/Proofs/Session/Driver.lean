import Breadboard.Proofs.Session.Control
import Breadboard.Proofs.Session.Plan

/-!
Runs under the plan of their driver. What the driver does is read off the steps of a course, and
every course follows the plan: however far it has come, the driver has done a first part of the
plan, and all of it once the run is complete. Whatever a host does, its session shows the history
of such a course, so the history tells when the limit of the loop function was reached.
-/

open List

namespace Breadboard

open Command

@[simp] theorem Command.isLimit_withId (cmd : Command) (id : Nat) :
    (cmd.withId id).isLimit = cmd.isLimit := by
  cases cmd <;> rfl

namespace Log

variable {log : Log} {cmd : Command}

/-- The log takes commands, and none in it says that the limit of the loop function has been
reached. -/
structure Unlimited (log : Log) : Prop where
  unsealed : log.isSealed = false
  silent : ∀ cmd ∈ log.commands, cmd.isLimit = false

theorem commands_record (unsealed : log.isSealed = false) (cmd : Command) :
    (log.record cmd).commands = log.commands ++ [cmd.withId (requestCount log.entries.toList)] :=
  commands_emit _ unsealed

theorem Unlimited.record (unlimited : log.Unlimited) (plain : cmd.isLimit = false) :
    (log.record cmd).Unlimited where
  unsealed := by
    rw [Log.record, isSealed_emit, unlimited.unsealed]
  silent := by
    rw [commands_record unlimited.unsealed, forall_mem_append, forall_mem_singleton,
      isLimit_withId]
    exact ⟨unlimited.silent, plain⟩

theorem Unlimited.opening : Session.openingLog.Unlimited where
  unsealed := rfl
  silent := by
    rw [Session.openingLog, commands_emit _ rfl]
    simp [commands, isLimit]

end Log

def Stage.underway? : Stage → Option (Option Request × Context)
  | .going ctx => some (none, ctx)
  | .asking request ctx => some (some request, ctx)
  | _ => none

def Firmware.closing (fw : Firmware) : List Command :=
  match fw.program.function? "loop" with
  | some _ => [.loopLimitReached fw.config.maxLoopIterations, .programEnd]
  | none => [.programEnd]

namespace Course

variable {fw : Firmware} {course : Course} {events : List DriverEvent} {rest : List Frame}
  {ctx : Context} {ahead : List DriverEvent}

/-- What the driver does in the next step of a course. -/
def driverEvent? (fw : Firmware) (course : Course) : Option DriverEvent :=
  match course.stage with
  | .going ctx =>
    match ctx.frames with
    | [] => none
    | frame :: rest =>
      match fw.step ctx frame rest with
      | .ok _ next => frame.driverEvent? rest next.frames
      | .error _ _ => none
  | _ => none

/-- What the driver does in the first steps of a run. -/
def driverEvents (fw : Firmware) (answers : Nat → Primitive) : Nat → List DriverEvent
  | 0 => []
  | steps + 1 => driverEvents fw answers steps ++
      ((((next fw answers)^[steps]) {}).driverEvent? fw).toList

/-- A course after the driver has done what the events say. -/
inductive Follows (fw : Firmware) (events : List DriverEvent) (course : Course) : Prop where
  | idle : course.stage = .idle → course.log.commands = [] → events = [] →
      Follows fw events course
  | underway {pending ctx ahead} :
      course.stage.underway? = some (pending, ctx) → fw.Reaches pending ctx →
      fw.Ahead ctx.frames ahead → events ++ ahead = fw.plan →
      course.log.Unlimited → Follows fw events course
  | complete {ctx front} : course.stage = .complete ctx →
      events = fw.plan → course.log.commands = front ++ fw.closing →
      (∀ cmd ∈ front, cmd.isLimit = false) → Follows fw events course
  | failed {ctx : Context} : course.stage = .failed ctx → events <+: fw.plan →
      (∀ cmd ∈ course.log.commands, cmd.isLimit = false) → Follows fw events course

theorem finish_commands (unsealed : course.log.isSealed = false) (ctx : Context) :
    (course.finish ctx).log.commands = course.log.commands ++ [.programEnd] :=
  Log.commands_record unsealed .programEnd

theorem Follows.proceed {next : Context} (reached : fw.Reaches none ctx)
    (top : ctx.frames = frame :: rest) (out : fw.step ctx frame rest = .ok effect next)
    (plan : fw.Ahead ctx.frames ahead) (split : events ++ ahead = fw.plan)
    (unlimited : course.log.Unlimited) : (course.proceed effect next).Follows fw
      (events ++ (frame.driverEvent? rest next.frames).toList) := by
  have later : fw.Reaches effect.request? next := .step reached top out
  have reports := Firmware.step_reports out
  cases plan.step reached top out with
  | goesOn onward unlimitedEffect planned advanced =>
    have planSplit : events ++ (frame.driverEvent? rest next.frames).toList ++ onward =
        fw.plan := by
      rw [append_assoc, ← advanced, split]
    cases effect with
    | quiet => exact .underway rfl later planned planSplit unlimited
    | emit cmd =>
      exact .underway rfl later planned planSplit (unlimited.record
        (isLimit_of_isInner (isInner_of_isReport reports)))
    | request request =>
      exact .underway rfl later planned planSplit (unlimited.record
        (isLimit_of_isInner (isInner_request request 0)))
    | loopLimit iterations => exact absurd rfl (unlimitedEffect iterations)
  | limit function found isLimit nothing noEvent =>
    subst isLimit
    rw [nothing, append_nil] at split
    rw [noEvent, Option.toList_none, append_nil]
    refine .complete rfl split ?_ unlimited.silent
    have unsealed : (course.log.record
        (.loopLimitReached fw.config.maxLoopIterations)).isSealed = false := by
      rw [Log.record, Log.isSealed_emit, unlimited.unsealed]
    rw [Course.proceed, finish_commands unsealed, Log.commands_record unlimited.unsealed,
      Firmware.closing, found, append_assoc]
    rfl

theorem Follows.finish (top : ctx.frames = []) (plan : fw.Ahead ctx.frames ahead)
    (split : events ++ ahead = fw.plan) (unlimited : course.log.Unlimited) :
    (course.finish ctx).Follows fw events := by
  obtain ⟨rfl, missing⟩ := plan.of_nil top
  rw [append_nil] at split
  refine .complete rfl split ?_ unlimited.silent
  rw [finish_commands unlimited.unsealed, Firmware.closing, missing]

theorem Follows.fail (split : events ++ ahead = fw.plan) (unlimited : course.log.Unlimited)
    (fault : Fault) (ctx : Context) : (course.fail fault ctx).Follows fw events := by
  have plain : (error fault.kind fault.message fault.location).isLimit = false := rfl
  exact .failed rfl ⟨ahead, split⟩ (unlimited.record plain).silent

theorem Follows.next (follows : course.Follows fw events) (answers : Nat → Primitive) :
    (course.next fw answers).Follows fw (events ++ (course.driverEvent? fw).toList) := by
  unfold Course.next driverEvent?
  cases follows with
  | idle stage commands nothing =>
    rw [stage, nothing]
    exact .underway rfl .start (.driver trivial) rfl .opening
  | @underway pending ctx ahead underway reached plan split unlimited =>
    cases stage : course.stage with rw [stage] at underway
    | idle | complete | failed => cases underway
    | going here =>
      cases underway
      dsimp only
      cases top : ctx.frames with
      | nil =>
        simp only [Option.toList_none, append_nil]
        exact .finish top plan split unlimited
      | cons frame rest =>
        dsimp only
        cases out : fw.step ctx frame rest with
        | ok effect next => exact .proceed reached top out plan split unlimited
        | error fault final =>
          simp only [Option.toList_none, append_nil]
          exact .fail split unlimited fault final
    | asking request here =>
      cases underway
      simp only [Option.toList_none, append_nil]
      exact .underway rfl (reached.answer _) plan split unlimited
  | complete stage done commands silent =>
    rw [stage]
    simp only [Option.toList_none, append_nil]
    exact .complete stage done commands silent
  | failed stage planned silent =>
    rw [stage]
    simp only [Option.toList_none, append_nil]
    exact .failed stage planned silent

theorem follows_iterate (fw : Firmware) (answers : Nat → Primitive) (steps : Nat) :
    (((next fw answers)^[steps]) {}).Follows fw (driverEvents fw answers steps) := by
  induction steps with
  | zero => exact .idle rfl rfl rfl
  | succ steps ih =>
    rw [Function.iterate_succ_apply', driverEvents]
    exact ih.next answers

variable (follows : course.Follows fw events)
include follows

theorem Follows.isPrefix : events <+: fw.plan := by
  cases follows with
  | idle _ _ nothing =>
    rw [nothing]
    exact nil_prefix
  | underway _ _ _ split => exact ⟨_, split⟩
  | complete _ done => exact done ▸ prefix_rfl
  | failed _ planned => exact planned

theorem Follows.of_complete (complete : course.stage = .complete ctx) :
    events = fw.plan ∧ ∃ front, course.log.commands = front ++ fw.closing := by
  cases follows with
  | complete _ done commands => exact ⟨done, _, commands⟩
  | idle stage | failed stage =>
    rw [stage] at complete
    cases complete
  | underway stage =>
    rw [complete] at stage
    cases stage

theorem Follows.silent (missing : fw.program.function? "loop" = none) :
    ∀ cmd ∈ course.log.commands, cmd.isLimit = false := by
  cases follows with
  | idle _ commands =>
    rw [commands]
    nofun
  | underway _ _ _ _ unlimited => exact unlimited.silent
  | complete _ _ commands silent =>
    rw [commands, Firmware.closing, missing, forall_mem_append]
    exact ⟨silent, by simp [isLimit]⟩
  | failed _ _ silent => exact silent

theorem Follows.driver_alone (goes : course.stage = .going ctx)
    (top : ctx.frames = .program phase :: rest) : rest = [] := by
  cases follows with
  | idle stage | complete stage | failed stage =>
    rw [stage] at goes
    cases goes
  | underway stage reached =>
    rw [goes] at stage
    cases stage
    have layered := reached.balanced.layered
    rw [top] at layered
    cases rest with
    | nil => rfl
    | cons => cases layered.1

end Course

namespace Session

variable {s next : Session} {fw : Firmware} {accepted : Option Primitive}

def Shows (s : Session) : Prop :=
  ∃ answers steps,
    let run := ((Course.next s.firmware answers)^[steps]) {}
    s.log.renumbered.commands = run.log.commands ∧
      (s.status = .idle ∨ s.course run.answered = run)

theorem Shows.of_course (same : s.firmware = fw)
    (reached : ((Course.next fw answers)^[steps]) {} = s.course answered) : s.Shows := by
  subst same
  refine ⟨answers, steps, ?_⟩
  rw [reached]
  exact ⟨rfl, .inr rfl⟩

theorem next_course_of_begun (s : Session) (mode : Mode) (answers : Nat → Primitive) :
    Course.next s.firmware answers {} = (s.begun mode).course 0 :=
  next_course_of_idle 0 (rfl : ({ firmware := s.firmware } : Session).status = .idle) mode

theorem Shows.stop (shown : s.Shows) : (s.control .stop).Shows := by
  obtain ⟨answers, steps, log, state⟩ := shown
  simp only [Session.control, Session.stop]
  split
  · exact ⟨answers, steps, log, .inl rfl⟩
  · exact ⟨answers, steps, log, .inl rfl⟩
  · exact ⟨answers, steps, log, state⟩

theorem Shows.of_idle {control : Control} (shown : s.Shows) (moves : Moves s control accepted next)
    (goesOn : control ≠ .stop) (idle : s.status = .idle) : next.Shows := by
  let answers : Nat → Primitive := fun _ => .int 0
  cases moves with
  | ignored => exact shown
  | begun =>
    apply Shows.of_course rfl
    rw [Function.iterate_one]
    exact next_course_of_begun s .running answers
  | begunStep =>
    obtain ⟨steps, reached⟩ := (s.begun .paused).iterate_settle answers .paused false
      (.initial defaultSeed) 0
    apply Shows.of_course (settle_firmware _ _ _ _)
    rw [Function.iterate_succ_apply, next_course_of_begun]
    exact reached
  | ran status | switched status | retargeted _ status | answered _ status =>
    rw [idle] at status
    cases status
  | stopped => exact absurd rfl goesOn

theorem Shows.of_course_moves {control : Control} (moves : Moves s control accepted next)
    (goesOn : control ≠ .stop) (here : ((Course.next s.firmware answers)^[steps]) {} = run)
    (onCourse : s.course run.answered = run) : next.Shows := by
  let further (pos : Nat) : Primitive :=
    if pos = run.answered then accepted.getD (answers pos) else answers pos
  have again : ((Course.next s.firmware further)^[steps]) {} = run := by
    rw [← here]
    apply Course.iterate_congr
    intro pos taken
    rw [here] at taken
    exact (if_neg (Nat.ne_of_lt taken)).symm
  have agrees (value : Primitive) (taken : accepted = some value) :
      further run.answered = value := by
    simp [further, taken]
  obtain ⟨more, reached⟩ := moves.course goesOn agrees
  apply Shows.of_course moves.firmware
  rw [Function.iterate_add_apply, again, ← onCourse]
  exact reached

theorem Shows.control (shown : s.Shows) (control : Control) : (s.control control).Shows := by
  have moves := s.control_moves control
  cases control with
  | stop => exact shown.stop
  | _ =>
    obtain ⟨answers, steps, log, idle | onCourse⟩ := shown
    · exact .of_idle ⟨answers, steps, log, .inl idle⟩ moves nofun idle
    · exact .of_course_moves moves nofun rfl onCourse

theorem Shows.perform (shown : s.Shows) (controls : List Control) : (s.perform controls).Shows := by
  unfold Session.perform
  induction controls generalizing s with
  | nil => exact shown
  | cons control controls ih => exact ih (shown.control control)

theorem Shows.new (fw : Firmware) (nextRequest : Nat) : Shows { firmware := fw, nextRequest } :=
  ⟨fun _ => .int 0, 0, rfl, .inl rfl⟩

end Session

namespace Log

variable {log : Log}

theorem exists_front (same : log.renumbered.commands = front ++ closing)
    (plain : ∀ cmd ∈ closing, cmd.isRequest = false) :
    ∃ earlier, log.commands = earlier ++ closing := by
  have mapped := log.map_withId_renumbered 0
  rw [same, map_append] at mapped
  obtain ⟨earlier, last, commands, -, closes⟩ := map_eq_append_iff.mp mapped.symm
  rw [eq_of_map_withId_eq closes plain] at commands
  exact ⟨earlier, commands⟩

theorem isLimit_of_renumbered (silent : ∀ cmd ∈ log.renumbered.commands, cmd.isLimit = false) :
    ∀ cmd ∈ log.commands, cmd.isLimit = false := by
  intro cmd inside
  have mapped := mem_map_of_mem (f := (withId · 0)) inside
  rw [← map_withId_renumbered] at mapped
  obtain ⟨other, found, same⟩ := mem_map.mp mapped
  rw [← isLimit_withId cmd 0, ← same, isLimit_withId]
  exact silent other found

end Log

namespace Firmware

variable {fw : Firmware}

theorem closing_of_found (found : fw.program.function? "loop" = some function) :
    fw.closing = [.loopLimitReached fw.config.maxLoopIterations, .programEnd] := by
  rw [closing, found]

theorem countP_entersLoop_le (done : events <+: fw.plan) :
    events.countP DriverEvent.entersLoop ≤ fw.config.maxLoopIterations := by
  calc
    events.countP DriverEvent.entersLoop
    _ ≤ fw.plan.countP DriverEvent.entersLoop := done.sublist.countP_le
    _ = fw.config.maxLoopIterations * (fw.program.function? "loop").isSome.toNat := fw.countP_plan
    _ ≤ fw.config.maxLoopIterations * 1 := Nat.mul_le_mul_left _ (Bool.toNat_le _)
    _ = fw.config.maxLoopIterations := Nat.mul_one _

theorem isRequest_of_mem_closing (fw : Firmware) : ∀ cmd ∈ fw.closing, cmd.isRequest = false := by
  unfold closing
  split <;> simp [isRequest, requestId?]

end Firmware

namespace Session

variable {s : Session}

theorem Shows.closes (shown : s.Shows) (complete : s.status = .complete ctx) :
    ∃ front, s.log.commands = front ++ s.firmware.closing := by
  obtain ⟨answers, steps, log, idle | onCourse⟩ := shown
  · rw [complete] at idle
    cases idle
  · have follows := Course.follows_iterate s.firmware answers steps
    rw [← onCourse] at follows
    have ended : s.status.stage = .complete ctx := congrArg Status.stage complete
    obtain ⟨-, front, commands⟩ := follows.of_complete ended
    exact Log.exists_front commands s.firmware.isRequest_of_mem_closing

theorem Shows.silent (shown : s.Shows) (missing : s.firmware.program.function? "loop" = none) :
    ∀ cmd ∈ s.log.commands, cmd.isLimit = false := by
  obtain ⟨answers, steps, log, -⟩ := shown
  have silent := (Course.follows_iterate s.firmware answers steps).silent missing
  rw [← log] at silent
  exact Log.isLimit_of_renumbered silent

end Session

namespace Firmware

/-- The driver keeps to its plan. In every run, whatever the answers, it has always done a first
part of the plan, and it acts only when nothing else is left to do; so it enters the loop function
at most as often as the limit says. A complete run has done the whole plan, and its history closes
with the limit if there is a loop function. Without one, no history shows a limit. Whatever a host
does, its session shows the history of such a run, which goes on unless the host has stopped it. -/
theorem driver_follows_plan (firmware : Firmware) :
    (∀ answers steps,
      let run := ((Course.next firmware answers)^[steps]) {}
      let events := Course.driverEvents firmware answers steps
      events <+: firmware.plan ∧
      events.countP DriverEvent.entersLoop ≤ firmware.config.maxLoopIterations ∧
      (∀ context phase rest, run.stage = .going context →
        context.frames = .program phase :: rest → rest = []) ∧
      (∀ context, run.stage = .complete context → events = firmware.plan) ∧
      (∀ context function, run.stage = .complete context →
        firmware.program.function? "loop" = some function →
        events.countP DriverEvent.entersLoop = firmware.config.maxLoopIterations ∧
        ∃ front, run.log.commands =
          front ++ [.loopLimitReached firmware.config.maxLoopIterations, .programEnd]) ∧
      (firmware.program.function? "loop" = none →
        ∀ iterations, .loopLimitReached iterations ∉ run.log.commands)) ∧
    ∀ nextRequest controls,
      let session := ({ firmware, nextRequest } : Session).perform controls
      (∃ answers steps,
        let run := ((Course.next firmware answers)^[steps]) {}
        session.log.renumbered.commands = run.log.commands ∧
          (session.status = .idle ∨ session.status.stage = run.stage)) ∧
      (∀ context function, session.status = .complete context →
        firmware.program.function? "loop" = some function →
        ∃ front, session.log.commands =
          front ++ [.loopLimitReached firmware.config.maxLoopIterations, .programEnd]) ∧
      (firmware.program.function? "loop" = none →
        ∀ iterations, .loopLimitReached iterations ∉ session.log.commands) := by
  refine ⟨?_, ?_⟩
  · intro answers steps run events
    have follows : run.Follows firmware events := Course.follows_iterate firmware answers steps
    refine ⟨follows.isPrefix, countP_entersLoop_le follows.isPrefix, ?_, ?_, ?_, ?_⟩
    · intro context phase rest goes top
      exact follows.driver_alone goes top
    · intro context complete
      exact (follows.of_complete complete).1
    · intro context function complete found
      obtain ⟨done, front, commands⟩ := follows.of_complete complete
      rw [closing_of_found found] at commands
      refine ⟨?_, front, commands⟩
      rw [done, countP_plan, found]
      exact Nat.mul_one _
    · intro missing iterations inside
      cases follows.silent missing _ inside
  · intro nextRequest controls session
    have same : session.firmware = firmware := Session.perform_firmware _ controls
    have shown : session.Shows := (Session.Shows.new firmware nextRequest).perform controls
    refine ⟨?_, ?_, ?_⟩
    · obtain ⟨answers, steps, log, state⟩ := shown
      rw [same] at log state
      exact ⟨answers, steps, log, state.imp_right (congrArg Course.stage)⟩
    · intro context function complete found
      obtain ⟨front, commands⟩ := shown.closes complete
      rw [same, closing_of_found found] at commands
      exact ⟨front, commands⟩
    · intro missing iterations inside
      rw [← same] at missing
      cases shown.silent missing _ inside

end Firmware

end Breadboard
