import Breadboard.Proofs.Session.Reach
import Mathlib.Logic.Function.Iterate

/-!
The course of a run without its control. A course forgets modes and the numbers of
requests, and goes on by one step at a time; requests are numbered in the order in which
they are made, and their answers come from a sequence. It is a function of where it is, so
two runs on the same answers can differ only in how far they have come.
-/

open List

namespace Breadboard

def Command.isRequest (cmd : Command) : Bool := cmd.requestId?.isSome

/-- The command under another number, if it asks for data. -/
def Command.withId (cmd : Command) (id : Nat) : Command :=
  match cmd with
  | .analogReadRequest _ pin => .analogReadRequest id pin
  | .digitalReadRequest _ pin => .digitalReadRequest id pin
  | .millisRequest _ => .millisRequest id
  | .microsRequest _ => .microsRequest id
  | .methodRequest _ className object method args => .methodRequest id className object method args
  | other => other

@[simp] theorem Command.isRequest_withId (cmd : Command) (id : Nat) :
    (cmd.withId id).isRequest = cmd.isRequest := by
  cases cmd <;> rfl

@[simp] theorem Request.withId_command (request : Request) (id new : Nat) :
    (request.command id).withId new = request.command new := by
  cases request <;> rfl

/-- Entries with the requests numbered from `next` on, in order. -/
def renumber : Nat → List Emitted → List Emitted
  | _, [] => []
  | next, entry :: rest =>
    { entry with command := entry.command.withId next } ::
      renumber (next + entry.command.isRequest.toNat) rest

def requestCount (entries : List Emitted) : Nat := entries.countP (·.command.isRequest)

@[simp] theorem length_renumber (next : Nat) (entries : List Emitted) :
    (renumber next entries).length = entries.length := by
  induction entries generalizing next with
  | nil => rfl
  | cons entry rest ih => simp [renumber, ih]

@[simp] theorem requestCount_renumber (next : Nat) (entries : List Emitted) :
    requestCount (renumber next entries) = requestCount entries := by
  unfold requestCount
  induction entries generalizing next with
  | nil => rfl
  | cons entry rest ih =>
    simp [renumber, countP_cons, ih]

theorem renumber_append (next : Nat) (before after : List Emitted) :
    renumber next (before ++ after) =
      renumber next before ++ renumber (next + requestCount before) after := by
  unfold requestCount
  induction before generalizing next with
  | nil => rfl
  | cons entry rest ih =>
    cases asks : entry.command.isRequest with
    | true => simp [renumber, ih, asks, Nat.add_assoc, Nat.add_comm]
    | false => simp [renumber, ih, asks]

namespace Log

variable (log : Log)

def renumbered (log : Log) : Log :=
  { log with entries := (renumber 0 log.entries.toList).toArray }

/-- Emits a command; a request gets the number of the requests before it. -/
def record (log : Log) (cmd : Command) : Log :=
  log.emit (cmd.withId (requestCount log.entries.toList))

theorem record_request (request : Request) (id new : Nat) :
    log.record (request.command id) = log.record (request.command new) := by
  simp [record]

theorem renumbered_emit (cmd : Command) :
    (log.emit cmd).renumbered = log.renumbered.record cmd := by
  unfold record emit entry?
  cases closed : log.isSealed with
  | true => simp [renumbered, closed]
  | false => simp [renumbered, closed, renumber_append, renumber]

theorem renumbered_emitAll (commands : List Command) :
    (log.emitAll commands).renumbered = commands.foldl record log.renumbered := by
  unfold emitAll
  induction commands generalizing log with
  | nil => rfl
  | cons cmd commands ih =>
    rw [foldl_cons, foldl_cons, ih, renumbered_emit]

theorem renumbered_close : log.close.renumbered = log.renumbered.close := rfl

theorem isPrefix_record (cmd : Command) :
    log.entries.toList <+: (log.record cmd).entries.toList := by
  unfold record emit entry?
  cases log.isSealed <;> simp

end Log

namespace Command

variable {cmd : Command}

@[simp] theorem withId_withId (cmd : Command) (first second : Nat) :
    (cmd.withId first).withId second = cmd.withId second := by
  cases cmd <;> rfl

theorem withId_of_plain (id : Nat) (plain : cmd.isRequest = false) : cmd.withId id = cmd := by
  cases cmd <;> first | rfl | cases plain

theorem eq_of_withId_eq {id : Nat} (same : cmd.withId id = other.withId id)
    (plain : other.isRequest = false) : cmd = other := by
  have alsoPlain : cmd.isRequest = false := by
    rw [← isRequest_withId cmd id, same, isRequest_withId, plain]
  rwa [withId_of_plain id alsoPlain, withId_of_plain id plain] at same

theorem eq_of_map_withId_eq {commands others : List Command} {id : Nat}
    (same : commands.map (withId · id) = others.map (withId · id))
    (plain : ∀ other ∈ others, other.isRequest = false) : commands = others := by
  induction others generalizing commands with
  | nil => exact map_eq_nil_iff.mp same
  | cons other others ih =>
    obtain ⟨cmd, commands, rfl, first, rest⟩ := map_eq_cons_iff.mp same
    rw [forall_mem_cons] at plain
    rw [eq_of_withId_eq first plain.1, ih rest plain.2]

end Command

namespace Log

theorem map_withId_renumbered (log : Log) (id : Nat) :
    log.renumbered.commands.map (Command.withId · id) = log.commands.map (Command.withId · id) := by
  have entries (next : Nat) (list : List Emitted) :
      (renumber next list).map (fun entry => entry.command.withId id) =
        list.map (fun entry => entry.command.withId id) := by
    induction list generalizing next with
    | nil => rfl
    | cons entry rest ih =>
      simp only [renumber, map_cons, Command.withId_withId, ih]
  simpa [commands, renumbered, Function.comp_def] using entries 0 log.entries.toList

end Log

/-- Where a run stands, whatever mode it is in. -/
inductive Stage where
  | idle
  | going (ctx : Context)
  | asking (request : Request) (ctx : Context)
  | complete (ctx : Context)
  | failed (ctx : Context)

def Stage.isTerminal : Stage → Bool
  | .complete _ | .failed _ => true
  | _ => false

structure Course where
  log : Log := {}
  /-- How many requests have been answered. -/
  answered : Nat := 0
  stage : Stage := .idle

namespace Course

variable {fewer more : Nat}

def finish (course : Course) (ctx : Context) : Course :=
  { course with log := (course.log.record .programEnd).close, stage := .complete ctx }

def fail (course : Course) (fault : Fault) (ctx : Context) : Course :=
  { course with
    log := (course.log.record (.error fault.kind fault.message fault.location)).close
    stage := .failed ctx }

def ask (course : Course) (request : Request) (ctx : Context) : Course :=
  { course with log := course.log.record (request.command 0), stage := .asking request ctx }

def proceed (course : Course) (effect : Effect) (ctx : Context) : Course :=
  match effect with
  | .quiet => { course with stage := .going ctx }
  | .emit cmd => { course with log := course.log.record cmd, stage := .going ctx }
  | .request request => course.ask request ctx
  | .loopLimit iters =>
    { course with log := course.log.record (.loopLimitReached iters) }.finish ctx

def next (fw : Firmware) (answers : Nat → Primitive) (course : Course) : Course :=
  match course.stage with
  | .idle =>
    { course with log := Session.openingLog, stage := .going (.initial Session.defaultSeed) }
  | .going ctx =>
    match ctx.frames with
    | [] => course.finish ctx
    | frame :: rest =>
      match fw.step ctx frame rest with
      | .ok effect ctx => course.proceed effect ctx
      | .error fault ctx => course.fail fault ctx
  | .asking request ctx =>
    { course with
      answered := course.answered + 1
      stage := .going { ctx with
        values := request.response (answers course.answered) :: ctx.values } }
  | .complete _ => course
  | .failed _ => course

variable {fw : Firmware} {answers : Nat → Primitive} {course : Course}

theorem next_of_isTerminal (ended : course.stage.isTerminal = true) :
    course.next fw answers = course := by
  unfold next
  cases stage : course.stage with
  | idle | going | asking =>
    rw [stage] at ended
    cases ended
  | complete | failed => rfl

/-- A step begins the run if there is none, takes back no answer, and adds to the history. -/
theorem next_onward (course : Course) : (course.next fw answers).stage ≠ .idle ∧
      course.answered ≤ (course.next fw answers).answered ∧
      (course.stage ≠ .idle →
        course.log.entries.toList <+: (course.next fw answers).log.entries.toList) := by
  have told (cmd : Command) := course.log.isPrefix_record cmd
  unfold next
  cases stage : course.stage with
  | idle => exact ⟨nofun, Nat.le_refl _, absurd rfl⟩
  | going ctx =>
    dsimp only
    split
    · exact ⟨nofun, Nat.le_refl _, fun _ => told _⟩
    · split
      · rename_i effect _ _
        cases effect with
        | quiet => exact ⟨nofun, Nat.le_refl _, fun _ => prefix_rfl⟩
        | emit | request => exact ⟨nofun, Nat.le_refl _, fun _ => told _⟩
        | loopLimit =>
          exact ⟨nofun, Nat.le_refl _, fun _ => (told _).trans (Log.isPrefix_record _ _)⟩
      · exact ⟨nofun, Nat.le_refl _, fun _ => told _⟩
  | asking => exact ⟨nofun, Nat.le_succ _, fun _ => prefix_rfl⟩
  | complete | failed => exact ⟨by simp [stage], Nat.le_refl _, fun _ => prefix_rfl⟩

/-- The history after some steps begins with the history after fewer. -/
theorem isPrefix_iterate (fewerSteps : fewer ≤ more) :
    (((next fw answers)^[fewer]) {}).log.entries.toList <+:
      (((next fw answers)^[more]) {}).log.entries.toList := by
  induction fewerSteps with
  | refl => exact prefix_rfl
  | @step more _ ih =>
    refine ih.trans ?_
    rw [Function.iterate_succ_apply']
    cases more with
    | zero => exact nil_prefix
    | succ more =>
      apply (next_onward _).2.2
      rw [Function.iterate_succ_apply']
      exact (next_onward _).1

theorem iterate_of_isTerminal (fewerSteps : fewer ≤ more)
    (ended : (((next fw answers)^[fewer]) course).stage.isTerminal = true) :
    ((next fw answers)^[more]) course = ((next fw answers)^[fewer]) course := by
  obtain ⟨further, rfl⟩ := Nat.exists_eq_add_of_le' fewerSteps
  rw [Function.iterate_add_apply]
  exact Function.iterate_fixed (next_of_isTerminal ended) further

theorem next_congr
    (agree : ∀ pos, pos < (course.next fw answers).answered → answers pos = other pos) :
    course.next fw other = course.next fw answers := by
  unfold next at agree ⊢
  cases stage : course.stage with
  | asking request ctx =>
    rw [stage] at agree
    dsimp only at agree ⊢
    rw [agree course.answered (Nat.lt_succ_self _)]
  | _ => rfl

theorem iterate_congr
    (agree : ∀ pos, pos < (((next fw answers)^[steps]) course).answered → answers pos = other pos) :
    ((next fw other)^[steps]) course = ((next fw answers)^[steps]) course := by
  induction steps with
  | zero => rw [Function.iterate_zero, Function.iterate_zero]
  | succ steps ih =>
    rw [Function.iterate_succ_apply'] at agree
    have before := ih fun pos taken =>
      agree pos (Nat.lt_of_lt_of_le taken (next_onward _).2.1)
    rw [Function.iterate_succ_apply', Function.iterate_succ_apply', before]
    exact next_congr agree

def settled (course : Course) (res : UnitResult) : Course :=
  let course := { course with log := res.commands.foldl Log.record course.log }
  match res.ending with
  | .boundary | .exhausted => { course with stage := .going res.context }
  | .suspended request => course.ask request res.context
  | .finished => course.finish res.context
  | .loopLimit iters =>
    { course with log := course.log.record (.loopLimitReached iters) }.finish res.context
  | .failed fault => course.fail fault res.context

theorem iterate_runFrames (course : Course) (fuel : Nat) (started : Bool) (emitted : List Command)
    (ctx : Context) :
    ∃ steps, ((next fw answers)^[steps]) { course with
        log := emitted.reverse.foldl Log.record course.log, stage := .going ctx } =
      course.settled (fw.runFrames fuel started emitted ctx) := by
  fun_induction fw.runFrames fuel started emitted ctx with
  | case1 | case3 => exact ⟨0, rfl⟩
  | case2 _ _ _ _ frames => exact ⟨1, by simp [next, frames, settled, finish]⟩
  | case4 _ _ _ _ _ _ frames _ _ _ _ out =>
    exact ⟨1, by simp [next, frames, out, settled, fail]⟩
  | case5 _ _ _ _ _ _ frames _ _ _ _ out ih
  | case6 _ _ _ _ _ _ frames _ _ _ _ _ out ih =>
    obtain ⟨steps, reached⟩ := ih
    exact ⟨steps + 1, by simpa [next, frames, out, proceed] using reached⟩
  | case7 _ _ _ _ _ _ frames _ _ _ _ out =>
    exact ⟨1, by simp [next, frames, out, settled, proceed, ask]⟩
  | case8 _ _ _ _ _ _ frames _ _ _ _ out =>
    exact ⟨1, by simp [next, frames, out, settled, proceed, finish]⟩

end Course

end Breadboard
