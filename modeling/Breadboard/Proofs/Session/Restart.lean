import Breadboard.Proofs.Session.Control

/-!
A run after a stop. A session that was stopped behaves as one that was just built: it only still
shows the log of the abandoned run, until the next run begins, and it goes on counting requests
where the abandoned run left off. Numbers of requests are therefore compared after a shift of the
count, and the two sessions are kept equal control by control.
-/

open List

namespace Breadboard

open Status

/-- The number that a request has where `used` numbers are taken, if its own session has come to
`start`. Numbers from before `start` become numbers that are taken. -/
def reissued (start used id : Nat) : Nat := id + (used + 1) - start

theorem reissued_succ {start id : Nat} (used : Nat) (since : start ≤ id) :
    reissued start used (id + 1) = reissued start used id + 1 := by
  unfold reissued
  omega

theorem reissued_start (start used : Nat) : reissued start used start = used + 1 := by
  unfold reissued
  omega

theorem reissued_eq_iff (used id : Nat) (since : start ≤ pending) :
    reissued start used pending = reissued start used id ↔ pending = id := by
  unfold reissued
  omega

/-- The command with another number for the request that it makes, if any. -/
def Command.mapId (number : Nat → Nat) (cmd : Command) : Command :=
  match cmd.requestId? with
  | some id => cmd.withId (number id)
  | none => cmd

theorem Command.mapId_of_isReport {cmd : Command} (number : Nat → Nat)
    (reports : cmd.isReport = true) : cmd.mapId number = cmd := by
  cases cmd <;> first | rfl | cases reports

theorem Request.mapId_command (number : Nat → Nat) (request : Request) (id : Nat) :
    (request.command id).mapId number = request.command (number id) := by
  cases request <;> rfl

namespace Log

variable (log : Log)

def mapIds (number : Nat → Nat) (log : Log) : Log :=
  { log with
    entries := log.entries.map fun entry => { entry with command := entry.command.mapId number } }

variable (number : Nat → Nat)

theorem mapIds_emit (cmd : Command) :
    (log.emit cmd).mapIds number = (log.mapIds number).emit (cmd.mapId number) := by
  unfold emit entry? mapIds
  cases closed : log.isSealed <;> simp [closed]

theorem mapIds_emitAll (cmds : List Command) : (log.emitAll cmds).mapIds number =
      (log.mapIds number).emitAll (cmds.map (Command.mapId number)) := by
  unfold emitAll
  induction cmds generalizing log with
  | nil => rfl
  | cons cmd cmds ih =>
    rw [foldl_cons, ih, mapIds_emit, map_cons, foldl_cons]

theorem mapIds_close : log.close.mapIds number = (log.mapIds number).close := rfl

end Log

def Status.mapId (number : Nat → Nat) : Status → Status
  | .waiting pending ctx => .waiting { pending with id := number pending.id } ctx
  | status => status

/-- The control with another number for the request that it answers. -/
def Control.mapId (number : Nat → Nat) : Control → Control
  | .answer id value => .answer (number id) value
  | control => control

/-- The controls that begin a run where there is none. -/
def Control.begins : Control → Bool
  | .start | .step => true
  | _ => false

namespace Session

variable {controls : List Control}

def mapIds (number : Nat → Nat) (s : Session) : Session :=
  { s with
    status := s.status.mapId number
    log := s.log.mapIds number
    nextRequest := number s.nextRequest }

theorem mapIds_openingLog (number : Nat → Nat) : openingLog.mapIds number = openingLog := by
  rw [openingLog, Log.mapIds_emit]
  simp [Log.mapIds, Command.mapId, Command.requestId?]

def replies : Session → List Control → List (Option Bool)
  | _, [] => []
  | s, control :: controls =>
    s.returns control :: (s.control control).replies controls

variable {s : Session} {start : Nat}

/-- The requests that the session waits for and will make have numbers since `start`. -/
structure Since (start : Nat) (s : Session) : Prop where
  next : start ≤ s.nextRequest
  pending : ∀ {pending ctx}, s.status = .waiting pending ctx → start ≤ pending.id

theorem Since.settle (since : s.Since start) (mode : Mode) (started : Bool)
    (ctx : Context) : (s.settle mode started ctx).Since start where
  next := by
    rw [settle_nextRequest]
    exact Nat.le_trans since.next (Nat.le_add_right _ _)
  pending := by
    intro pending suspended waiting
    rw [settle_status] at waiting
    cases ending : (s.firmware.runUnit started ctx).ending with rw [ending] at waiting
    | suspended request =>
      cases waiting
      exact since.next
    | _ => cases waiting

theorem Since.control (since : s.Since start) (control : Control) :
    (s.control control).Since start := by
  have moves := s.control_moves control
  generalize s.control control = next, s.accepted? control = accepted at moves ⊢
  cases moves with
  | ignored => exact since
  | begun | stopped | switched => exact ⟨since.next, nofun⟩
  | begunStep =>
    have begun : (s.begun .paused).Since start := ⟨since.next, nofun⟩
    exact begun.settle _ _ _
  | ran | answered => exact since.settle _ _ _
  | retargeted mode status =>
    have issued := since.pending status
    refine ⟨since.next, ?_⟩
    intro pending ctx waiting
    cases waiting
    exact issued

section

variable (used : Nat)

variable (since : s.Since start)
include since

theorem settle_mapIds (mode : Mode) (started : Bool) (ctx : Context) :
    (s.mapIds (reissued start used)).settle mode started ctx =
      (s.settle mode started ctx).mapIds (reissued start used) := by
  have unchanged : (s.firmware.runUnit started ctx).commands.map
      (Command.mapId (reissued start used)) = (s.firmware.runUnit started ctx).commands := by
    rw [map_congr_left, map_id']
    intro cmd told
    exact Command.mapId_of_isReport _ (Firmware.isReport_of_mem_runUnit cmd told)
  have told := s.log.mapIds_emitAll (reissued start used)
    (s.firmware.runUnit started ctx).commands
  rw [unchanged] at told
  unfold settle
  dsimp only [mapIds]
  cases (s.firmware.runUnit started ctx).ending with
  | boundary | exhausted => simp only [told, mapId]
  | suspended request =>
    simp only [told, mapId, Log.mapIds_emit, Request.mapId_command, reissued_succ used since.next]
  | finished | loopLimit | failed =>
    simp only [finish, told, mapId, Log.mapIds_emit, Log.mapIds_close]
    rfl

theorem control_mapIds (control : Control) :
    (s.mapIds (reissued start used)).control (control.mapId (reissued start used)) =
      (s.control control).mapIds (reissued start used) := by
  obtain ⟨fw, status, log, nextRequest⟩ := s
  cases status with
  | idle =>
    cases control with
    | start => simp [Control.mapId, Session.control, Session.start, mapIds, mapId,
        mapIds_openingLog]
    | step =>
      have opened : Since start { firmware := fw, log := openingLog, nextRequest } :=
        ⟨since.next, by rintro _ _ ⟨⟩⟩
      have began := settle_mapIds used opened .paused false (.initial defaultSeed)
      simp only [mapIds, mapIds_openingLog] at began
      exact began
    | _ => rfl
  | active mode ctx =>
    cases mode with
    | running =>
      cases control with
      | tick => exact settle_mapIds used since .running false ctx
      | _ => rfl
    | paused =>
      cases control with
      | step => exact settle_mapIds used since .paused false ctx
      | _ => rfl
  | waiting pending ctx =>
    cases control with
    | answer id value =>
      have same := reissued_eq_iff used id (since.pending rfl)
      simp only [Control.mapId, Session.control, answer, mapIds, mapId, same]
      split
      · exact settle_mapIds used since pending.mode true _
      · rfl
    | _ => rfl
  | complete | failed => cases control <;> rfl

theorem returns_mapIds (control : Control) :
    (s.mapIds (reissued start used)).returns (control.mapId (reissued start used)) =
      s.returns control := by
  obtain ⟨fw, status, log, nextRequest⟩ := s
  cases status with
  | waiting pending ctx =>
    cases control with
    | answer id value =>
      have same := reissued_eq_iff used id (since.pending rfl)
      simp only [Control.mapId, returns, answer, mapIds, mapId, same]
      split <;> rfl
    | _ => rfl
  | active mode ctx => cases mode <;> cases control <;> rfl
  | idle | complete | failed => cases control <;> rfl

theorem perform_mapIds (controls : List Control) : (s.mapIds (reissued start used)).perform
        (controls.map (Control.mapId (reissued start used))) =
      (s.perform controls).mapIds (reissued start used) := by
  unfold perform
  induction controls generalizing s with
  | nil => rfl
  | cons control controls ih =>
    rw [map_cons, foldl_cons, control_mapIds used since control,
      ih (since.control control), foldl_cons]

theorem replies_mapIds (controls : List Control) : (s.mapIds (reissued start used)).replies
        (controls.map (Control.mapId (reissued start used))) = s.replies controls := by
  induction controls generalizing s with
  | nil => rfl
  | cons control controls ih =>
    rw [map_cons, replies, control_mapIds used since control,
      returns_mapIds used since control, ih (since.control control), replies]

end

def cleared (s : Session) : Session := { s with log := {} }

theorem returns_cleared (s : Session) (control : Control) :
    s.cleared.returns control = s.returns control := by
  obtain ⟨fw, status, log, nextRequest⟩ := s
  cases status with
  | waiting pending ctx =>
    cases control with
    | answer id value =>
      simp only [returns, answer, cleared]
      split <;> rfl
    | _ => rfl
  | active mode ctx => cases mode <;> cases control <;> rfl
  | idle | complete | failed => cases control <;> rfl

section

variable {control : Control} (idle : s.status = .idle)
include idle

/-- A run that begins does not depend on the log that was there before. -/
theorem control_cleared (begins : control.begins = true) :
    s.cleared.control control = s.control control := by
  cases control with
  | start | step => simp [Session.control, Session.start, Session.step, cleared, idle]
  | _ => cases begins

/-- Without a run, nothing but its begin changes the session. -/
theorem control_of_idle (begins : control.begins = false) : s.control control = s := by
  cases control with
  | start | step => cases begins
  | _ => simp [Session.control, tick, pause, resume, stop, answer, idle]

theorem perform_of_idle (begins : controls.any Control.begins = false) :
    s.perform controls = s := by
  unfold perform
  induction controls with
  | nil => rfl
  | cons control controls ih =>
    rw [any_cons, Bool.or_eq_false_iff] at begins
    rw [foldl_cons, control_of_idle idle begins.1, ih begins.2]

theorem perform_cleared (begins : controls.any Control.begins = true) :
    s.cleared.perform controls = s.perform controls := by
  unfold perform
  induction controls with
  | nil => cases begins
  | cons control controls ih =>
    rw [foldl_cons, foldl_cons]
    cases first : control.begins with
    | true => rw [control_cleared idle first]
    | false =>
      have ignored : s.cleared.control control = s.cleared := control_of_idle idle first
      rw [any_cons, first, Bool.false_or] at begins
      rw [control_of_idle idle first, ignored, ih begins]

theorem Since.cleared : s.cleared.Since s.nextRequest where
  next := Nat.le_refl _
  pending waiting := by
    rw [Session.cleared, idle] at waiting
    cases waiting

end

theorem replies_cleared (controls : List Control) (idle : s.status = .idle) :
    s.cleared.replies controls = s.replies controls := by
  induction controls with
  | nil => rfl
  | cons control controls ih =>
    rw [replies, replies, returns_cleared]
    cases begins : control.begins with
    | true => rw [control_cleared idle begins]
    | false =>
      have ignored : s.cleared.control control = s.cleared :=
        control_of_idle idle begins
      rw [control_of_idle idle begins, ignored, ih]

theorem mapIds_cleared (used : Nat) (idle : s.status = .idle) :
    s.cleared.mapIds (reissued s.nextRequest used) =
      { firmware := s.firmware, nextRequest := used + 1 } := by
  simp [cleared, mapIds, idle, mapId, Log.mapIds, reissued_start]

theorem control_stop (goesOn : s.status.isTerminal = false) :
    (s.control .stop).status = .idle ∧
      (s.control .stop).log.commands = s.log.commands := by
  obtain ⟨fw, status, log, nextRequest⟩ := s
  cases status with
  | idle | active | waiting => exact ⟨rfl, rfl⟩
  | complete | failed => cases goesOn

end Session

/-- After a stop, a session does for every host what a session does that was just built, where
`used` numbers are taken: it tells the same, comes to the same states with the same contexts and
requests, and keeps the same log, but for the numbers of requests, which go on from where the
stop left them. Only as long as no run begins does the log still show the run that was stopped. -/
theorem stopped_session_is_fresh (firmware : Firmware) (nextRequest used : Nat)
    (controls further : List Control)
    (goesOn : (({ firmware, nextRequest } : Session).perform controls).status.isTerminal = false) :
    let abandoned := ({ firmware, nextRequest } : Session).perform controls
    let stopped := abandoned.control .stop
    let fresh : Session := { firmware, nextRequest := used + 1 }
    let number := reissued stopped.nextRequest used
    let renewed := stopped.perform further
    let twin := fresh.perform (further.map (Control.mapId number))
    fresh.replies (further.map (Control.mapId number)) = stopped.replies further ∧
      twin.status = renewed.status.mapId number ∧
      if further.any Control.begins then twin.log = renewed.log.mapIds number
      else renewed.log.commands = abandoned.log.commands ∧ twin.log.commands = [] := by
  intro abandoned stopped fresh number renewed twin
  have unchanged : stopped.firmware = firmware :=
    (abandoned.control_moves .stop).firmware.trans (Session.perform_firmware _ controls)
  obtain ⟨idle, shown⟩ : stopped.status = .idle ∧ stopped.log.commands = abandoned.log.commands :=
    Session.control_stop goesOn
  have built : stopped.cleared.mapIds number = fresh := by
    rw [Session.mapIds_cleared used idle, unchanged]
  have since := Session.Since.cleared idle
  have twinned : twin = (stopped.cleared.perform further).mapIds number := by
    rw [← Session.perform_mapIds used since, built]
  refine ⟨?_, ?_⟩
  · rw [← built, Session.replies_mapIds used since, Session.replies_cleared further idle]
  · cases begins : further.any Control.begins with
    | true =>
        rw [twinned, Session.perform_cleared idle begins]
        exact ⟨rfl, rfl⟩
    | false =>
        have untouched : renewed = stopped := Session.perform_of_idle idle begins
        have still : stopped.cleared.perform further = stopped.cleared :=
          Session.perform_of_idle idle begins
        rw [twinned, still, built, untouched, idle]
        exact ⟨rfl, shown, rfl⟩

/-- A host that answers too late, after it has stopped the run that asked. -/
def lateAnswer : List Control :=
  [.answer 40 (.int 1), .start, .tick, .answer 41 (.int 742), .tick]

theorem probe_runs_afresh :
    let waiting := ({ firmware := Firmware.probe, nextRequest := 40 } : Session).perform [.step]
    let stopped := waiting.control .stop
    let fresh : Session := { firmware := Firmware.probe }
    let shifted := lateAnswer.map (Control.mapId (reissued 41 0))
    waiting.status.isTerminal = false ∧ stopped.nextRequest = 41 ∧
      fresh.replies shifted = stopped.replies lateAnswer ∧
      (fresh.perform shifted).log = (stopped.perform lateAnswer).log.mapIds (reissued 41 0) := by
  intro waiting stopped fresh shifted
  have goesOn : waiting.status.isTerminal = false := by decide +kernel
  have counted : stopped.nextRequest = 41 := by decide +kernel
  have afresh := stopped_session_is_fresh Firmware.probe 40 0 [.step] lateAnswer goesOn
  dsimp only at afresh
  rw [show ((Session.perform _ [.step]).control .stop).nextRequest = 41 from counted] at afresh
  exact ⟨goesOn, counted, afresh.1, afresh.2.2⟩

end Breadboard
