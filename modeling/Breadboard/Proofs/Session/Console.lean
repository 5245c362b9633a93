import Breadboard.Proofs.Session.Settle
import Breadboard.Session.Console

/-!
The console of a session. The fields that a host keeps are what its session shows: every control
does the same to both of them and tells the host the same.
-/

open List

namespace Breadboard

def Status.state : Status → HostState
  | .idle => .idle
  | .active .running _ => .running
  | .active .paused _ => .paused
  | .waiting _ _ => .waiting
  | .complete _ => .complete
  | .failed _ => .error

namespace Mode

def state : Mode → HostState
  | .running => .running
  | .paused => .paused

/-- The state while a unit runs. -/
def busy : Mode → HostState
  | .running => .running
  | .paused => .stepping

end Mode

variable {Listener : Type}

namespace Log

def channel (log : Log) (listeners : List Listener) : Channel Listener :=
  ⟨log, log.entries.size, listeners⟩

theorem channel_emit (log : Log) (listeners : List Listener) (cmd : Command) :
    (log.channel listeners).emit cmd = (log.emit cmd).channel listeners := by
  unfold Channel.emit Channel.entry? Log.emit entry?
  cases same : log.isSealed <;> simp [channel, same]

end Log

namespace Session

def console (s : Session) (listeners : List Listener) : Console Listener where
  firmware := s.firmware
  channel := s.log.channel listeners
  state := s.status.state
  context := s.status.context?
  pending := s.status.pending?.map fun pending => ⟨pending.id, pending.request, pending.mode.state⟩
  nextRequest := s.nextRequest

/-- What a control tells the host: whether it was taken. Stopping tells nothing. -/
def returns (s : Session) : Control → Option Bool
  | .start => some s.start.1
  | .step => some s.step.1
  | .tick => some s.tick.1
  | .pause => some s.pause.1
  | .resume => some s.resume.1
  | .stop => none
  | .answer id value => some (s.answer id value).1

end Session

namespace Console

/-- What a control tells the host, and the console after it. -/
def take (console : Console Listener) : Control → Option Bool × Console Listener
  | .start => console.start.map some id
  | .step => console.step.map some id
  | .tick => console.tick.map some id
  | .pause => console.pause.map some id
  | .resume => console.resume.map some id
  | .stop => (none, console.stop)
  | .answer number value => (console.answer number value).map some id

def control (console : Console Listener) (control : Control) : Console Listener :=
  (console.take control).2

def perform (console : Console Listener) (controls : List Control) : Console Listener :=
  controls.foldl control console

theorem foldl_emit {log : Log}
    (shows : console.channel = log.channel listeners) (commands : List Command) :
    commands.foldl emit console =
      { console with channel := (log.emitAll commands).channel listeners } := by
  unfold Log.emitAll
  induction commands generalizing console log with
  | nil => rw [foldl_nil, foldl_nil, ← shows]
  | cons cmd commands ih =>
    have shown : (console.emit cmd).channel = (log.emit cmd).channel listeners := by
      rw [emit, shows, Log.channel_emit]
    exact ih shown

variable (s : Session) (listeners : List Listener)

/-- A unit ends alike for a session and for its console. -/
theorem settle_console (mode : Mode) (started : Bool) (ctx : Context) :
    let console := settle { s.console listeners with
      state := mode.busy, context := some ctx, pending := none } started
    console.land = (s.settle mode started ctx).console listeners ∧
      (mode = .running → console.land = console) := by
  unfold settle Session.settle Session.console
  dsimp only
  rw [foldl_emit rfl]
  cases (s.firmware.runUnit started ctx).ending with
  | boundary | exhausted => cases mode <;> exact ⟨rfl, fun runs => by cases runs <;> rfl⟩
  | suspended request =>
    simp only [suspend, emit, Log.channel_emit]
    cases mode <;> exact ⟨rfl, fun _ => rfl⟩
  | finished | loopLimit | failed =>
    simp only [finish, reachLimit, fail, emit, Log.channel_emit]
    exact ⟨rfl, fun _ => rfl⟩

theorem take_console (control : Control) :
    (s.console listeners).take control =
      (s.returns control, (s.control control).console listeners) := by
  obtain ⟨fw, status, log, next⟩ := s
  cases control with
  | start | pause | resume | stop =>
    cases status with
    | active mode => cases mode <;> rfl
    | _ => rfl
  | step =>
    cases status with
    | idle =>
      have settles := settle_console ⟨fw, .idle, Session.openingLog, next⟩ listeners .paused false
        (.initial Session.defaultSeed)
      exact congrArg (some true, ·) settles.1
    | active mode ctx =>
      cases mode with
      | running => rfl
      | paused => exact congrArg (some true, ·) (settle_console _ listeners .paused false ctx).1
    | _ => rfl
  | tick =>
    cases status with
    | active mode ctx =>
      cases mode with
      | running =>
        obtain ⟨settles, stays⟩ := settle_console ⟨fw, .active .running ctx, log, next⟩ listeners
          .running false ctx
        exact congrArg (some true, ·) ((stays rfl).symm.trans settles)
      | paused => rfl
    | _ => rfl
  | answer id value =>
    cases status with
    | waiting pending ctx =>
      obtain ⟨asked, request, mode⟩ := pending
      by_cases same : asked = id
      · obtain ⟨settles, -⟩ := settle_console ⟨fw, .waiting ⟨asked, request, mode⟩ ctx, log, next⟩
          listeners mode true { ctx with values := request.response value :: ctx.values }
        subst same
        simp only [take, answer, Session.returns, Session.control, Session.answer, if_true]
        rw [if_pos (by simp [Session.console, Status.state, Status.pending?]), ← settles]
        cases mode <;> rfl
      · simp only [take, answer, Session.returns, Session.control, Session.answer, if_neg same]
        rw [if_neg (by simp [Session.console, Status.pending?, same])]
        rfl
    | active mode => cases mode <;> rfl
    | _ => rfl

theorem perform_console (controls : List Control) :
    (s.console listeners).perform controls = (s.perform controls).console listeners := by
  induction controls generalizing s with
  | nil => rfl
  | cons taken controls ih =>
    rw [perform, foldl_cons, control, take_console]
    exact ih (s.control taken)

end Console

end Breadboard
