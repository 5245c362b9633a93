import Breadboard.Proofs.Session.Console
import Breadboard.Proofs.Session.Stepwise
import Mathlib.Data.List.Basic

/-!
The control of a session. Whatever a host does, the fields of its console and the history agree:
the history opens with the start of the run, holds reports and requests, and closes with what
the state says. A control that is refused changes nothing, and neither does any once the run is
over.
-/

open List

namespace Breadboard

open Command Status

namespace Command

variable {cmd : Command}

/-- The last command of a run that was not abandoned. -/
def endsRun : Command → Bool
  | .programEnd | .error _ _ _ => true
  | _ => false

def isLimit : Command → Bool
  | .loopLimitReached _ => true
  | _ => false

def isInner (cmd : Command) : Bool := cmd.isReport || cmd.isRequest

theorem isInner_of_isReport (reports : cmd.isReport = true) : cmd.isInner = true := by
  rw [isInner, reports, Bool.true_or]

theorem isInner_request (request : Request) (id : Nat) : (request.command id).isInner = true := by
  cases request <;> rfl

theorem endsRun_of_isInner (inner : cmd.isInner = true) : cmd.endsRun = false := by
  cases cmd <;> first | rfl | cases inner

theorem isLimit_of_isInner (inner : cmd.isInner = true) : cmd.isLimit = false := by
  cases cmd <;> first | rfl | cases inner

end Command

namespace Control

/-- The controls that take a run further without letting it go on by itself. -/
def isStepwise : Control → Bool
  | .step | .answer _ _ => true
  | _ => false

end Control

/-- How a history closes when its run has come to a state. -/
inductive Status.ClosedBy : Status → List Command → Prop where
  | idle : ClosedBy .idle []
  | active : ClosedBy (.active mode ctx) []
  | waiting : ClosedBy (.waiting pending ctx) [pending.request.command pending.id]
  | complete : ClosedBy (.complete ctx) [.programEnd]
  | limited (iters : Nat) : ClosedBy (.complete ctx) [.loopLimitReached iters, .programEnd]
  | failed (kind message : String) (loc : Location) :
      ClosedBy (.failed ctx) [.error kind message loc]

theorem Ending.closedBy (ending : Ending) (mode : Mode) (id : Nat) (ctx : Context) :
    (ending.status mode id ctx).ClosedBy (ending.closing id) := by
  cases ending with
  | boundary | exhausted => exact .active
  | suspended => exact .waiting
  | finished => exact .complete
  | loopLimit iters => exact .limited iters
  | failed => exact .failed _ _ _

def Status.Tells (status : Status) (cmds : List Command) : Prop :=
  ∃ body closing, cmds = .programStart :: (body ++ closing) ∧
    (∀ cmd ∈ body, cmd.isInner = true) ∧ status.ClosedBy closing

namespace Status.ClosedBy

variable {status : Status} {closing : List Command}

variable (closed : status.ClosedBy closing)
include closed

theorem isInner (goesOn : status.isTerminal = false) : ∀ cmd ∈ closing, cmd.isInner = true := by
  cases closed with
  | idle | active => nofun
  | waiting => simp [isInner_request]
  | complete | limited | failed => cases goesOn

theorem tells : .programStart ∉ closing ∧
    (.programEnd ∈ closing ↔ status.state = .complete) ∧
    ((∃ kind message loc, .error kind message loc ∈ closing) ↔ status.state = .error) := by
  cases closed with
  | @active mode => cases mode <;> simp [state]
  | @waiting pending => cases request : pending.request <;> simp [Request.command, state]
  | _ => simp [state]

end Status.ClosedBy

theorem Status.shows (status : Status) : status.state ≠ .stepping ∧
    (status.context? = none ↔ status.state = .idle) ∧
    (status.pending?.isSome = true ↔ status.state = .waiting) := by
  cases status with
  | active mode => cases mode <;> simp [state, context?, pending?]
  | _ => simp [state, context?, pending?]

/-- An item with a property that nothing in front has stands behind. -/
theorem split_behind {α : Type} (property : α → Bool) {front closing before after : List α}
    {item : α} (none : ∀ other ∈ front, property other = false)
    (split : front ++ closing = before ++ item :: after) (has : property item = true) :
    ∃ middle, before = front ++ middle ∧ closing = middle ++ item :: after := by
  rcases append_eq_append_iff.mp split with ⟨middle, same, ends⟩ | ⟨middle, same, ends⟩
  · exact ⟨middle, same, ends⟩
  · cases middle with
    | nil => exact ⟨[], by simpa using same.symm, ends.symm⟩
    | cons first middle =>
      obtain ⟨rfl, -⟩ := List.cons.inj ends
      cases has.symm.trans (none item (by simp [same]))

namespace Status.Tells

variable {status : Status} {cmds : List Command} {before after : List Command}

theorem of_begun (mode : Mode) (ctx : Context) : (active mode ctx).Tells [.programStart] :=
  ⟨[], [], rfl, nofun, .active⟩

variable (tells : status.Tells cmds)
include tells

theorem extend {next : Status} (goesOn : status.isTerminal = false)
    (inner : ∀ cmd ∈ told, cmd.isInner = true)
    (closed : next.ClosedBy closing) : next.Tells (cmds ++ (told ++ closing)) := by
  obtain ⟨body, earlier, rfl, bodyInner, earlierClosed⟩ := tells
  refine ⟨body ++ earlier ++ told, closing, by simp, ?_, closed⟩
  simp only [forall_mem_append]
  exact ⟨⟨bodyInner, earlierClosed.isInner goesOn⟩, inner⟩

theorem opening : ∃ rest, cmds = .programStart :: rest ∧ .programStart ∉ rest := by
  obtain ⟨body, closing, rfl, inner, closed⟩ := tells
  refine ⟨_, rfl, ?_⟩
  rw [mem_append, not_or]
  refine ⟨?_, closed.tells.1⟩
  intro inside
  cases inner _ inside

/-- What is neither the start of a run nor inside it closes the run. -/
theorem mem_closing : ∃ closing, status.ClosedBy closing ∧
    ∀ cmd, cmd.isInner = false → cmd ≠ .programStart → (cmd ∈ cmds ↔ cmd ∈ closing) := by
  obtain ⟨body, closing, rfl, inner, closed⟩ := tells
  refine ⟨closing, closed, fun cmd outer later => ?_⟩
  have outside : cmd ∉ body := by
    intro inside
    cases outer.symm.trans (inner cmd inside)
  simp [later, outside]

theorem complete_iff : .programEnd ∈ cmds ↔ status.state = .complete := by
  obtain ⟨closing, closed, same⟩ := tells.mem_closing
  rw [same .programEnd rfl nofun]
  exact closed.tells.2.1

theorem error_iff : (∃ kind message loc, .error kind message loc ∈ cmds) ↔
      status.state = .error := by
  obtain ⟨closing, closed, same⟩ := tells.mem_closing
  have errors (kind message loc) := same (.error kind message loc) rfl nofun
  simp only [errors]
  exact closed.tells.2.2

theorem ends_last (split : cmds = before ++ cmd :: after)
    (ends : cmd.endsRun = true) : after = [] ∧ ∀ other ∈ before, other.endsRun = false := by
  obtain ⟨body, closing, rfl, inner, closed⟩ := tells
  have goesOn : ∀ other ∈ programStart :: body, other.endsRun = false :=
    forall_mem_cons.mpr ⟨rfl, fun other inside => endsRun_of_isInner (inner _ inside)⟩
  obtain ⟨middle, rfl, behind⟩ := split_behind endsRun goesOn split ends
  cases closed with
  | idle | active => simp at behind
  | waiting | complete | failed =>
    cases middle with
    | nil =>
      cases behind
      exact ⟨rfl, by simpa using goesOn⟩
    | cons => simp at behind
  | limited iters =>
    rcases middle with _ | ⟨_, _ | _⟩
    · cases behind
      cases ends
    · cases behind
      exact ⟨rfl, forall_mem_append.mpr ⟨goesOn, by simp [endsRun]⟩⟩
    · simp at behind

theorem limit_before_end (split : cmds = before ++ .loopLimitReached iters :: after) :
    after = [.programEnd] ∧ ∀ other ∈ before, other.isLimit = false := by
  obtain ⟨body, closing, rfl, inner, closed⟩ := tells
  have noLimit : ∀ other ∈ programStart :: body, other.isLimit = false :=
    forall_mem_cons.mpr ⟨rfl, fun other inside => isLimit_of_isInner (inner _ inside)⟩
  obtain ⟨middle, rfl, behind⟩ := split_behind isLimit noLimit split rfl
  cases closed with
  | limited limit =>
    rcases middle with _ | ⟨_, _ | _⟩
    · cases behind
      exact ⟨rfl, by simpa using noLimit⟩
    · cases behind
    · simp at behind
  | idle | active => simp at behind
  | complete | failed =>
    cases middle <;> simp at behind
  | @waiting pending =>
    cases request : pending.request <;> cases middle <;> simp [Request.command, request] at behind

end Status.Tells

namespace Session

variable {s next : Session}

theorem control_of_refused {control : Control} (refused : s.returns control = some false) :
    s.control control = s := by
  cases control with
  | stop => cases refused
  | start | step | tick | pause | resume =>
    simp only [returns, start, step, tick, pause, resume, Option.some.injEq] at refused
    simp only [Session.control, start, step, tick, pause, resume]
    split at refused
    all_goals first | rfl | cases refused
  | answer id value =>
    simp only [returns, answer, Option.some.injEq] at refused
    simp only [Session.control, answer]
    split at refused
    · split at refused
      · cases refused
      · rw [if_neg ‹_›]
    · rfl

theorem control_of_ended (ended : s.status.state = .complete ∨ s.status.state = .error)
    (control : Control) : s.control control = s := by
  cases status : s.status with rw [status] at ended
  | active mode => cases mode <;> simp [state] at ended
  | idle | waiting => simp [state] at ended
  | complete | failed =>
    cases control <;>
      simp [Session.control, start, step, tick, pause, resume, stop, answer, status]

/-- The history agrees with the state, and takes commands as long as the run is not over. -/
structure Orderly (s : Session) : Prop where
  tells : s.log.commands = [] ∧ s.status = .idle ∨
    s.status.Tells s.log.commands
  numbered : s.log.Numbered
  unsealed : s.status ≠ .idle → s.status.isTerminal = false →
    s.log.isSealed = false

theorem Orderly.new (fw : Firmware) (nextId : Nat) :
    Orderly { firmware := fw, nextRequest := nextId } :=
  ⟨.inl ⟨rfl, rfl⟩, .empty, fun notIdle => absurd rfl notIdle⟩

theorem Orderly.begun (s : Session) (mode : Mode) : (s.begun mode).Orderly :=
  ⟨.inr (.of_begun mode _), Log.Numbered.empty.emit _, fun _ _ => rfl⟩

section

variable (orderly : s.Orderly)
include orderly

theorem Orderly.told (begun : s.status ≠ .idle) : s.status.Tells s.log.commands := by
  rcases orderly.tells with ⟨-, idle⟩ | tells
  · exact absurd idle begun
  · exact tells

theorem Orderly.settle (begun : s.status ≠ .idle) (goesOn : s.status.isTerminal = false) :
    (s.settle mode started ctx).Orderly := by
  have unsealed := orderly.unsealed begun goesOn
  refine ⟨.inr ?_, settle_numbered orderly.numbered, ?_⟩
  · rw [settle_status, settle_commands unsealed]
    refine (orderly.told begun).extend goesOn ?_ (Ending.closedBy _ _ _ _)
    exact fun cmd inside =>
      isInner_of_isReport (Firmware.isReport_of_mem_runUnit cmd inside)
  · rw [settle_status, settle_isSealed unsealed]
    intro _ live
    cases ending : (s.firmware.runUnit started ctx).ending with
    | boundary | exhausted | suspended => rfl
    | finished | loopLimit | failed =>
      rw [ending] at live
      cases live

theorem Orderly.stop : s.stop.Orderly := by
  have abandoned (begun : s.status ≠ .idle) (goesOn : s.status.isTerminal = false) :
      Orderly { s with log := s.log.close, status := .idle } := by
    refine ⟨.inr ?_, orderly.numbered.close, fun notIdle => absurd rfl notIdle⟩
    have same : idle.Tells (s.log.commands ++ ([] ++ [])) :=
      (orderly.told begun).extend goesOn nofun .idle
    simpa using same
  unfold Session.stop
  cases status : s.status with
  | idle | complete | failed => exact orderly
  | active | waiting => exact abandoned (by simp [status]) (by rw [status]; rfl)

theorem Orderly.control (control : Control) : (s.control control).Orderly := by
  have moves := s.control_moves control
  generalize s.accepted? control = accepted at moves
  generalize after : s.control control = next at moves
  cases moves with
  | ignored => exact orderly
  | begun idle => exact .begun s .running
  | begunStep idle => exact (Orderly.begun s .paused).settle (by simp [Session.begun]) rfl
  | ran active => exact orderly.settle (by simp [active]) (by rw [active]; rfl)
  | switched active =>
    have tells := orderly.told (by simp [active])
    have unsealed := orderly.unsealed (by simp [active]) (by rw [active]; rfl)
    refine ⟨.inr ?_, orderly.numbered, fun _ _ => unsealed⟩
    rw [active] at tells
    obtain ⟨body, closing, split, inner, closed⟩ := tells
    cases closed
    exact ⟨body, [], split, inner, .active⟩
  | retargeted mode waiting =>
    have tells := orderly.told (by simp [waiting])
    have unsealed := orderly.unsealed (by simp [waiting]) (by rw [waiting]; rfl)
    refine ⟨.inr ?_, orderly.numbered, fun _ _ => unsealed⟩
    rw [waiting] at tells
    obtain ⟨body, closing, split, inner, closed⟩ := tells
    cases closed
    exact ⟨body, _, split, inner, .waiting⟩
  | stopped =>
    rw [← after]
    exact orderly.stop
  | answered value waiting => exact orderly.settle (by simp [waiting]) (by rw [waiting]; rfl)

theorem Orderly.perform (controls : List Control) : (s.perform controls).Orderly := by
  induction controls generalizing s with
  | nil => exact orderly
  | cons control controls ih => exact ih (orderly.control control)

end

theorem Orderly.asked (orderly : s.Orderly) (pends : s.status.pending? = some pending) :
    s.log.commands.getLast? = some (pending.request.command pending.id) := by
  cases status : s.status with rw [status] at pends
  | waiting found ctx =>
    cases pends
    have tells := orderly.told (by simp [status])
    rw [status] at tells
    obtain ⟨body, closing, split, inner, closed⟩ := tells
    cases closed
    rw [split, ← cons_append, List.getLast?_concat]
  | _ => cases pends

def HeldBack (s : Session) : Prop :=
  s.status.state ≠ .idle ∧ s.status.state ≠ .running ∧
    ∀ pending ∈ s.status.pending?, pending.mode = .paused

theorem HeldBack.settle (s : Session) (started : Bool) (ctx : Context) :
    (s.settle .paused started ctx).HeldBack := by
  unfold HeldBack
  rw [settle_status]
  cases (s.firmware.runUnit started ctx).ending <;> simp [Ending.status, state, pending?]

theorem HeldBack.control (held : s.HeldBack) {control : Control}
    (stepwise : control.isStepwise = true) : (s.control control).HeldBack := by
  cases control with
  | start | tick | pause | resume | stop => cases stepwise
  | step =>
    simp only [Session.control, step]
    cases status : s.status with
    | idle => exact absurd (congrArg state status) held.1
    | active mode ctx =>
      cases mode with
      | running => exact absurd (congrArg state status) held.2.1
      | paused => exact .settle _ _ _
    | waiting | complete | failed => exact held
  | answer id value =>
    simp only [Session.control, answer]
    cases status : s.status with
    | waiting pending ctx =>
      dsimp only
      split
      · rw [held.2.2 pending (by rw [status]; rfl)]
        exact .settle _ _ _
      · exact held
    | _ => exact held

theorem HeldBack.perform (held : s.HeldBack)
    (stepwise : ∀ control ∈ controls, control.isStepwise = true) :
    (s.perform controls).HeldBack := by
  induction controls generalizing s with
  | nil => exact held
  | cons control controls ih =>
    obtain ⟨first, further⟩ := forall_mem_cons.mp stepwise
    exact ih (held.control first) further

theorem HeldBack.of_step (idle : s.status.state = .idle) : (s.control .step).HeldBack := by
  simp only [Session.control, step]
  cases status : s.status with rw [status] at idle
  | idle => exact .settle _ _ _
  | active mode => cases mode <;> cases idle
  | waiting | complete | failed => cases idle

end Session

namespace Console

variable {Listener : Type}

def commands (console : Console Listener) : List Command := console.channel.log.commands

/-- The fields of a console and its history say the same. -/
structure Consistent (console : Console Listener) : Prop where
  resting : console.state ≠ .stepping
  context : console.context = none ↔ console.state = .idle
  pending : console.pending.isSome = true ↔ console.state = .waiting
  asked : ∀ pending, console.pending = some pending →
    console.commands.getLast? = some (pending.request.command pending.id)
  counted : console.channel.next = console.channel.log.entries.size
  numbered : ∀ (pos : Nat) (entry : Emitted),
    console.channel.log.entries[pos]? = some entry → entry.seq = pos
  opening : console.commands ≠ [] →
    ∃ rest, console.commands = .programStart :: rest ∧ .programStart ∉ rest
  complete : .programEnd ∈ console.commands ↔ console.state = .complete
  failed : (∃ kind message loc, .error kind message loc ∈ console.commands) ↔
    console.state = .error
  ending : ∀ before cmd after, console.commands = before ++ cmd :: after →
    cmd.endsRun = true → after = [] ∧ ∀ other ∈ before, other.endsRun = false
  limit : ∀ before iters after,
    console.commands = before ++ .loopLimitReached iters :: after →
      after = [.programEnd] ∧ ∀ other ∈ before, other.isLimit = false

theorem consistent_of_orderly {s : Session} (orderly : s.Orderly) (listeners : List Listener) :
    (s.console listeners).Consistent where
  resting := s.status.shows.1
  context := s.status.shows.2.1
  pending := by
    change (s.status.pending?.map _).isSome = true ↔ _
    rw [Option.isSome_map]
    exact s.status.shows.2.2
  asked := by
    intro shown pends
    obtain ⟨pending, found, rfl⟩ := Option.map_eq_some_iff.mp pends
    exact orderly.asked found
  counted := rfl
  numbered := orderly.numbered
  opening := by
    intro told
    rcases orderly.tells with ⟨silent, -⟩ | tells
    · exact absurd silent told
    · exact tells.opening
  complete := by
    change _ ∈ s.log.commands ↔ s.status.state = _
    rcases orderly.tells with ⟨silent, idle⟩ | tells
    · simp [silent, idle, Status.state]
    · exact tells.complete_iff
  failed := by
    change (∃ kind message loc, _ ∈ s.log.commands) ↔ s.status.state = _
    rcases orderly.tells with ⟨silent, idle⟩ | tells
    · simp [silent, idle, Status.state]
    · exact tells.error_iff
  ending := by
    intro before cmd after split ends
    rcases orderly.tells with ⟨silent, -⟩ | tells
    · cases append_ne_nil_of_right_ne_nil before (cons_ne_nil cmd after) (split.symm.trans silent)
    · exact tells.ends_last split ends
  limit := by
    intro before iters after split
    rcases orderly.tells with ⟨silent, -⟩ | tells
    · cases append_ne_nil_of_right_ne_nil before (cons_ne_nil _ after) (split.symm.trans silent)
    · exact tells.limit_before_end split

/-- Whatever the controls of the host are, after each of them the fields of the console and its
history agree. From there nothing changes a run that is over, a run that is begun and taken
further by steps never goes on by itself, and a refused control changes nothing. -/
theorem control_invariant (firmware : Firmware) (nextRequest : Nat) (listeners : List Listener)
    (controls : List Control) :
    let console := ({ firmware, nextRequest, channel := { listeners } } : Console Listener).perform
      controls
    console.Consistent ∧
    (console.state = .complete ∨ console.state = .error →
      ∀ control, console.control control = console) ∧
    (console.state = .idle → ∀ further, (∀ control ∈ further, control.isStepwise = true) →
      (console.perform (.step :: further)).state ≠ .running) ∧
    ∀ control, (console.take control).1 = some false → console.control control = console := by
  have shown : ({ firmware, nextRequest, channel := { listeners } } : Console Listener).perform
      controls = (({ firmware, nextRequest } : Session).perform controls).console listeners :=
    perform_console { firmware, nextRequest } listeners controls
  rw [shown]
  have orderly := (Session.Orderly.new firmware nextRequest).perform controls
  generalize Session.perform _ controls = session at orderly
  refine ⟨consistent_of_orderly orderly listeners, ?_, ?_, ?_⟩
  · intro ended control
    rw [Console.control, take_console, Session.control_of_ended ended]
  · intro idle further stepwise
    rw [perform_console]
    exact ((Session.HeldBack.of_step idle).perform stepwise).2.1
  · intro control refused
    rw [take_console] at refused
    rw [Console.control, take_console, Session.control_of_refused refused]

end Console

end Breadboard
