import Breadboard.Proofs.Session.Control

/-!
Requests and answers pair up. An event is what a host sees of them: that a run begins or is
stopped, a number of a request in the log, and an answer that is taken. A request is open from
the moment it is made until one of these closes it, and the session takes just the answers to
the open request.
-/

open List

namespace Breadboard

open Status

def Log.requestIds (log : Log) : List Nat := log.commands.filterMap Command.requestId?

inductive Event where
  | begun
  | asked (id : Nat)
  | answered (id : Nat)
  | stopped
  deriving DecidableEq

namespace Event

variable {id : Nat} {events : List Event} {event : Event}

/-- The request is the last one made, in the run that goes on, and is neither answered nor
cancelled. -/
def Open (id : Nat) (events : List Event) : Prop :=
  ∃ before after, events = before ++ .asked id :: after ∧ (∀ other, .asked other ∉ after) ∧
    .answered id ∉ after ∧ .stopped ∉ after ∧ .begun ∉ after

/-- How many answers have been taken since the last run began. -/
def answersInRun (events : List Event) : Nat :=
  events.foldl (fun count event =>
    match event with
    | .begun => 0
    | .answered _ => count + 1
    | .asked _ | .stopped => count) 0

theorem not_open_nil : ¬ Open id [] := by
  rintro ⟨before, after, split, -⟩
  simp at split

theorem open_concat : Open id (events ++ [event]) ↔
      event = .asked id ∨ Open id events ∧ ∃ other, event = .answered other ∧ other ≠ id := by
  constructor
  · rintro ⟨before, after, split, noneAsked, notAnswered, notStopped, notBegun⟩
    rcases eq_nil_or_concat' after with rfl | ⟨init, last, rfl⟩
    · exact .inl (singleton_inj.mp (append_inj' split rfl).2)
    · rw [← cons_append, ← append_assoc] at split
      obtain ⟨earlier, same⟩ := append_inj' split rfl
      cases singleton_inj.mp same
      simp only [mem_append, mem_singleton, not_or]
        at noneAsked notAnswered notStopped notBegun
      refine .inr ⟨⟨before, init, earlier, fun other => (noneAsked other).1, notAnswered.1,
        notStopped.1, notBegun.1⟩, ?_⟩
      cases event with
      | begun => exact absurd rfl notBegun.2
      | asked other => exact absurd rfl (noneAsked other).2
      | answered other =>
        refine ⟨other, rfl, ?_⟩
        rintro rfl
        exact notAnswered.2 rfl
      | stopped => exact absurd rfl notStopped.2
  · rintro (rfl | ⟨⟨before, after, rfl, noneAsked, notAnswered, notStopped, notBegun⟩, other, rfl,
      differs⟩)
    · exact ⟨events, [], rfl, by simp, by simp, by simp, by simp⟩
    · refine ⟨before, after ++ [.answered other], by simp, ?_⟩
      simp [noneAsked, notAnswered, notStopped, notBegun, differs.symm]

theorem answersInRun_concat :
    answersInRun (events ++ [event]) = match event with
      | .begun => 0
      | .answered _ => answersInRun events + 1
      | .asked _ | .stopped => answersInRun events := by
  rw [answersInRun, foldl_append]
  rfl

end Event

namespace Session

variable {s next : Session} {past : List Event} {ctx : Context} {mode : Mode}
  {started : Bool} {value : Primitive}

def answers (s : Session) : Control → List Event
  | .answer id value => if (s.answer id value).1 then [.answered id] else []
  | _ => []

/-- What a host sees of a control: whether a run begins, whether an answer is taken, the requests
that come to the log, and whether the run is abandoned. -/
def events (s : Session) (control : Control) : List Event :=
  let next := s.control control
  let begins := s.status.isIdle && !next.status.isIdle
  let stops := !s.status.isIdle && next.status.isIdle
  let known := if begins then 0 else s.log.requestIds.length
  (if begins then [.begun] else []) ++ s.answers control ++
    (next.log.requestIds.drop known).map .asked ++ (if stops then [.stopped] else [])

def trace : Session → List Control → List Event
  | _, [] => []
  | s, control :: controls =>
    s.events control ++ (s.control control).trace controls

def pendingId? (s : Session) : Option Nat := s.status.pending?.map Pending.id

structure Paired (s : Session) (past : List Event) : Prop where
  opened : ∀ id, Event.Open id past ↔ s.pendingId? = some id
  fresh : ∀ id, s.nextRequest ≤ id → .asked id ∉ past ∧ .answered id ∉ past
  askedOnce : ∀ id, past.count (.asked id) ≤ 1
  answeredOnce : ∀ id, past.count (.answered id) ≤ 1
  unanswered : ∀ id, s.pendingId? = some id → .answered id ∉ past ∧ id < s.nextRequest
  counted : s.status.isIdle = false →
    s.log.requestIds.length = Event.answersInRun past + s.pendingId?.isSome.toNat

namespace Paired

theorem new (fw : Firmware) (nextId : Nat) :
    Paired { firmware := fw, nextRequest := nextId } [] where
  opened id := by simp [Event.not_open_nil, pendingId?, pending?]
  fresh := by simp
  askedOnce := by simp
  answeredOnce := by simp
  unanswered := by simp [pendingId?, pending?]
  counted := nofun

variable (paired : s.Paired past)
include paired

theorem unseen (pends : next.pendingId? = s.pendingId?)
    (ids : next.log.requestIds = s.log.requestIds) (counter : next.nextRequest = s.nextRequest)
    (begun : s.status.isIdle = false) : next.Paired past where
  opened := by
    rw [pends]
    exact paired.opened
  fresh := by
    rw [counter]
    exact paired.fresh
  askedOnce := paired.askedOnce
  answeredOnce := paired.answeredOnce
  unanswered := by
    rw [pends, counter]
    exact paired.unanswered
  counted _ := by
    rw [ids, pends]
    exact paired.counted begun

theorem begun (pends : next.pendingId? = none) (ids : next.log.requestIds = [])
    (counter : next.nextRequest = s.nextRequest) : next.Paired (past ++ [.begun]) where
  opened id := by simp [Event.open_concat, pends]
  fresh := by simpa [counter] using paired.fresh
  askedOnce := by simpa using paired.askedOnce
  answeredOnce := by simpa using paired.answeredOnce
  unanswered := by simp [pends]
  counted _ := by simp [ids, pends, Event.answersInRun_concat]

theorem stopped (idle : next.status = .idle)
    (counter : next.nextRequest = s.nextRequest) : next.Paired (past ++ [.stopped]) where
  opened id := by simp [Event.open_concat, pendingId?, idle, pending?]
  fresh := by simpa [counter] using paired.fresh
  askedOnce := by simpa using paired.askedOnce
  answeredOnce := by simpa using paired.answeredOnce
  unanswered := by simp [pendingId?, idle, pending?]
  counted := by simp [idle, isIdle]

theorem asked (none : s.pendingId? = none) (begun : s.status.isIdle = false)
    (pends : next.pendingId? = some s.nextRequest)
    (ids : next.log.requestIds = s.log.requestIds ++ [s.nextRequest])
    (counter : next.nextRequest = s.nextRequest + 1) :
    next.Paired (past ++ [.asked s.nextRequest]) where
  opened id := by simp [Event.open_concat, pends]
  fresh id above := by
    rw [counter] at above
    have unseen := paired.fresh id (by omega)
    have differs : id ≠ s.nextRequest := by omega
    simp [unseen, differs]
  askedOnce id := by
    by_cases new : id = s.nextRequest
    · have unseen := (paired.fresh id (by omega)).1
      simp [count_append, count_eq_zero_of_not_mem unseen, count_singleton]
      split <;> omega
    · simpa [count_append, Ne.symm new] using paired.askedOnce id
  answeredOnce id := by simpa [count_append] using paired.answeredOnce id
  unanswered id isPending := by
    rw [pends] at isPending
    cases isPending
    simp [(paired.fresh _ (Nat.le_refl _)).2, counter]
  counted _ := by simp [ids, paired.counted begun, none, pends, Event.answersInRun_concat]

theorem answered {id : Nat} (pending : s.pendingId? = some id) (begun : s.status.isIdle = false)
    (pends : next.pendingId? = none) (ids : next.log.requestIds = s.log.requestIds)
    (counter : next.nextRequest = s.nextRequest) : next.Paired (past ++ [.answered id]) where
  opened other := by
    rw [Event.open_concat, paired.opened, pending, pends]
    constructor
    · rintro (other | ⟨same, _, ⟨⟩, differs⟩)
      · cases other
      · exact absurd (Option.some.inj same) differs
    · nofun
  fresh other above := by
    rw [counter] at above
    have earlier := (paired.unanswered id pending).2
    have differs : other ≠ id := by omega
    simp [paired.fresh other above, differs]
  askedOnce other := by simpa [count_append] using paired.askedOnce other
  answeredOnce other := by
    by_cases same : other = id
    · have unseen := (paired.unanswered id pending).1
      subst same
      simp [count_append, count_eq_zero_of_not_mem unseen]
    · simpa [count_append, Ne.symm same] using paired.answeredOnce other
  unanswered := by simp [pends]
  counted _ := by simp [ids, paired.counted begun, pending, pends, Event.answersInRun_concat]

end Paired

theorem settle_requestIds (unsealed : s.log.isSealed = false) :
    (s.settle mode started ctx).log.requestIds = s.log.requestIds ++
      (s.firmware.runUnit started ctx).ending.asked s.nextRequest := by
  have reported : (s.firmware.runUnit started ctx).commands.filterMap
      Command.requestId? = [] := by
    rw [filterMap_eq_nil_iff]
    intro cmd inside
    exact Command.requestId?_of_isReport (Firmware.isReport_of_mem_runUnit cmd inside)
  rw [Log.requestIds, settle_commands unsealed, filterMap_append, filterMap_append,
    reported, nil_append]
  cases (s.firmware.runUnit started ctx).ending with
  | suspended request => cases request <;> rfl
  | _ => rfl

theorem settle_isIdle (s : Session) (mode : Mode) (started : Bool) (ctx : Context) :
    (s.settle mode started ctx).status.isIdle = false := by
  rw [settle_status]
  cases (s.firmware.runUnit started ctx).ending <;> rfl

theorem Paired.settle (paired : s.Paired past) (none : s.pendingId? = none)
    (begun : s.status.isIdle = false) (unsealed : s.log.isSealed = false) :
    (s.settle mode started ctx).Paired (past ++
      ((s.firmware.runUnit started ctx).ending.asked s.nextRequest).map .asked) := by
  have status := s.settle_status mode started ctx
  have ids : (s.settle mode started ctx).log.requestIds = _ := settle_requestIds unsealed
  have counter := s.settle_nextRequest mode started ctx
  cases ending : (s.firmware.runUnit started ctx).ending with
      rw [ending] at status ids counter
  | suspended request =>
    refine paired.asked none begun ?_ ids counter
    rw [pendingId?, status]
    rfl
  | boundary | exhausted | finished | loopLimit | failed =>
    have same : (s.settle mode started ctx).pendingId? = s.pendingId? := by
      rw [none, pendingId?, status]
      rfl
    rw [Ending.asked, append_nil] at ids
    · simpa [Ending.asked] using paired.unseen same ids counter begun
    · rintro _ ⟨⟩

variable {control : Control}

theorem events_of_begun (begun : s.status.isIdle = false)
    (goesOn : (s.control control).status.isIdle = false)
    (ids : (s.control control).log.requestIds = s.log.requestIds ++ new) :
    s.events control = s.answers control ++ new.map .asked := by
  simp [events, begun, goesOn, ids]

theorem events_of_idle (idle : s.status.isIdle = true)
    (begins : (s.control control).status.isIdle = false) :
    s.events control = [.begun] ++ s.answers control ++
      (s.control control).log.requestIds.map .asked := by
  simp [events, idle, begins]

/-- The answer of a control that is accepted is taken. -/
theorem answers_eq (s : Session) (control : Control) : s.answers control =
      if (s.accepted? control).isSome then s.pendingId?.toList.map .answered else [] := by
  cases control with
  | answer id value =>
    cases status : s.status with
    | waiting pending ctx =>
      by_cases same : pending.id = id <;>
        simp [answers, answer, accepted?, pendingId?, status, pending?, same]
    | _ => simp [answers, answer, accepted?, status, pending?]
  | _ => rfl

/-- A unit that a session runs, maybe after it has taken an answer. -/
theorem Paired.settled {base : Session} (before : base.Paired (past ++ s.answers control))
    (none : base.pendingId? = none) (goesOn : base.status.isIdle = false)
    (unsealed : base.log.isSealed = false) (begun : s.status.isIdle = false)
    (log : base.log = s.log) (next : s.control control = base.settle mode started ctx) :
    (s.control control).Paired (past ++ s.events control) := by
  have ids : (s.control control).log.requestIds = s.log.requestIds ++
      (base.firmware.runUnit started ctx).ending.asked base.nextRequest := by
    rw [next, settle_requestIds unsealed, log]
  rw [events_of_begun begun (by rw [next, settle_isIdle]) ids, ← append_assoc, next]
  exact before.settle none goesOn unsealed

section

variable (paired : s.Paired past)
include paired

theorem Paired.ignored (notTaken : s.answers control = []) (same : s.control control = s) :
    (s.control control).Paired (past ++ s.events control) := by
  have silent : s.events control = [] := by
    cases idle : s.status.isIdle <;> simp [events, same, notTaken, idle]
  rw [silent, append_nil, same]
  exact paired

theorem Paired.switched (status : Status) (begun : s.status.isIdle = false)
    (goesOn : status.isIdle = false) (pends : status.pending?.map Pending.id = s.pendingId?)
    (notTaken : s.answers control = []) (next : s.control control = { s with status }) :
    (s.control control).Paired (past ++ s.events control) := by
  have ids : (s.control control).log.requestIds = s.log.requestIds ++ [] := by
    rw [next, append_nil]
  rw [events_of_begun begun (by rw [next, goesOn]) ids, notTaken, map_nil, append_nil,
    append_nil, next]
  exact paired.unseen pends rfl rfl begun

theorem Paired.abandoned (begun : s.status.isIdle = false)
    (next : s.control .stop = { s with log := s.log.close, status := .idle }) :
    (s.control .stop).Paired (past ++ s.events .stop) := by
  have idle : idle.isIdle = true := rfl
  have seen : s.events .stop = [.stopped] := by
    simp [events, begun, next, idle, answers, Log.requestIds]
  rw [seen, next]
  exact paired.stopped rfl rfl

theorem Paired.ran (orderly : s.Orderly) (active : s.status = .active mode ctx)
    (notTaken : s.answers control = []) (next : s.control control = s.settle mode false ctx) :
    (s.control control).Paired (past ++ s.events control) := by
  have begun : s.status.isIdle = false := by
    rw [active]
    rfl
  have none : s.pendingId? = none := by
    rw [pendingId?, active]
    rfl
  have unsealed := orderly.unsealed (by simp [active]) (by rw [active]; rfl)
  refine Paired.settled ?_ none begun unsealed begun rfl next
  rw [notTaken, append_nil]
  exact paired

theorem Paired.begunStep (idle : s.status = .idle)
    (notTaken : s.answers control = []) (next : s.control control =
      (s.begun .paused).settle .paused false (.initial defaultSeed)) :
    (s.control control).Paired (past ++ s.events control) := by
  have begins : (s.control control).status.isIdle = false := by
    rw [next, settle_isIdle]
  have ids : (s.control control).log.requestIds = [] ++
      ((s.begun .paused).firmware.runUnit false (.initial defaultSeed)).ending.asked
        (s.begun .paused).nextRequest := by
    rw [next, settle_requestIds rfl]
    rfl
  rw [events_of_idle (by rw [idle]; rfl) begins, ids, next, notTaken, append_nil,
    nil_append, ← append_assoc]
  have begun : (s.begun .paused).Paired (past ++ [.begun]) := paired.begun rfl rfl rfl
  exact begun.settle rfl rfl rfl

theorem Paired.taken (orderly : s.Orderly)
    (waiting : s.status = .waiting pending ctx) (taken : s.answers control = [.answered pending.id])
    (next : s.control control = s.settle pending.mode true
      { ctx with values := pending.request.response value :: ctx.values }) :
    (s.control control).Paired (past ++ s.events control) := by
  have begun : s.status.isIdle = false := by
    rw [waiting]
    rfl
  have isPending : s.pendingId? = some pending.id := by
    rw [pendingId?, waiting]
    rfl
  have unsealed := orderly.unsealed (by simp [waiting]) (by rw [waiting]; rfl)
  let answered : Context :=
    { ctx with values := pending.request.response value :: ctx.values }
  let base : Session := { s with status := .active pending.mode answered }
  have before : base.Paired (past ++ s.answers control) := by
    rw [taken]
    exact paired.answered isPending begun rfl rfl rfl
  exact before.settled rfl rfl unsealed begun rfl next

theorem Paired.taking (orderly : s.Orderly)
    (control : Control) : (s.control control).Paired (past ++ s.events control) := by
  have moves := s.control_moves control
  have answers := s.answers_eq control
  obtain ⟨next, after⟩ : ∃ next, s.control control = next := ⟨_, rfl⟩
  generalize s.accepted? control = accepted at moves answers
  rw [after] at moves
  cases moves with
  | ignored => exact paired.ignored answers after
  | begun idle =>
    have seen : s.events control = [.begun] := by
      rw [events_of_idle (by rw [idle]; rfl) (by rw [after]; rfl), answers, after]
      rfl
    rw [seen, after]
    exact paired.begun rfl rfl rfl
  | begunStep idle => exact paired.begunStep idle answers after
  | ran active => exact paired.ran orderly active answers after
  | switched active =>
    exact paired.switched _ (by rw [active]; rfl) rfl (by rw [pendingId?, active]; rfl) answers after
  | retargeted mode waiting =>
    exact paired.switched _ (by rw [waiting]; rfl) rfl (by rw [pendingId?, waiting]; rfl) answers
      after
  | stopped =>
    cases status : s.status with
    | active | waiting => exact paired.abandoned (by rw [status]; rfl) after
    | _ => exact paired.ignored answers (by simp only [Session.control, stop, status])
  | answered value waiting =>
    rw [pendingId?, waiting] at answers
    exact paired.taken orderly waiting answers after

theorem Paired.perform (orderly : s.Orderly) (controls : List Control) :
    (s.perform controls).Paired (past ++ s.trace controls) := by
  induction controls generalizing s past with
  | nil =>
    rw [trace, append_nil]
    exact paired
  | cons control controls ih =>
    rw [trace, ← append_assoc]
    exact ih (paired.taking orderly control) (orderly.control control)

end

theorem answer_eq_true_iff {id : Nat} : (s.answer id value).1 = true ↔ s.pendingId? = some id := by
  unfold answer pendingId?
  cases s.status with
  | waiting pending ctx =>
    dsimp only [pending?, Option.map_some]
    split <;> simp [*]
  | _ => simp [pending?]

/-- Whatever the controls of the host are, the session takes just the answers to the open
request. So no request is answered twice, and in a run there is one request more than answers
while the run waits, and else as many. An answer that is not taken changes nothing. -/
theorem requests_pair (firmware : Firmware) (nextRequest : Nat) (controls : List Control) :
    let session := ({ firmware, nextRequest } : Session).perform controls
    let events := ({ firmware, nextRequest } : Session).trace controls
    (∀ id value, (session.answer id value).1 = true ↔ Event.Open id events) ∧
    (∀ id, events.count (.asked id) ≤ 1 ∧ events.count (.answered id) ≤ 1) ∧
    (session.status.state ≠ .idle → session.log.requestIds.length =
      Event.answersInRun events + if session.status.state = .waiting then 1 else 0) ∧
    ∀ id value, (session.answer id value).1 = false → (session.answer id value).2 = session := by
  intro session events
  have paired : session.Paired events := by
    have first : Paired { firmware, nextRequest } [] := .new firmware nextRequest
    exact first.perform (.new firmware nextRequest) controls
  refine ⟨?_, ?_, ?_, ?_⟩
  · intro id value
    rw [answer_eq_true_iff, paired.opened]
  · intro id
    exact ⟨paired.askedOnce id, paired.answeredOnce id⟩
  · intro begun
    have counted := paired.counted
    rw [pendingId?] at counted
    cases status : session.status with
    | idle =>
        rw [status] at begun
        exact absurd rfl begun
    | active mode context =>
        rw [status] at counted
        cases mode <;> exact counted rfl
    | waiting | complete | failed =>
        rw [status] at counted
        exact counted rfl
  · intro id value refused
    have returned : session.returns (.answer id value) = some false := by
      rw [returns, refused]
    exact control_of_refused returned

end Session

end Breadboard
