import Breadboard.Proofs.Session.Course

/-!
Stepwise equivalence. Whatever a host does short of stopping, its session stands on the course
that its answers determine. So two hosts that give the same answers see the same
commands, apart from the numbers of the requests, as far as both have come.
-/

namespace Breadboard

open Status

variable {first second : List Primitive} {pos : Nat} {value : Primitive}

def Status.stage : Status → Stage
  | .idle => .idle
  | .active _ ctx => .going ctx
  | .waiting pending ctx => .asking pending.request ctx
  | .complete ctx => .complete ctx
  | .failed ctx => .failed ctx

def Status.isTerminal (status : Status) : Bool := status.stage.isTerminal

theorem Status.eq_of_stage_eq {status other : Status} (ended : status.isTerminal = true)
    (same : status.stage = other.stage) : status = other := by
  cases status with
  | idle | active | waiting => cases ended
  | complete ctx | failed ctx =>
    cases other <;> cases same
    rfl

namespace Session

variable {s next : Session} {answers : Nat → Primitive}

def course (s : Session) (answered : Nat) : Course :=
  ⟨s.log.renumbered, answered, s.status.stage⟩

/-- The values of the answers that a session accepts along controls. -/
def acceptedAlong : Session → List Control → List Primitive
  | _, [] => []
  | s, control :: controls =>
    (s.accepted? control).toList ++ (s.control control).acceptedAlong controls

theorem settle_course (s : Session) (mode : Mode) (started : Bool) (ctx : Context)
    (answered : Nat) :
    (s.settle mode started ctx).course answered =
      (s.course answered).settled (s.firmware.runUnit started ctx) := by
  unfold settle Course.settled
  dsimp only
  cases (s.firmware.runUnit started ctx).ending with
  | suspended request =>
    simp [course, Log.renumbered_emitAll, Log.renumbered_emit, stage, Course.ask,
      Log.record_request _ request s.nextRequest 0]
  | _ =>
    simp [course, Log.renumbered_emitAll, Log.renumbered_emit, Log.renumbered_close, stage, finish,
      Course.finish, Course.fail]

/-- A unit that a session runs is a number of steps of its course. -/
theorem iterate_settle (s : Session) (answers : Nat → Primitive) (mode : Mode)
    (started : Bool) (ctx : Context) (answered : Nat) :
    ∃ steps, ((Course.next s.firmware answers)^[steps])
        { s.course answered with stage := .going ctx } =
      (s.settle mode started ctx).course answered := by
  rw [settle_course]
  exact (s.course answered).iterate_runFrames _ started [] ctx

theorem next_course_of_idle (answered : Nat) (idle : s.status = .idle) (mode : Mode) :
    (s.course answered).next s.firmware answers =
      (s.begun mode).course answered := by
  simp only [course, idle, stage, Course.next]
  rfl

/-- All that a host can do but stopping takes a session further on its course, or leaves it where
it is. -/
theorem Moves.course {control : Control} {answered : Nat}
    (moves : Moves s control accepted next) (goesOn : control ≠ .stop)
    (agrees : ∀ value, accepted = some value → answers answered = value) :
    ∃ steps, ((Course.next s.firmware answers)^[steps]) (s.course answered) =
      next.course (answered + accepted.toList.length) := by
  cases moves with
  | ignored => exact ⟨0, rfl⟩
  | begun idle => exact ⟨1, next_course_of_idle answered idle .running⟩
  | begunStep idle =>
    obtain ⟨steps, reached⟩ := (s.begun .paused).iterate_settle answers .paused false
      (.initial defaultSeed) answered
    refine ⟨steps + 1, ?_⟩
    rw [Function.iterate_succ_apply, next_course_of_idle answered idle .paused]
    exact reached
  | @ran _ mode ctx active =>
    obtain ⟨steps, reached⟩ := s.iterate_settle answers mode false ctx answered
    refine ⟨steps, ?_⟩
    rw [Session.course, active]
    exact reached
  | switched active =>
    refine ⟨0, ?_⟩
    simp [Session.course, active, stage]
  | retargeted mode waiting =>
    refine ⟨0, ?_⟩
    simp [Session.course, waiting, stage]
  | stopped => exact absurd rfl goesOn
  | @answered _ pending ctx value waiting =>
    obtain ⟨steps, reached⟩ := s.iterate_settle answers pending.mode true
      { ctx with values := pending.request.response value :: ctx.values } (answered + 1)
    refine ⟨steps + 1, ?_⟩
    rw [Function.iterate_succ_apply, Session.course, waiting, ← agrees value rfl]
    rw [← agrees value rfl] at reached
    exact reached

theorem perform_course (controls : List Control) (answered : Nat) (goesOn : .stop ∉ controls)
    (agrees : ∀ (pos : Nat) (value : Primitive),
      (s.acceptedAlong controls)[pos]? = some value → answers (answered + pos) = value) :
    ∃ steps, ((Course.next s.firmware answers)^[steps]) (s.course answered) =
      (s.perform controls).course (answered + (s.acceptedAlong controls).length) := by
  induction controls generalizing s answered with
  | nil => exact ⟨0, rfl⟩
  | cons control controls ih =>
    have moves := s.control_moves control
    rw [List.mem_cons, not_or] at goesOn
    rw [acceptedAlong] at agrees ⊢
    have agreesNow (value : Primitive) (accepted : s.accepted? control = some value) :
        answers answered = value := agrees 0 value (by simp [accepted])
    obtain ⟨first, reached⟩ := moves.course (Ne.symm goesOn.1) agreesNow
    have agreesLater (pos : Nat) (value : Primitive)
        (found : ((s.control control).acceptedAlong controls)[pos]? = some value) :
        answers (answered + (s.accepted? control).toList.length + pos) = value := by
      rw [Nat.add_assoc]
      apply agrees
      rw [List.getElem?_append_right (Nat.le_add_right _ _), Nat.add_sub_cancel_left]
      exact found
    obtain ⟨further, final⟩ := ih _ goesOn.2 agreesLater
    refine ⟨further + first, ?_⟩
    rw [Function.iterate_add_apply, reached, List.length_append, ← Nat.add_assoc, ← moves.firmware]
    exact final

end Session

def mergedAnswers (first second : List Primitive) (pos : Nat) : Primitive :=
  (first[pos]?.or second[pos]?).getD (.int 0)

theorem mergedAnswers_of_left
    (found : first[pos]? = some value) : mergedAnswers first second pos = value := by
  simp [mergedAnswers, found]

theorem mergedAnswers_of_right (agree : ∀ other, first[pos]? = some other → other = value)
    (found : second[pos]? = some value) : mergedAnswers first second pos = value := by
  cases earlier : first[pos]? with
  | none => simp [mergedAnswers, earlier, found]
  | some other =>
    rw [mergedAnswers_of_left earlier]
    exact agree other earlier

namespace Session

theorem perform_course_of_new (fw : Firmware) (nextRequest : Nat) (controls : List Control)
    (answers : Nat → Primitive) (goesOn : .stop ∉ controls)
    (agrees : ∀ (pos : Nat) (value : Primitive),
      (({ firmware := fw, nextRequest } : Session).acceptedAlong controls)[pos]? = some value →
        answers pos = value) :
    ∃ steps answered, ((Course.next fw answers)^[steps]) {} =
      (({ firmware := fw, nextRequest } : Session).perform controls).course answered := by
  obtain ⟨steps, reached⟩ := perform_course controls 0 goesOn fun pos value found => by
    rw [Nat.zero_add]
    exact agrees pos value found
  exact ⟨steps, _, reached⟩

/-- Of two sessions on one course, the one that has come further has the history of the other and
more, and no more if the run of the other is over. -/
theorem comparable {early late : Session} (fewerSteps : fewer ≤ more)
    (earlyReached : ((Course.next fw answers)^[fewer]) {} = early.course earlyAnswered)
    (lateReached : ((Course.next fw answers)^[more]) {} = late.course lateAnswered) :
    early.log.renumbered.entries.toList <+: late.log.renumbered.entries.toList ∧
      (early.status.isTerminal = true →
        early.log.renumbered = late.log.renumbered ∧ early.status = late.status) := by
  have grows : (early.course earlyAnswered).log.entries.toList <+:
      (late.course lateAnswered).log.entries.toList := by
    rw [← earlyReached, ← lateReached]
    exact Course.isPrefix_iterate fewerSteps
  refine ⟨grows, ?_⟩
  intro ended
  have same : late.course lateAnswered = early.course earlyAnswered := by
    rw [← lateReached, ← earlyReached]
    apply Course.iterate_of_isTerminal fewerSteps
    rw [earlyReached]
    exact ended
  refine ⟨congrArg Course.log same.symm, ?_⟩
  exact eq_of_stage_eq ended (congrArg Course.stage same.symm)

end Session

namespace Firmware

/-- However two hosts start, step, tick, pause and resume a sketch, if they give the same answers
then the history of the one begins with the history of the other, once requests are numbered in
the order in which they were made. If both runs are over, the histories are the same, and so are
the ways in which they ended and the final contexts. -/
theorem stepwise_equivalent (firmware : Firmware) (firstId secondId : Nat)
    (firstControls secondControls : List Control)
    (firstGoesOn : .stop ∉ firstControls) (secondGoesOn : .stop ∉ secondControls)
    (agree : ∀ (position : Nat) (left right : Primitive),
      (({ firmware, nextRequest := firstId } : Session).acceptedAlong firstControls)[position]? =
        some left →
      (({ firmware, nextRequest := secondId } : Session).acceptedAlong secondControls)[position]? =
        some right → left = right) :
    let first := ({ firmware, nextRequest := firstId } : Session).perform firstControls
    let second := ({ firmware, nextRequest := secondId } : Session).perform secondControls
    (first.log.renumbered.entries.toList <+: second.log.renumbered.entries.toList ∨
      second.log.renumbered.entries.toList <+: first.log.renumbered.entries.toList) ∧
    (first.status.isTerminal = true → second.status.isTerminal = true →
      first.log.renumbered = second.log.renumbered ∧ first.status = second.status) := by
  intro first second
  let answers := mergedAnswers
    (({ firmware, nextRequest := firstId } : Session).acceptedAlong firstControls)
    (({ firmware, nextRequest := secondId } : Session).acceptedAlong secondControls)
  obtain ⟨firstSteps, firstAnswered, firstReached⟩ :=
    Session.perform_course_of_new firmware firstId firstControls answers firstGoesOn
      fun position value found => mergedAnswers_of_left found
  obtain ⟨secondSteps, secondAnswered, secondReached⟩ :=
    Session.perform_course_of_new firmware secondId secondControls answers secondGoesOn
      fun position value found => mergedAnswers_of_right
        (fun other earlier => agree position other value earlier found) found
  rcases Nat.le_total firstSteps secondSteps with fewer | fewer
  · obtain ⟨grows, ends⟩ := Session.comparable fewer firstReached secondReached
    refine ⟨.inl grows, ?_⟩
    intro firstEnded _
    exact ends firstEnded
  · obtain ⟨grows, ends⟩ := Session.comparable fewer secondReached firstReached
    refine ⟨.inr grows, ?_⟩
    intro _ secondEnded
    obtain ⟨sameLog, sameStatus⟩ := ends secondEnded
    exact ⟨sameLog.symm, sameStatus.symm⟩

/-- A sketch whose `setup` reads a pin into a variable and counts the variable up. -/
def probe : Firmware where
  program := {
    nodes := #[
      ⟨.functionDef "setup" [] (.of .void) 1, ⟨1, 1⟩⟩,
      ⟨.block [2, 5], ⟨1, 14⟩⟩, ⟨.varDecl "level" (.of .int) (some 3) false false, ⟨2, 3⟩⟩,
      ⟨.call "analogRead" [4], ⟨2, 15⟩⟩, ⟨.intLiteral 3 false, ⟨2, 26⟩⟩, ⟨.exprStmt 6, ⟨3, 3⟩⟩,
      ⟨.incDec .postInc 7, ⟨3, 3⟩⟩,
      ⟨.identifier "level", ⟨3, 3⟩⟩]
    items := [0] }

def probeRun : List Control := [.start, .tick, .answer 1 (.int 742), .tick]

/-- A host that steps, changes its mind while a request is pending, and answers a request that
was never made. -/
def probeSteps : List Control :=
  [.step, .resume, .answer 41 (.int 0), .pause, .answer 40 (.int 742), .resume, .pause, .step]

theorem acceptedAlong_probeRun :
    ({ firmware := probe, nextRequest := 1 } : Session).acceptedAlong probeRun = [.int 742] := rfl

theorem acceptedAlong_probeSteps :
    ({ firmware := probe, nextRequest := 40 } : Session).acceptedAlong probeSteps = [.int 742] :=
  rfl

variable {position : Nat}

theorem probe_stepwise_equivalent :
    .stop ∉ probeRun ∧ .stop ∉ probeSteps ∧
      (({ firmware := probe, nextRequest := 1 } : Session).perform
        probeRun).status.isTerminal = true ∧
      (({ firmware := probe, nextRequest := 40 } : Session).perform
        probeSteps).status.isTerminal = true ∧
      (({ firmware := probe, nextRequest := 1 } : Session).perform probeRun).log.renumbered =
        (({ firmware := probe, nextRequest := 40 } : Session).perform probeSteps).log.renumbered ∧
      (({ firmware := probe, nextRequest := 1 } : Session).perform probeRun).status =
        (({ firmware := probe, nextRequest := 40 } : Session).perform probeSteps).status := by
  have runGoesOn : .stop ∉ probeRun := by simp [probeRun]
  have stepGoesOn : .stop ∉ probeSteps := by simp [probeSteps]
  have runEnds : (({ firmware := probe, nextRequest := 1 } : Session).perform
      probeRun).status.isTerminal = true := by
    decide +kernel
  have stepEnds : (({ firmware := probe, nextRequest := 40 } : Session).perform
      probeSteps).status.isTerminal = true := by
    decide +kernel
  have equivalent := stepwise_equivalent probe 1 40 probeRun probeSteps runGoesOn stepGoesOn (by
    rw [acceptedAlong_probeRun, acceptedAlong_probeSteps]
    intro position left right atLeft atRight
    exact Option.some.inj (atLeft.symm.trans atRight))
  exact ⟨runGoesOn, stepGoesOn, runEnds, stepEnds, equivalent.2 runEnds stepEnds⟩

end Firmware

end Breadboard
