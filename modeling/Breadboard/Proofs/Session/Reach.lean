import Breadboard.Proofs.Machine.Mirror
import Breadboard.Proofs.Machine.Upkeep
import Breadboard.Session

/-!
What a run can reach under any control of its host. `Firmware.Reaches` holds of the
contexts between two steps, whatever the host answers, and every context that a session
holds is one of them. In all of them the stacks balance and the scopes mirror the
frames, and a discipline that the start is under is kept.
-/

open List

namespace Breadboard

open Session

def Effect.request? : Effect → Option Request
  | .request asked => some asked
  | _ => none

namespace Firmware

variable {ctx : Context} {pending : Option Request} {onward : Option Request} {later : Context}
  {frame : Frame} {rest : List Frame}

/-- The contexts between the steps of a run, with the request that is still to be answered. -/
inductive Reaches (fw : Firmware) : Option Request → Context → Prop where
  | start : Reaches fw none (.initial defaultSeed)
  | step {ctx next frame rest effect} : Reaches fw none ctx → ctx.frames = frame :: rest →
      fw.step ctx frame rest = .ok effect next → Reaches fw effect.request? next
  | answer {ctx request} (value : Primitive) :
      Reaches fw (some request) ctx →
      Reaches fw none { ctx with values := request.response value :: ctx.values }

/-- From one context of a run to a later one, by steps that are allowed. Answers always are. -/
inductive Leads (fw : Firmware) (allowed : Context → Frame → Context → Prop)
    (pending : Option Request) (ctx : Context) : Option Request → Context → Prop where
  | refl : Leads fw allowed pending ctx pending ctx
  | step {before next frame rest effect} :
      Leads fw allowed pending ctx none before → before.frames = frame :: rest →
      fw.step before frame rest = .ok effect next → allowed before frame next →
      Leads fw allowed pending ctx effect.request? next
  | answer {before request} (value : Primitive) :
      Leads fw allowed pending ctx (some request) before →
      Leads fw allowed pending ctx none
        { before with values := request.response value :: before.values }

/-- The failures of steps from what a run reaches, with the contexts that they leave. -/
def Fails (fw : Firmware) (fault : Fault) (final : Context) : Prop :=
  ∃ ctx frame rest, fw.Reaches none ctx ∧ ctx.frames = frame :: rest ∧
    fw.step ctx frame rest = .error fault final

variable {fw : Firmware}

theorem Leads.reaches (leads : fw.Leads allowed pending ctx onward later)
    (reached : fw.Reaches pending ctx) : fw.Reaches onward later := by
  induction leads with
  | refl => exact reached
  | step _ top out _ ih => exact ih.step top out
  | answer value _ ih => exact ih.answer value

theorem Leads.mono (leads : fw.Leads allowed pending ctx onward later)
    (weaker : ∀ before frame next, allowed before frame next → permitted before frame next) :
    fw.Leads permitted pending ctx onward later := by
  induction leads with
  | refl => exact .refl
  | step _ top out passes ih =>
    exact ih.step top out (weaker _ _ _ passes)
  | answer value _ ih => exact ih.answer value

theorem Balanced.initial (seed : UInt64) : fw.Balanced 0 (.initial seed) where
  suited := by simp [Context.initial, Suits]
  layered := ⟨rfl, trivial⟩
  operands := rfl

theorem Balanced.answered (value : Value) (balanced : fw.Balanced 1 ctx) :
    fw.Balanced 0 { ctx with values := value :: ctx.values } :=
  ⟨balanced.suited, balanced.layered, balanced.operands⟩

theorem request?_owed (effect : Effect) : effect.request?.isSome.toNat = effect.owed := by
  cases effect <;> rfl

/-- What a step does from a context where the stacks balance and the scopes mirror the frames. -/
theorem step_meets (top : ctx.frames = frame :: rest) (balanced : fw.Balanced 0 ctx) :
    (Act.runFrame fw frame).Meets { ctx with frames := rest }
      (fun effect next => Stepped fw frame { ctx with frames := rest } effect next ∧
        fw.Balanced effect.owed next ∧
        ∀ iters, effect = .loopLimit iters → next.frames = [])
      (Act.Fair frame) := by
  apply Balanced.step
  rw [← top]
  exact balanced

/-- Along a run the stacks balance and the scopes mirror the frames. -/
theorem Reaches.balanced_and_mirrors (reached : fw.Reaches pending ctx) :
    fw.Balanced pending.isSome.toNat ctx ∧ ctx.Mirrors := by
  induction reached with
  | start => exact ⟨.initial _, rfl, rfl⟩
  | @step ctx next frame rest effect _ top out ih =>
    obtain ⟨balanced, mirrors⟩ := ih
    obtain ⟨stepped, after, -⟩ := (step_meets top balanced).of_ok out
    rw [request?_owed]
    refine ⟨after, stepped.mirrors ?_⟩
    rw [← top]
    exact mirrors
  | answer value _ ih =>
    obtain ⟨balanced, mirrors⟩ := ih
    exact ⟨balanced.answered _, mirrors.kinds, mirrors.ground⟩

theorem Reaches.balanced (reached : fw.Reaches none ctx) :
    fw.Balanced 0 ctx := reached.balanced_and_mirrors.1

theorem Fails.unsupported (fails : fw.Fails fault final)
    (cause : fault.cause = .unsupported construct) :
    (Cause.unsupported construct).isOwn = false := by
  obtain ⟨ctx, frame, rest, reached, top, out⟩ := fails
  rcases (step_meets top reached.balanced).of_error out with fair | ⟨_, _, _, _, _, -, capped⟩
  · exact cause ▸ fair
  · cases cause.symm.trans capped

theorem Reaches.frames_eq_nil {next} (reached : fw.Reaches none ctx)
    (top : ctx.frames = frame :: rest)
    (out : fw.step ctx frame rest = .ok (.loopLimit iters) next) : next.frames = [] := by
  obtain ⟨-, -, atLimit⟩ := (step_meets top reached.balanced).of_ok out
  exact atLimit iters rfl

theorem response_operand (disc : Discipline fw) (request : Request)
    (answer : Primitive) : disc.operand (request.response answer) := by
  cases request with
  | method => exact disc.ofPrimitive answer
  | _ => exact disc.bare rfl

/-- What is asked of a discipline that is to last for a run. -/
structure Lasting (disc : Discipline fw) : Prop where
  grows : disc.Grows
  closes : disc.Closes
  sees : ∀ env, disc.memory env → disc.Sees env
  frames : ∀ frame, disc.frame frame
  initial : ∀ seed, disc.memory (Context.initial seed).env

namespace Lasting

variable {disc : Discipline fw} {ctx : Context}

theorem step_keeps (lasting : Lasting disc) (frame : Frame) (rest : List Frame)
    (holds : disc.Holds true ctx) :
    (Act.runFrame fw frame).KeepsAt disc false { ctx with frames := rest } Effect.Reports :=
  Act.keepsAt_runFrame frame (fun _ => lasting.grows) (fun _ => lasting.closes)
    ⟨holds.memory, holds.operands, fun _ _ _ => lasting.frames _⟩
    fun _ => lasting.sees _ holds.memory

theorem reaches (lasting : Lasting disc) (reached : fw.Reaches pending ctx) :
    disc.Holds true ctx := by
  induction reached with
  | start => exact ⟨lasting.initial _, nofun, fun _ _ _ => lasting.frames _⟩
  | @step ctx next frame rest effect _ _ out ih =>
    obtain ⟨-, kept⟩ := (lasting.step_keeps frame rest ih).of_ok out
    exact ⟨kept.memory, kept.operands, fun _ _ _ => lasting.frames _⟩
  | @answer ctx request value _ ih =>
    obtain ⟨memory, opds, frames⟩ := ih
    have operand := response_operand disc request value
    exact ⟨memory, forall_mem_cons.mpr ⟨operand, opds⟩, frames⟩

theorem fails (lasting : Lasting disc) (fails : fw.Fails fault final) : disc.Holds true final := by
  obtain ⟨ctx, frame, rest, reached, -, out⟩ := fails
  exact (lasting.step_keeps frame rest (lasting.reaches reached)).of_error out

end Lasting

def Result (fw : Firmware) (res : UnitResult) : Prop :=
  match res.ending with
  | .boundary | .exhausted => fw.Reaches none res.context
  | .suspended request => fw.Reaches (some request) res.context
  | .finished | .loopLimit _ =>
    fw.Reaches none res.context ∧ res.context.frames = []
  | .failed fault => fw.Fails fault res.context

theorem Reaches.runFrames (fuel : Nat) (started : Bool) (emitted : List Command)
    (reached : fw.Reaches none ctx) : fw.Result (fw.runFrames fuel started emitted ctx) := by
  fun_induction fw.runFrames fuel started emitted ctx with
  | case1 | case3 => exact reached
  | case2 _ _ _ _ done => exact ⟨reached, done⟩
  | case4 _ _ _ _ _ _ top _ _ _ _ out => exact ⟨_, _, _, reached, top, out⟩
  | case5 _ _ _ _ _ _ top _ _ _ _ out ih | case6 _ _ _ _ _ _ top _ _ _ _ _ out ih =>
    exact ih (reached.step top out)
  | case7 _ _ _ _ _ _ top _ _ _ _ out => exact reached.step top out
  | case8 _ _ _ _ _ _ top _ _ _ _ out =>
    exact ⟨reached.step top out, reached.frames_eq_nil top out⟩

end Firmware

inductive Control where
  | start | step | tick | pause | resume | stop
  | answer (id : Nat) (value : Primitive)

namespace Session

def control (s : Session) : Control → Session
  | .start => s.start.2
  | .step => s.step.2
  | .tick => s.tick.2
  | .pause => s.pause.2
  | .resume => s.resume.2
  | .stop => s.stop
  | .answer id value => (s.answer id value).2

def perform (s : Session) (controls : List Control) : Session :=
  controls.foldl control s

/-- The value of a control that answers the pending request. -/
def accepted? (s : Session) : Control → Option Primitive
  | .answer id value => if s.status.pending?.any (·.id = id) then some value else none
  | _ => none

def begun (s : Session) (mode : Mode) : Session :=
  { s with log := openingLog, status := .active mode (.initial defaultSeed) }

/-- All that a control can do to a session, with the value of an answer that it accepts. -/
inductive Moves (s : Session) : Control → Option Primitive → Session → Prop where
  | ignored {control} : Moves s control none s
  | begun {control} : s.status = .idle → Moves s control none (s.begun .running)
  | begunStep {control} : s.status = .idle → Moves s control none
        ((s.begun .paused).settle .paused false (.initial defaultSeed))
  | ran {control mode ctx} : s.status = .active mode ctx →
      Moves s control none (s.settle mode false ctx)
  | switched {control before after ctx} :
      s.status = .active before ctx →
      Moves s control none { s with status := .active after ctx }
  | retargeted {control pending ctx} (mode : Mode) :
      s.status = .waiting pending ctx →
      Moves s control none { s with status := .waiting { pending with mode } ctx }
  | stopped : Moves s .stop none { s with log := s.log.close, status := .idle }
  | answered {control pending ctx} (value : Primitive) :
      s.status = .waiting pending ctx →
      Moves s control (some value) (s.settle pending.mode true
        { ctx with values := pending.request.response value :: ctx.values })

theorem control_moves (s : Session) (control : Control) :
    Moves s control (s.accepted? control) (s.control control) := by
  cases control with
  | start =>
    simp only [accepted?, control, start]
    split
    · exact .begun ‹_›
    · exact .ignored
  | step =>
    simp only [accepted?, control, step]
    split
    · exact .begunStep ‹_›
    · exact .ran ‹_›
    · exact .ignored
  | tick =>
    simp only [accepted?, control, tick]
    split
    · exact .ran ‹_›
    · exact .ignored
  | pause =>
    simp only [accepted?, control, pause]
    split
    · exact .switched ‹_›
    · exact .retargeted .paused ‹_›
    · exact .ignored
  | resume =>
    simp only [accepted?, control, resume]
    split
    · exact .switched ‹_›
    · exact .retargeted .running ‹_›
    · exact .ignored
  | stop =>
    simp only [accepted?, control, stop]
    split
    · exact .stopped
    · exact .stopped
    · exact .ignored
  | answer id value =>
    cases status : s.status with
    | waiting pending ctx =>
      by_cases pends : pending.id = id
      · simpa [accepted?, control, answer, status, Status.pending?, pends] using
          Moves.answered value status
      · simpa [accepted?, control, answer, status, Status.pending?, pends] using Moves.ignored
    | _ =>
      simpa [accepted?, control, answer, status, Status.pending?] using Moves.ignored

end Session

/-- The context of a session has been reached, and once the run is complete there is nothing
left to do. -/
def Status.Reached (fw : Firmware) : Status → Prop
  | .idle => True
  | .active _ ctx => fw.Reaches none ctx
  | .waiting pending ctx => fw.Reaches (some pending.request) ctx
  | .complete ctx => fw.Reaches none ctx ∧ ctx.frames = []
  | .failed ctx => ∃ fault, fw.Fails fault ctx

/-- What a session holds is what a run reaches or what a failure leaves. -/
theorem Status.Reached.context {status : Status} (reached : status.Reached fw)
    (held : status.context? = some ctx) :
    (∃ pending, fw.Reaches pending ctx) ∨ ∃ fault, fw.Fails fault ctx := by
  cases status with
  | idle => cases held
  | active | waiting =>
    cases held
    exact .inl ⟨_, reached⟩
  | complete =>
    cases held
    exact .inl ⟨_, reached.1⟩
  | failed =>
    cases held
    exact .inr reached

namespace Session

variable {s next : Session} {accepted : Option Primitive}

theorem settle_firmware (s : Session) (mode : Mode) (started : Bool) (ctx : Context) :
    (s.settle mode started ctx).firmware = s.firmware := by
  unfold settle
  dsimp only
  split <;> rfl

theorem settle_reached (reached : s.firmware.Reaches none ctx) :
    (s.settle mode started ctx).status.Reached s.firmware := by
  have unit := reached.runFrames (s.firmware.unitBound ctx) started []
  unfold Firmware.Result at unit
  unfold settle Firmware.runUnit
  dsimp only
  cases ending : (s.firmware.runFrames (s.firmware.unitBound ctx) started [] ctx).ending with
      rw [ending] at unit
  | failed fault => exact ⟨fault, unit⟩
  | _ => exact unit

theorem Moves.firmware {control : Control}
    (moves : Moves s control accepted next) : next.firmware = s.firmware := by
  cases moves with
  | begunStep | ran | answered => exact settle_firmware ..
  | _ => rfl

theorem perform_firmware (s : Session) (controls : List Control) :
    (s.perform controls).firmware = s.firmware := by
  induction controls generalizing s with
  | nil => rfl
  | cons control controls ih =>
    exact (ih _).trans (s.control_moves control).firmware

theorem Moves.reached {control : Control} (moves : Moves s control accepted next)
    (reached : s.status.Reached s.firmware) : next.status.Reached s.firmware := by
  cases moves with
  | ignored => exact reached
  | begun => exact .start
  | begunStep => exact settle_reached .start
  | stopped => trivial
  | ran status =>
    rw [status] at reached
    exact settle_reached reached
  | switched status | retargeted _ status =>
    rw [status] at reached
    exact reached
  | answered value status =>
    rw [status] at reached
    exact settle_reached (reached.answer value)

/-- Whatever a host does, the context of the session is one that a run reaches. -/
theorem perform_reached (controls : List Control) (reached : s.status.Reached s.firmware) :
    (s.perform controls).status.Reached s.firmware := by
  induction controls generalizing s with
  | nil => exact reached
  | cons control controls ih =>
    have moves := s.control_moves control
    have next := moves.reached reached
    rw [← moves.firmware] at next ⊢
    exact ih next

end Session

namespace Firmware

variable {ctx : Context}

theorem values_eq_nil_of_frames_eq_nil {fw : Firmware}
    (balanced : fw.Balanced 0 ctx) (done : ctx.frames = []) : ctx.values = [] := by
  have opds := balanced.operands
  rw [done] at opds
  exact length_eq_zero_iff.mp (Option.some.inj opds)

/-- The operands are always those that the frames will take off, with one to come while a
request is pending. So no step lacks an operand, and none is left when a run is complete. -/
theorem operands_balance (firmware : Firmware) :
    (∀ pending context, firmware.Reaches pending context →
      firmware.operandsAfter context.frames
        (context.values.length + pending.isSome.toNat) = some 0) ∧
    (∀ fault final, firmware.Fails fault final →
      fault.cause ≠ .unsupported .operandUnderflow) ∧
    ∀ nextRequest controls,
      let session := ({ firmware, nextRequest } : Session).perform controls
      session.status.Reached firmware ∧
        ∀ context, session.status = .complete context → context.values = [] := by
  refine ⟨?_, ?_, ?_⟩
  · intro pending context reached
    exact reached.balanced_and_mirrors.1.operands
  · rintro fault final fails underflow
    cases fails.unsupported underflow
  · intro nextRequest controls session
    have reached : session.status.Reached firmware := Session.perform_reached controls trivial
    refine ⟨reached, ?_⟩
    intro context complete
    rw [complete] at reached
    exact values_eq_nil_of_frames_eq_nil reached.1.balanced reached.2

theorem locals_eq_empty_of_scopeKinds_eq_nil (mirrors : ctx.Mirrors)
    (unscoped : scopeKinds ctx.frames = []) : ctx.env.scopes = [] ∧ ctx.env.locals = #[] := by
  have kinds := mirrors.kinds
  rw [unscoped, map_eq_nil_iff] at kinds
  have ground := mirrors.ground
  rw [Environment.floor, Environment.outline, kinds] at ground
  exact ⟨kinds, Array.eq_empty_of_size_eq_zero ground⟩

theorem locals_eq_empty_of_frames_eq_nil (mirrors : ctx.Mirrors) (done : ctx.frames = []) :
    ctx.env.scopes = [] ∧ ctx.env.locals = #[] :=
  locals_eq_empty_of_scopeKinds_eq_nil mirrors (done ▸ scopeKinds_nil)

/-- The kinds of the open scopes, outermost first, are those of the frames that own a scope, from
the bottom up. A jump closes just the scopes of the frames that it takes off, and a complete run
has no scope and no local left. -/
theorem scopes_mirror_frames (firmware : Firmware) :
    (∀ pending context, firmware.Reaches pending context →
      (context.env.scopes.map Scope.kind).reverse = scopeKinds context.frames.reverse) ∧
    (∀ context frame rest effect next, firmware.Reaches none context →
      context.frames = frame :: rest → firmware.isJump frame = true →
      firmware.step context frame rest = .ok effect next →
      ∃ discarded kept, rest = discarded ++ kept ∧
        next.env.scopes = context.env.scopes.drop (scopeKinds discarded).length ∧
        (next.frames = kept ∨ ∃ returnType height returned location below,
          kept = .callReturn returnType height returned location :: below ∧
          next.frames = .callReturn returnType height true location :: below)) ∧
    ∀ nextRequest controls,
      let session := ({ firmware, nextRequest } : Session).perform controls
      session.status.Reached firmware ∧
        ∀ context, session.status = .complete context →
          context.env.scopes = [] ∧ context.env.locals = #[] := by
  refine ⟨?_, ?_, ?_⟩
  · intro pending context reached
    rw [reached.balanced_and_mirrors.2.kinds, scopeKinds, scopeKinds, filterMap_reverse]
  · intro context frame rest effect next reached top jumps outcome
    obtain ⟨stepped, -⟩ := (step_meets top reached.balanced).of_ok outcome
    obtain ⟨discarded, kept, split, inside, env, -, frames⟩ := (stepped.jump jumps).releases
    refine ⟨discarded, kept, split, ?_, frames⟩
    rw [env, Environment.release_scopes _ inside]
  · intro nextRequest controls session
    have reached : session.status.Reached firmware := Session.perform_reached controls trivial
    refine ⟨reached, ?_⟩
    intro context complete
    rw [complete] at reached
    exact locals_eq_empty_of_frames_eq_nil reached.1.balanced_and_mirrors.2 reached.2

end Firmware

end Breadboard
