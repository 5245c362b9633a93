import Breadboard.Command.Log
import Breadboard.Machine.Step

/-!
A session: one sketch under the control of its host, which starts, steps, pauses
and stops it and answers its requests. A failure of the sketch ends the run and
never the session.
-/

namespace Breadboard

/-- Whether a run goes on by itself or waits for the host after every unit. -/
inductive Mode where
  | running | paused
  deriving DecidableEq

/-- A request that has not been answered. Once it is, the run goes on in `mode`. -/
structure Pending where
  id : Nat
  request : Request
  mode : Mode

/-- What a session is doing. A run has a state from its start until it is stopped. -/
inductive Status where
  | idle
  | active (mode : Mode) (ctx : Context)
  | waiting (pending : Pending) (ctx : Context)
  | complete (ctx : Context)
  | failed (ctx : Context)

namespace Status

def context? : Status → Option Context
  | .idle => none
  | .active _ ctx => some ctx
  | .waiting _ ctx => some ctx
  | .complete ctx => some ctx
  | .failed ctx => some ctx

def pending? : Status → Option Pending
  | .waiting pending _ => some pending
  | _ => none

def isIdle : Status → Bool
  | .idle => true
  | _ => false

end Status

structure Session where
  firmware : Firmware
  status : Status := .idle
  log : Log := {}
  /-- The number of the next request; numbers are not used again. -/
  nextRequest : Nat := 1

namespace Session

def defaultSeed : UInt64 := 1

def finish (session : Session) (ctx : Context) : Session :=
  { session with
    log := (session.log.emit .programEnd).close
    status := .complete ctx }

/-- Runs one unit and enters the state that its ending calls for. The session is idle
while the unit runs, so that the context belongs to the unit alone. -/
def settle (session : Session) (mode : Mode) (started : Bool) (ctx : Context) : Session :=
  let session := { session with status := .idle }
  let result := session.firmware.runUnit started ctx
  let session := { session with log := session.log.emitAll result.commands }
  match result.ending with
  | .boundary | .exhausted => { session with status := .active mode result.context }
  | .suspended request =>
      let id := session.nextRequest
      { session with
        log := session.log.emit (request.command id)
        nextRequest := id + 1
        status := .waiting ⟨id, request, mode⟩ result.context }
  | .finished => session.finish result.context
  | .loopLimit iterations =>
      { session with log := session.log.emit (.loopLimitReached iterations) }.finish
        result.context
  | .failed fault =>
      { session with
        log := (session.log.emit (.error fault.kind fault.message fault.location)).close
        status := .failed result.context }

def openingLog : Log := Log.emit {} .programStart

def start (session : Session) : Bool × Session :=
  match session.status with
  | .idle =>
      (true, { session with
        log := openingLog
        status := .active .running (.initial defaultSeed) })
  | _ => (false, session)

def step (session : Session) : Bool × Session :=
  match session.status with
  | .idle =>
      let session := { session with log := openingLog }
      (true, session.settle .paused false (.initial defaultSeed))
  | .active .paused ctx => (true, session.settle .paused false ctx)
  | _ => (false, session)

def tick (session : Session) : Bool × Session :=
  match session.status with
  | .active .running ctx => (true, session.settle .running false ctx)
  | _ => (false, session)

def pause (session : Session) : Bool × Session :=
  match session.status with
  | .active .running ctx => (true, { session with status := .active .paused ctx })
  | .waiting pending ctx =>
      (true, { session with status := .waiting { pending with mode := .paused } ctx })
  | _ => (false, session)

def resume (session : Session) : Bool × Session :=
  match session.status with
  | .active .paused ctx => (true, { session with status := .active .running ctx })
  | .waiting pending ctx =>
      (true, { session with status := .waiting { pending with mode := .running } ctx })
  | _ => (false, session)

def stop (session : Session) : Session :=
  match session.status with
  | .active _ _ => { session with log := session.log.close, status := .idle }
  | .waiting _ _ => { session with log := session.log.close, status := .idle }
  | _ => session

end Session

/-- The integer in an answer; a text counts if it is a numeral. -/
def Primitive.toInteger : Primitive → Int64
  | .int n => n
  | .float x => x.toInt64
  | .bool b => if b then 1 else 0
  | .text string => (Text.readInt64? 10 (Text.trim string.toList)).getD 0
  | .list _ => 0

def Request.response (request : Request) (answer : Primitive) : Value :=
  match request with
  | .analogRead _ | .digitalRead _ => .int answer.toInteger.toInt32
  | .millis | .micros => .unsigned answer.toInteger.toUInt64.toUInt32
  | .method _ _ _ _ => .ofPrimitive answer

namespace Session

/-- Answers the pending request and finishes the unit that made it. Answers to other
requests are ignored. -/
def answer (session : Session) (id : Nat) (value : Primitive) : Bool × Session :=
  match session.status with
  | .waiting pending ctx =>
      if pending.id = id then
        let ctx :=
          { ctx with values := pending.request.response value :: ctx.values }
        (true, session.settle pending.mode true ctx)
      else (false, session)
  | _ => (false, session)

def runUntilBlocked : Nat → Session → Session
  | 0, session => session
  | fuel + 1, session =>
      match session.tick with
      | (true, session) => runUntilBlocked fuel session
      | (false, session) => session

def advance (session : Session) : Mode → Bool × Session
  | .running => if session.status.isIdle then session.start else session.tick
  | .paused => session.step

/-- What a host does that answers requests at once. It sees the log and may keep a
state of its own. -/
abbrev Responder (Host : Type) := Host → Log → Request → Primitive × Host

/-- One move of a host: it answers the pending request or lets the run go on. There is
none once the run has ended or is in the other mode, and the host is told so by
getting nothing back. -/
def move {Host : Type} (session : Session) (mode : Mode) (respond : Responder Host)
    (host : Host) : Option Host × Session :=
  match session.status with
  | .waiting pending _ =>
      let (value, host) := respond host session.log pending.request
      (some host, (session.answer pending.id value).2)
  | _ =>
      match session.advance mode with
      | (true, session) => (some host, session)
      | (false, session) => (none, session)

def drive {Host : Type} (mode : Mode) (respond : Responder Host) : Nat → Host → Session → Session
  | 0, _, session => session
  | fuel + 1, host, session =>
      match session.move mode respond host with
      | (some host, session) => drive mode respond fuel host session
      | (none, session) => session

def listedAnswers : Responder (List Primitive)
  | answer :: rest, _, _ => (answer, rest)
  | [], _, _ => (.int 0, [])

def runOn (session : Session) (fuel : Nat) (answers : List Primitive) : Session :=
  drive .running listedAnswers fuel answers session

end Session

end Breadboard
