import Breadboard.Session

/-!
A session as its host keeps it. The state, the context, the pending request and the channel are
fields of their own, which a control sets one after the other. A step has a state of its own while
it runs.
-/

namespace Breadboard

inductive HostState where
  | idle | running | stepping | paused | waiting | complete | error
  deriving DecidableEq

def HostState.isTerminal : HostState → Bool
  | .complete | .error => true
  | _ => false

/-- A request that has not been answered, and the state to enter once it is. -/
structure Outstanding where
  id : Nat
  request : Request
  target : HostState

structure Console (Listener : Type) where
  firmware : Firmware
  channel : Channel Listener := {}
  state : HostState := .idle
  context : Option Context := none
  pending : Option Outstanding := none
  /-- The number of the next request; numbers are not used again. -/
  nextRequest : Nat := 1

namespace Console

variable {Listener : Type} (console : Console Listener)

def emit (command : Command) : Console Listener :=
  { console with channel := console.channel.emit command }

def close : Console Listener :=
  { console with channel := console.channel.close }

def beginRun : Console Listener :=
  { console with
    channel := console.channel.reset
    pending := none
    context := some (.initial Session.defaultSeed) }.emit .programStart

def suspend (request : Request) : Console Listener :=
  let id := console.nextRequest
  let target := if console.state = .stepping then .paused else .running
  { console.emit (request.command id) with
    nextRequest := id + 1
    pending := some ⟨id, request, target⟩
    state := .waiting }

def finish : Console Listener :=
  { (console.emit .programEnd).close with state := .complete }

def reachLimit (iterations : Nat) : Console Listener :=
  ({ console with pending := none }.emit (.loopLimitReached iterations)).finish

def fail (fault : Fault) : Console Listener :=
  let command := .error fault.kind fault.message fault.location
  { ({ console with pending := none }.emit command).close with state := .error }

/-- Runs one unit and enters the state that its ending calls for. The context belongs to the unit
while that runs. -/
def settle (started : Bool) : Console Listener :=
  match console.context with
  | none => console
  | some ctx =>
      let result := console.firmware.runUnit started ctx
      let console := result.commands.foldl emit { console with context := none }
      let console := { console with context := some result.context }
      match result.ending with
      | .boundary | .exhausted => console
      | .suspended request => console.suspend request
      | .finished => console.finish
      | .loopLimit iterations => console.reachLimit iterations
      | .failed fault => console.fail fault

/-- A step that has not left its state is over. -/
def land : Console Listener :=
  if console.state = .stepping then { console with state := .paused } else console

def start : Bool × Console Listener :=
  if console.state = .idle then (true, { console.beginRun with state := .running })
  else (false, console)

def step : Bool × Console Listener :=
  match console.state with
  | .idle => (true, ({ console.beginRun with state := .stepping }.settle false).land)
  | .paused => (true, ({ console with state := .stepping }.settle false).land)
  | _ => (false, console)

def tick : Bool × Console Listener :=
  if console.state = .running then (true, console.settle false) else (false, console)

def retarget (target : HostState) : Bool × Console Listener :=
  match console.pending with
  | some pending => (true, { console with pending := some { pending with target } })
  | none => (false, console)

def pause : Bool × Console Listener :=
  match console.state with
  | .running => (true, { console with state := .paused })
  | .waiting => console.retarget .paused
  | _ => (false, console)

def resume : Bool × Console Listener :=
  match console.state with
  | .paused => (true, { console with state := .running })
  | .waiting => console.retarget .running
  | _ => (false, console)

def stop : Console Listener :=
  if console.state = .idle || console.state.isTerminal then console
  else { console.close with context := none, pending := none, state := .idle }

def answer (id : Nat) (value : Primitive) : Bool × Console Listener :=
  if console.state = .waiting && console.pending.any (·.id = id) then
    match console.pending, console.context with
    | some pending, some ctx =>
        let values := pending.request.response value :: ctx.values
        let state := if pending.target = .paused then .stepping else .running
        let console := { console with pending := none, context := some { ctx with values }, state }
        (true, (console.settle true).land)
    | _, _ => (false, { console with pending := none })
  else (false, console)

end Console

end Breadboard
