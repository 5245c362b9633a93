import Breadboard.Machine.Reading

/-!
Calls and jumps. A jump takes frames off the stack, and every frame that goes
closes the scope it owns.
-/

namespace Breadboard

/-- Takes frames off until one satisfies `stop`, which stays. Yields the scopes that
are left and the frames from that one on. -/
def unwind (stop : Frame → Bool) (env : Environment) : List Frame → Environment × List Frame
  | [] => (env, [])
  | frame :: rest =>
      if stop frame then (env, frame :: rest)
      else unwind stop (if frame.ownsScope then env.popScope else env) rest

namespace Frame

def isBarrier : Frame → Bool
  | .callReturn .. | .program _ => true
  | _ => false

def stopsBreak : Frame → Bool
  | .loop .. | .switch .. => true
  | frame => frame.isBarrier

def stopsContinue : Frame → Bool
  | .loop .. => true
  | frame => frame.isBarrier

end Frame

namespace Act

def unwindTo (stop : Frame → Bool) : Act (Option Frame) := do
  let ctx ← get
  let (env, frames) := unwind stop ctx.env ctx.frames
  set { ctx with env, frames }
  pure frames.head?

def release : Act Unit := do
  let ctx ← get
  match ctx.frames with
  | [] => pure ()
  | frame :: rest =>
      set { ctx with
        frames := rest
        env := if frame.ownsScope then ctx.env.popScope else ctx.env }

def bindParameters (fw : Firmware) (loc : Location) : List Field → List Value → Act Unit
  | param :: params, arg :: args => do
      let value ← convert fw arg param.type loc
      let env ← environment
      let declared : Variable := { name := param.name, type := param.type, value }
      let (_, env) ← attemptMemory (env.declare declared) loc
      setEnvironment env
      bindParameters fw loc params args
  | _, _ => pure ()

def enterFunction (fw : Firmware) (function : NodeId) (args : List Value)
    (loc : Location) : Act Unit := do
  match fw.program.kind function with
  | .functionDef name params returnType body =>
      if args.length ≠ params.length then
        raise (.argumentCount name params.length args.length) loc
      else
        openScope .function
        schedule [.callReturn returnType (← get).values.length false loc]
        bindParameters fw loc params args
        schedule [.block body 0 false]
  | _ => unsupported .callOfNonFunction loc

def finishCall (fw : Firmware) (returnType : DataType) (height : Nat)
    (returned : Bool) (loc : Location) : Act Unit := do
  let value ← if returned then pop loc else pure (returnType.default fw.structs)
  truncate height
  closeScope
  push (← convert fw value returnType loc)

def returnValue (value : Value) (loc : Location) : Act Unit := do
  match ← unwindTo Frame.isBarrier with
  | some (.callReturn returnType height _ callLocation) =>
      truncate height
      push value
      modify fun ctx => { ctx with
        frames := .callReturn returnType height true callLocation :: ctx.frames.tail }
  | _ => unsupported .returnOutsideFunction loc

def leaveFunction (fw : Firmware) (node : NodeId) : Act Unit := do
  let loc := fw.program.location node
  let value ←
    match fw.program.kind node with
    | .returnStmt (some _) => pop loc
    | _ => pure .void
  returnValue value loc

def breakLoop (loc : Location) : Act Unit := do
  match ← unwindTo Frame.stopsBreak with
  | some (.loop ..) => release
  | some (.switch ..) => release
  | _ => unsupported .breakOutsideLoop loc

def continueLoop (loc : Location) : Act Unit := do
  match ← unwindTo Frame.stopsContinue with
  | some (.loop ..) => pure ()
  | _ => unsupported .continueOutsideLoop loc

end Act

end Breadboard
