import Breadboard.Machine.Expression
import Breadboard.Machine.Loop
import Breadboard.Machine.Statement

/-!
Steps and units of a run. A step takes the frame on top and acts on it. A unit
goes on up to the next boundary: the start of a statement, the next test of a
loop, or the next call of the loop function.
-/

namespace Breadboard

def NodeKind.armCount : NodeKind → Nat
  | .switch _ cases => cases.length
  | _ => 0

def NodeKind.isGlobal : NodeKind → Bool
  | .varDecl .. | .objectDecl .. | .declGroup _ => true
  | _ => false

def Program.nextGlobal? (program : Program) (next : Nat) : Option (NodeId × Nat) :=
  let isGlobal (entry : NodeId × Nat) : Bool := (program.kind entry.1).isGlobal
  ((program.items.zipIdx.drop next).find? isGlobal).map fun (item, index) => (item, index + 1)

namespace Act

def callMain (fw : Firmware) (function : NodeId) : Act Unit := do
  schedule [.discard]
  enterFunction fw function [] (fw.program.location function)

def runProgram (fw : Firmware) : ProgramPhase → Act Effect
  | .globals next => do
      match fw.program.nextGlobal? next with
      | some (item, after) => schedule [.exec item, .program (.globals after)]
      | none => schedule [.program .setup]
      pure .quiet
  | .setup => do
      schedule [.program (.loop 0)]
      match fw.program.function? "setup" with
      | some function => callMain fw function
      | none => pure ()
      pure .quiet
  | .loop completed =>
      match fw.program.function? "loop" with
      | none => pure .quiet
      | some function => do
          if fw.config.maxLoopIterations ≤ completed then
            pure (.loopLimit completed)
          else
            schedule [.program (.loop (completed + 1))]
            callMain fw function
            pure .quiet

def runCallFrame (fw : Firmware) (node : NodeId) : Act Effect := do
  let loc := fw.program.location node
  match fw.program.kind node with
  | .call callee args =>
      let values ← popMany args.length loc
      match Builtin.ofName? callee with
      | some builtin => runBuiltin builtin values loc
      | none => raise (.undefinedFunction callee) loc
  | _ => unsupported (.wrongNode "call") loc

def runMethodFrame (fw : Firmware) (node : NodeId) : Act Effect := do
  let loc := fw.program.location node
  match fw.program.kind node with
  | .methodCall _ method args =>
      match ← popMany (args.length + 1) loc with
      | receiver :: values => runMethod fw receiver method values loc
      | [] => unsupported .operandUnderflow loc
  | _ => unsupported (.wrongNode "method call") loc

def runFrame (fw : Firmware) (frame : Frame) : Act Effect := do
  let quietly (act : Act Unit) : Act Effect := do
    act
    pure .quiet
  match frame with
  | .program phase => runProgram fw phase
  | .exec node => exec fw node
  | .block node next hasScope => quietly (runBlock fw node next hasScope)
  | .discard => quietly drop
  | .declare node => do
      let value ← pop (fw.program.location node)
      declareVariable fw node (some value)
  | .construct node => constructObject fw node
  | .branch node => quietly (runBranch fw node)
  | .loop node phase iterations hasScope => quietly (runLoop fw node phase iterations hasScope)
  | .switchSelect node => quietly (runSwitchSelect fw node)
  | .switch node arm next => quietly (runSwitch fw node arm next)
  | .leave node => quietly (leaveFunction fw node)
  | .call function argc loc => do
      let args ← popMany argc loc
      quietly (enterFunction fw function args loc)
  | .callReturn returnType height returned loc =>
      quietly (finishCall fw returnType height returned loc)
  | .builtin node => runCallFrame fw node
  | .method node => runMethodFrame fw node
  | .eval node => quietly (eval fw node)
  | .evalPlace node => quietly (evalPlace fw node)
  | .load node => quietly (runLoad fw node)
  | .binary node => quietly (runBinary fw node)
  | .logical node right => quietly (runLogical fw node right)
  | .unary node => quietly (runUnary fw node)
  | .incDec node => runIncDec fw node
  | .select node => quietly (runSelect fw node)
  | .assign node => runAssign fw node
  | .compoundAssign node => runCompoundAssign fw node
  | .cast node => quietly (runCast fw node)
  | .collect count => do
      let items ← popMany count ⟨0, 0⟩
      push (.array items)
      pure .quiet
  | .indexPlace node fromPlace => quietly (runIndexPlace fw node fromPlace)
  | .fieldPlace node => quietly (runFieldPlace fw node)
  | .derefPlace node fromPlace => quietly (runDerefPlace fw node fromPlace)

end Act

def Firmware.isBoundary (fw : Firmware) : Frame → Bool
  | .exec node =>
      match fw.program.kind node with
      | .block _ | .declGroup _ => false
      | _ => true
  | .loop _ .cond iterations _ => 0 < iterations
  | .program (.loop completed) => 0 < completed
  | _ => false

inductive Ending where
  | boundary
  | exhausted
  | suspended (request : Request)
  | finished
  | loopLimit (iterations : Nat)
  | failed (fault : Fault)

structure UnitResult where
  context : Context
  commands : List Command
  ending : Ending

def Firmware.step (fw : Firmware) (ctx : Context) (frame : Frame)
    (rest : List Frame) : EStateM.Result Fault Context Effect :=
  Act.runFrame fw frame { ctx with frames := rest }

/-- Runs frames up to a boundary. `started` says that the unit is under way, so that
the next boundary ends it; `emitted` holds its commands so far, last first. -/
def Firmware.runFrames (fw : Firmware) : Nat → Bool → List Command → Context → UnitResult
  | 0, _, emitted, ctx => ⟨ctx, emitted.reverse, .exhausted⟩
  | fuel + 1, started, emitted, ctx =>
      match ctx.frames with
      | [] => ⟨ctx, emitted.reverse, .finished⟩
      | frame :: rest =>
          let atBoundary := fw.isBoundary frame
          if atBoundary && started then ⟨ctx, emitted.reverse, .boundary⟩
          else
            match fw.step ctx frame rest with
            | .error fault ctx => ⟨ctx, emitted.reverse, .failed fault⟩
            | .ok effect ctx =>
                let started := started || atBoundary
                match effect with
                | .quiet => runFrames fw fuel started emitted ctx
                | .emit command => runFrames fw fuel started (command :: emitted) ctx
                | .request request => ⟨ctx, emitted.reverse, .suspended request⟩
                | .loopLimit iterations => ⟨ctx, emitted.reverse, .loopLimit iterations⟩

/-- The nodes of a program and the arms of its switches, with room for the frames
that belong to no node. -/
def Program.weight (program : Program) : Nat :=
  program.nodes.foldl (fun total node => total + 1 + node.kind.armCount) 4

/-- More steps than a unit can take: between two boundaries every frame on the stack
runs at most the expressions below its node, and each of those calls at most
functions that have no statement to stop at. -/
def Firmware.unitBound (fw : Firmware) (ctx : Context) : Nat :=
  let weight := fw.program.weight
  (ctx.frames.length + 1) * (16 * weight * weight + 4 * weight * fw.program.items.length)

def Firmware.runUnit (fw : Firmware) (started : Bool) (ctx : Context) : UnitResult :=
  fw.runFrames (fw.unitBound ctx) started [] ctx

end Breadboard
