import Breadboard.Machine.Naming

/-!
Loops and switches. All loops cycle through the same phases; while the body runs,
the loop's frame waits below it. A switch selects an arm once and then goes
through the arms from there.
-/

namespace Breadboard

structure LoopParts where
  condition : Option NodeId
  body : NodeId
  increment : Option NodeId

def NodeKind.loop? : NodeKind → Option LoopParts
  | .whileLoop condition body => some ⟨some condition, body, none⟩
  | .doWhile body condition => some ⟨some condition, body, none⟩
  | .forLoop _ condition increment body => some ⟨condition, body, increment⟩
  | _ => none

/-- The first arm whose label has a value, else the first arm without a label. The
labels after the match are not looked at. -/
def selectArm (valueOf : NodeId → Except Fault Int64) (selector : Int64) :
    Nat → Option Nat → List SwitchCase → Except Fault (Option Nat)
  | _, fallback, [] => .ok fallback
  | index, fallback, arm :: rest =>
      match arm.label with
      | some label => do
          if (← valueOf label) = selector then .ok (some index)
          else selectArm valueOf selector (index + 1) fallback rest
      | none => selectArm valueOf selector (index + 1) (fallback.or (some index)) rest

namespace Act

def startBody (fw : Firmware) (node : NodeId) (parts : LoopParts) (iterations : Nat)
    (hasScope : Bool) (loc : Location) : Act Unit :=
  let start := schedule [.exec parts.body, .loop node .advance (iterations + 1) hasScope]
  match fw.config.maxInnerIterations with
  | some limit =>
      if limit ≤ iterations then raise (.iterationCap limit) loc else start
  | none => start

def runLoop (fw : Firmware) (node : NodeId) (phase : LoopPhase) (iterations : Nat)
    (hasScope : Bool) : Act Unit := do
  let loc := fw.program.location node
  match (fw.program.kind node).loop? with
  | none => unsupported (.wrongNode "loop") loc
  | some parts =>
      match phase with
      | .cond =>
          match parts.condition with
          | some condition => schedule [.eval condition, .loop node .test iterations hasScope]
          | none => do
              schedule [.loop node .test iterations hasScope]
              push (.bool true)
      | .test => do
          let holds ← truth (← pop loc) loc
          if holds then startBody fw node parts iterations hasScope loc
          else if hasScope then closeScope
          else pure ()
      | .body => startBody fw node parts iterations hasScope loc
      | .advance =>
          match parts.increment with
          | some increment =>
              schedule [.eval increment, .discard, .loop node .cond iterations hasScope]
          | none => schedule [.loop node .cond iterations hasScope]

def runSwitchSelect (fw : Firmware) (node : NodeId) : Act Unit := do
  let loc := fw.program.location node
  match fw.program.kind node with
  | .switch _ cases =>
      let value ← pop loc
      match value.wholeNumber? with
      | none => mismatch (.selector value.typeName) loc
      | some selector =>
          match selectArm (fw.labelValue (← environment)) selector 0 none cases with
          | .error fault => throw fault
          | .ok none => pure ()
          | .ok (some arm) => do
              openScope .block
              schedule [.switch node arm 0]
  | _ => unsupported (.wrongNode "switch") loc

def runSwitch (fw : Firmware) (node : NodeId) (arm next : Nat) : Act Unit := do
  match fw.program.kind node with
  | .switch _ cases =>
      match cases[arm]? with
      | none => closeScope
      | some current =>
          match current.body[next]? with
          | some statement => schedule [.exec statement, .switch node arm (next + 1)]
          | none => schedule [.switch node (arm + 1) 0]
  | _ => pure ()

end Act

end Breadboard
