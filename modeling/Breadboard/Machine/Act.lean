import Breadboard.Command.Command
import Breadboard.Config
import Breadboard.Machine.Conversion
import Breadboard.Machine.Frame
import Breadboard.Machine.Library
import Breadboard.Sketch.Macro

/-!
Acting on the state of a run. An act may fail, and what it had changed until then
stays changed. Beyond the state, one step of a run has at most one effect.
-/

namespace Breadboard

structure Firmware where
  program : Program
  macros : MacroTable := []
  library : Library := Library.standard
  config : Config := {}

def Firmware.structs (fw : Firmware) : StructTable := fw.program.structs

/-- What a step does besides changing the state. -/
inductive Effect where
  | quiet
  | emit (command : Command)
  /-- The run waits for data, whose value takes the place of the step's result. -/
  | request (request : Request)
  | loopLimit (iterations : Nat)

abbrev Act := EStateM Fault Context

namespace Act

def raise {α : Type} (cause : Cause) (loc : Location) : Act α := throw ⟨cause, loc⟩

def mismatch {α : Type} (fault : Mismatch) (loc : Location) : Act α :=
  raise (.typeMismatch fault) loc

def unsupported {α : Type} (construct : Unsupported) (loc : Location) : Act α :=
  raise (.unsupported construct) loc

def attempt {α : Type} (result : Except Cause α) (loc : Location) : Act α :=
  match result with
  | .ok value => pure value
  | .error cause => raise cause loc

def attemptMemory {α : Type} (result : Except MemoryError α) (loc : Location) : Act α :=
  match result with
  | .ok value => pure value
  | .error error => raise (.ofMemory error) loc

def environment : Act Environment := do
  pure (← get).env

def setEnvironment (env : Environment) : Act Unit := modify fun ctx => { ctx with env }

def push (value : Value) : Act Unit := modify fun ctx => { ctx with values := value :: ctx.values }

def pop (loc : Location) : Act Value := do
  let ctx ← get
  match ctx.values with
  | value :: rest => do
      set { ctx with values := rest }
      pure value
  | [] => unsupported .operandUnderflow loc

def drop : Act Unit := modify fun ctx => { ctx with values := ctx.values.drop 1 }

def popMany (count : Nat) (loc : Location) : Act (List Value) := do
  let ctx ← get
  if count ≤ ctx.values.length then
    set { ctx with values := ctx.values.drop count }
    pure (ctx.values.take count).reverse
  else unsupported .operandUnderflow loc

def truncate (height : Nat) : Act Unit :=
  modify fun ctx =>
    { ctx with values := ctx.values.drop (ctx.values.length - height) }

def schedule (frames : List Frame) : Act Unit :=
  modify fun ctx => { ctx with frames := frames ++ ctx.frames }

def openScope (kind : ScopeKind) : Act Unit :=
  modify fun ctx => { ctx with env := ctx.env.pushScope kind }

def closeScope : Act Unit := modify fun ctx => { ctx with env := ctx.env.popScope }

def truth (value : Value) (loc : Location) : Act Bool :=
  match value.truth? with
  | some truth => pure truth
  | none => mismatch (.condition value.typeName) loc

end Act

end Breadboard
