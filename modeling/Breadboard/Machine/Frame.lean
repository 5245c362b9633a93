import Breadboard.Memory.Environment

/-!
The state of a run. What is left to do is a stack of frames and what has been
computed a stack of operands; both are lists with the top first. A run can stop
between any two frames and go on later.
-/

namespace Breadboard

inductive ProgramPhase where
  | globals (next : Nat)
  | setup
  | loop (completed : Nat)
  deriving DecidableEq

inductive LoopPhase where
  | cond
  /-- The condition's value is on the operand stack. -/
  | test
  /-- The body runs without a test, as `do` begins. -/
  | body
  /-- The body is done, or running above this frame. -/
  | advance
  deriving DecidableEq

inductive Frame where
  | program (phase : ProgramPhase)
  | exec (node : NodeId)
  | block (node : NodeId) (next : Nat) (hasScope : Bool)
  | discard
  | declare (node : NodeId)
  | construct (node : NodeId)
  | branch (node : NodeId)
  | loop (node : NodeId) (phase : LoopPhase) (iterations : Nat) (hasScope : Bool)
  | switchSelect (node : NodeId)
  | switch (node : NodeId) (arm next : Nat)
  | leave (node : NodeId)
  | call (function : NodeId) (argc : Nat) (loc : Location)
  /-- `height` is the number of operands below the call. -/
  | callReturn (returnType : DataType) (height : Nat) (returned : Bool) (loc : Location)
  | builtin (node : NodeId)
  | method (node : NodeId)
  | eval (node : NodeId)
  /-- Leaves the place of an expression as a pointer on the operand stack. -/
  | evalPlace (node : NodeId)
  | load (node : NodeId)
  | binary (node : NodeId)
  | logical (node : NodeId) (right : Bool)
  | unary (node : NodeId)
  | incDec (node : NodeId)
  | select (node : NodeId)
  | assign (node : NodeId)
  | compoundAssign (node : NodeId)
  | cast (node : NodeId)
  | collect (count : Nat)
  | indexPlace (node : NodeId) (fromPlace : Bool)
  | fieldPlace (node : NodeId)
  | derefPlace (node : NodeId) (fromPlace : Bool)
  deriving DecidableEq

/-- Whether a frame owns the innermost scope below those of the frames above it. -/
def Frame.ownsScope : Frame → Bool
  | .block _ _ hasScope => hasScope
  | .loop _ _ _ hasScope => hasScope
  | .switch _ _ _ => true
  | _ => false

structure Context where
  env : Environment
  frames : List Frame
  values : List Value
  random : UInt64

namespace Context

def serialPort : Variable where
  name := "Serial"
  type := .of (.library "Serial")
  value := .object ⟨"Serial", "Serial"⟩

def initial (seed : UInt64) : Context where
  env := { globals := #[serialPort], base := [("Serial", .global 0)] }
  frames := [.program (.globals 0)]
  values := []
  random := seed

end Context

end Breadboard
