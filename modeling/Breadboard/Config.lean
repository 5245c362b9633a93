/-!
Settings of a run. Two switches only affect diagnostics.
-/

namespace Breadboard

structure Config where
  verbose : Bool := false
  debug : Bool := false
  stepDelay : Nat := 0
  /-- How often the loop function runs before the run ends. -/
  maxLoopIterations : Nat := 3
  /-- How often the body of one loop statement may run, if that is bounded. -/
  maxInnerIterations : Option Nat := none
  deriving DecidableEq

end Breadboard
