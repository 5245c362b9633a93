import Breadboard.Sketch.Grammar.Statement
import Breadboard.Sketch.Macro

/-!
Sketches: a program together with the macros of its source. The numbers that reading a source
computes by itself, which are the depths of pointers, folded constants and the values of macros, are
those of a build without overflow checks: they wrap. A build with the checks, which is the one that
the clock of the command line follows, ends at such a source.
-/

namespace Breadboard

structure Sketch where
  program : Program
  macros : MacroTable
  deriving DecidableEq

def parseSketch (source : String) : Except ParseError Sketch := do
  let text ← preprocess source
  let program ← parseProgram text.source
  .ok ⟨program, text.macros⟩

end Breadboard
