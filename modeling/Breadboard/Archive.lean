import Breadboard.Archive.Forest
import Breadboard.Archive.Reader

/-!
Stored programs are read back whole: the bytes must spell a program, and its
nodes must form a forest.
-/

namespace Breadboard.Archive

open Breadboard.Text (Bytes)

def decode (bytes : Bytes) : Except ArchiveError Program := do
  let (program, _) ← StateT.run Read.program { rest := bytes }
  checkForest program
  .ok program

end Breadboard.Archive
