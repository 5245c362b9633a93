/-!
Positions in a sketch, counted from line 1 and column 1 in characters.
-/

namespace Breadboard

structure Location where
  line : Nat
  column : Nat
  deriving DecidableEq, Inhabited

namespace Location

def start : Location := ⟨1, 1⟩

def next (location : Location) (c : Char) : Location :=
  if c = '\n' then ⟨location.line + 1, 1⟩ else ⟨location.line, location.column + 1⟩

def advance (location : Location) (text : List Char) : Location := text.foldl next location

end Location

end Breadboard
