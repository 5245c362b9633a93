/-!
Places in memory: a variable's cell and the path to an element or field inside
it. Pointers hold places and assignments write through them.
-/

namespace Breadboard

/-- A variable's cell. Slots of locals are reused, so a local cell also carries the
stamp of its declaration. -/
inductive Cell where
  | global (index : Nat)
  | frame (index : Nat) (generation : UInt32)
  deriving DecidableEq

inductive PathStep where
  | index (pos : Nat)
  | field (name : String)
  deriving DecidableEq

structure Place where
  cell : Cell
  path : List PathStep := []
  deriving DecidableEq

namespace Place

def of (cell : Cell) : Place := { cell }

def index (place : Place) (pos : Nat) : Place :=
  { place with path := place.path ++ [.index pos] }

def field (place : Place) (name : String) : Place :=
  { place with path := place.path ++ [.field name] }

def container (place : Place) : Place := { place with path := place.path.dropLast }

def lastIndex? (place : Place) : Option Nat :=
  match place.path.getLast? with
  | some (.index pos) => some pos
  | _ => none

def offset? (place : Place) (distance : Int64) : Option Place :=
  match place.lastIndex? with
  | none => none
  | some pos =>
      let moved := (Int64.ofNat pos).toInt + distance.toInt
      if 0 ≤ moved ∧ moved ≤ Int64.maxValue.toInt then some (place.container.index moved.toNat)
      else none

def sameArray (a b : Place) : Bool :=
  a.cell = b.cell && a.path.length = b.path.length && a.path.dropLast = b.path.dropLast

def pathText : List PathStep → String
  | [] => ""
  | .index pos :: rest => "[" ++ toString pos ++ "]" ++ pathText rest
  | .field name :: rest => "." ++ name ++ pathText rest

end Place

end Breadboard
