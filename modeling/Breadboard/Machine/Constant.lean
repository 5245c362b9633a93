import Breadboard.Memory.Value
import Breadboard.Text.Integer

/-!
Names that every sketch knows without declaring them.
-/

namespace Breadboard.Constant

def pi : Binary64 := ⟨0x400921FB54442D18⟩

def halfPi : Binary64 := ⟨0x3FF921FB54442D18⟩

def twoPi : Binary64 := pi.mul (Binary64.ofInt 2)

def radiansPerDegree : Binary64 := pi.div (Binary64.ofInt 180)

def degreesPerRadian : Binary64 := (Binary64.ofInt 180).div pi

def firstAnalogPin : Int32 := 14

def analogPins : Int64 := 8

def analogPin? (digits : List Char) : Option Value :=
  match Text.readInt64? 10 digits with
  | some n =>
      if 0 ≤ n ∧ n < analogPins then some (.int (firstAnalogPin + n.toInt32)) else none
  | none => none

def lookup? (name : String) : Option Value :=
  match name with
  | "LOW" => some (.int 0)
  | "HIGH" => some (.int 1)
  | "INPUT" => some (.int 0)
  | "OUTPUT" => some (.int 1)
  | "INPUT_PULLUP" => some (.int 2)
  | "LED_BUILTIN" => some (.int 13)
  | "DEC" => some (.int 10)
  | "HEX" => some (.int 16)
  | "OCT" => some (.int 8)
  | "BIN" => some (.int 2)
  | "LSBFIRST" => some (.int 0)
  | "MSBFIRST" => some (.int 1)
  | "PI" => some (.float pi)
  | "HALF_PI" => some (.float halfPi)
  | "TWO_PI" => some (.float twoPi)
  | "DEG_TO_RAD" => some (.float radiansPerDegree)
  | "RAD_TO_DEG" => some (.float degreesPerRadian)
  | "NEO_GRB" => some (.int 0x52)
  | "NEO_RGB" => some (.int 0x06)
  | "NEO_KHZ800" => some (.int 0)
  | "NEO_KHZ400" => some (.int 0x0100)
  | _ =>
      match name.toList with
      | 'A' :: digits => analogPin? digits
      | _ => none

end Breadboard.Constant
