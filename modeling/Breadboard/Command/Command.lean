import Breadboard.Command.Primitive
import Breadboard.Sketch.Location

/-!
Commands: what a running sketch tells its host. Some ask for data, under a number
that the answer must repeat.
-/

namespace Breadboard

inductive Command where
  | programStart
  | programEnd
  | loopLimitReached (iterations : Nat)
  | pinMode (pin mode : Int64)
  | digitalWrite (pin value : Int64)
  | analogWrite (pin value : Int64)
  | delay (milliseconds : Int64)
  | delayMicroseconds (microseconds : Int64)
  | tone (pin frequency : Int64) (duration : Option Int64)
  | noTone (pin : Int64)
  | serialBegin (baud : Int64)
  | serialPrint (text : String)
  | serialPrintln (text : String)
  | serialWrite (byte : Int64)
  | objectCreated (className name : String) (args : List Primitive)
  | methodCall (className object method : String) (args : List Primitive)
  | varSet (name : String) (value : Primitive)
  | analogReadRequest (id : Nat) (pin : Int64)
  | digitalReadRequest (id : Nat) (pin : Int64)
  | millisRequest (id : Nat)
  | microsRequest (id : Nat)
  | methodRequest (id : Nat) (className object method : String) (args : List Primitive)
  | error (kind message : String) (loc : Location)

def Command.requestId? : Command → Option Nat
  | .analogReadRequest id _ => some id
  | .digitalReadRequest id _ => some id
  | .millisRequest id => some id
  | .microsRequest id => some id
  | .methodRequest id _ _ _ _ => some id
  | _ => none

inductive Request where
  | analogRead (pin : Int64)
  | digitalRead (pin : Int64)
  | millis
  | micros
  | method (className object method : String) (args : List Primitive)

def Request.command (request : Request) (id : Nat) : Command :=
  match request with
  | .analogRead pin => .analogReadRequest id pin
  | .digitalRead pin => .digitalReadRequest id pin
  | .millis => .millisRequest id
  | .micros => .microsRequest id
  | .method className object name args => .methodRequest id className object name args

end Breadboard
