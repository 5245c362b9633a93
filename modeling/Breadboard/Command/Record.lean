import Breadboard.Command.Log
import Breadboard.Json.Value

/-!
Commands as flat JSON records: the number in the log, the kind of command, then its
fields. A record can be read back; fields that its kind does not have are ignored.
-/

namespace Breadboard

mutual

def Primitive.toJson : Primitive → JsonValue
  | .bool value => .bool value
  | .int value => .int value.toInt
  | .float value => .float value
  | .text value => .text value
  | .list items => .list (Primitive.listToJson items)

def Primitive.listToJson : List Primitive → List JsonValue
  | [] => []
  | item :: rest => item.toJson :: Primitive.listToJson rest

end

mutual

/-- Reads plain data. A whole number beyond 64 bits is taken as the nearest double. -/
def Primitive.ofJson? : JsonValue → Option Primitive
  | .bool value => some (.bool value)
  | .int value =>
      if Int64.minValue.toInt ≤ value ∧ value ≤ Int64.maxValue.toInt then
        some (.int (Int64.ofInt value))
      else some (.float (Binary64.ofInt value))
  | .float value => some (.float value)
  | .text value => some (.text value)
  | .list items => (Primitive.listOfJson? items).map .list
  | .null => none
  | .object _ => none

def Primitive.listOfJson? : List JsonValue → Option (List Primitive)
  | [] => some []
  | item :: rest => do
      let value ← Primitive.ofJson? item
      let values ← Primitive.listOfJson? rest
      some (value :: values)

end

namespace Command

def kindName : Command → String
  | .programStart => "ProgramStart"
  | .programEnd => "ProgramEnd"
  | .loopLimitReached _ => "LoopLimitReached"
  | .pinMode _ _ => "PinMode"
  | .digitalWrite _ _ => "DigitalWrite"
  | .analogWrite _ _ => "AnalogWrite"
  | .delay _ => "Delay"
  | .delayMicroseconds _ => "DelayMicroseconds"
  | .tone _ _ _ => "Tone"
  | .noTone _ => "NoTone"
  | .serialBegin _ => "SerialBegin"
  | .serialPrint _ => "SerialPrint"
  | .serialPrintln _ => "SerialPrintln"
  | .serialWrite _ => "SerialWrite"
  | .objectCreated _ _ _ => "LibraryObjectCreated"
  | .methodCall _ _ _ _ => "LibraryMethodCall"
  | .varSet _ _ => "VarSet"
  | .analogReadRequest _ _ => "AnalogReadRequest"
  | .digitalReadRequest _ _ => "DigitalReadRequest"
  | .millisRequest _ => "MillisRequest"
  | .microsRequest _ => "MicrosRequest"
  | .methodRequest _ _ _ _ _ => "LibraryMethodRequest"
  | .error _ _ _ => "Error"

def word (value : Int64) : JsonValue := .int value.toInt

def natural (value : Nat) : JsonValue := .int value

def arguments (args : List Primitive) : JsonValue := .list (Primitive.listToJson args)

def fields : Command → List (String × JsonValue)
  | .programStart => []
  | .programEnd => []
  | .loopLimitReached iterations => [("iterations", natural iterations)]
  | .pinMode pin mode => [("pin", word pin), ("mode", word mode)]
  | .digitalWrite pin value => [("pin", word pin), ("value", word value)]
  | .analogWrite pin value => [("pin", word pin), ("value", word value)]
  | .delay milliseconds => [("ms", word milliseconds)]
  | .delayMicroseconds microseconds => [("us", word microseconds)]
  | .tone pin frequency duration =>
      [("pin", word pin), ("frequency", word frequency)] ++
        duration.toList.map fun length => ("duration", word length)
  | .noTone pin => [("pin", word pin)]
  | .serialBegin baud => [("baud", word baud)]
  | .serialPrint string => [("text", .text string)]
  | .serialPrintln string => [("text", .text string)]
  | .serialWrite byte => [("byte", word byte)]
  | .objectCreated className name args =>
      [("class", .text className), ("name", .text name), ("args", arguments args)]
  | .methodCall className object method args =>
      [("class", .text className), ("object", .text object), ("method", .text method),
        ("args", arguments args)]
  | .varSet name value => [("name", .text name), ("value", value.toJson)]
  | .analogReadRequest id pin => [("requestId", natural id), ("pin", word pin)]
  | .digitalReadRequest id pin => [("requestId", natural id), ("pin", word pin)]
  | .millisRequest id => [("requestId", natural id)]
  | .microsRequest id => [("requestId", natural id)]
  | .methodRequest id className object method args =>
      [("requestId", natural id), ("class", .text className), ("object", .text object),
        ("method", .text method), ("args", arguments args)]
  | .error kind message loc =>
      [("kind", .text kind), ("message", .text message), ("line", natural loc.line),
        ("column", natural loc.column)]

def word? (record : JsonValue) (name : String) : Option Int64 :=
  match record.field? name with
  | some (.int value) =>
      if Int64.minValue.toInt ≤ value ∧ value ≤ Int64.maxValue.toInt then
        some (Int64.ofInt value)
      else none
  | _ => none

def naturalBelow? (bound : Nat) (record : JsonValue) (name : String) : Option Nat :=
  match record.field? name with
  | some (.int (.ofNat value)) => if value < bound then some value else none
  | _ => none

def text? (record : JsonValue) (name : String) : Option String :=
  match record.field? name with
  | some (.text string) => some string
  | _ => none

def arguments? (record : JsonValue) (name : String) : Option (List Primitive) :=
  match record.field? name with
  | some (.list items) => Primitive.listOfJson? items
  | _ => none

def optionalWord? (record : JsonValue) (name : String) : Option (Option Int64) :=
  match record.field? name with
  | none => some none
  | some .null => some none
  | some _ => (word? record name).map some

def ofRecord? (record : JsonValue) : Option Command := do
  let word := word? record
  let string := text? record
  let count := naturalBelow? UInt64.size record
  let pos := naturalBelow? UInt32.size record
  match ← string "type" with
  | "ProgramStart" => some .programStart
  | "ProgramEnd" => some .programEnd
  | "LoopLimitReached" => some (.loopLimitReached (← count "iterations"))
  | "PinMode" => some (.pinMode (← word "pin") (← word "mode"))
  | "DigitalWrite" => some (.digitalWrite (← word "pin") (← word "value"))
  | "AnalogWrite" => some (.analogWrite (← word "pin") (← word "value"))
  | "Delay" => some (.delay (← word "ms"))
  | "DelayMicroseconds" => some (.delayMicroseconds (← word "us"))
  | "Tone" =>
      some (.tone (← word "pin") (← word "frequency") (← optionalWord? record "duration"))
  | "NoTone" => some (.noTone (← word "pin"))
  | "SerialBegin" => some (.serialBegin (← word "baud"))
  | "SerialPrint" => some (.serialPrint (← string "text"))
  | "SerialPrintln" => some (.serialPrintln (← string "text"))
  | "SerialWrite" => some (.serialWrite (← word "byte"))
  | "LibraryObjectCreated" =>
      some (.objectCreated (← string "class") (← string "name") (← arguments? record "args"))
  | "LibraryMethodCall" =>
      some (.methodCall (← string "class") (← string "object") (← string "method")
        (← arguments? record "args"))
  | "VarSet" =>
      some (.varSet (← string "name") (← Primitive.ofJson? (← record.field? "value")))
  | "AnalogReadRequest" => some (.analogReadRequest (← count "requestId") (← word "pin"))
  | "DigitalReadRequest" => some (.digitalReadRequest (← count "requestId") (← word "pin"))
  | "MillisRequest" => some (.millisRequest (← count "requestId"))
  | "MicrosRequest" => some (.microsRequest (← count "requestId"))
  | "LibraryMethodRequest" =>
      some (.methodRequest (← count "requestId") (← string "class") (← string "object")
        (← string "method") (← arguments? record "args"))
  | "Error" =>
      some (.error (← string "kind") (← string "message")
        ⟨← pos "line", ← pos "column"⟩)
  | _ => none

end Command

def Emitted.record (entry : Emitted) : JsonValue :=
  .object (("seq", .int entry.seq) :: ("type", .text entry.command.kindName) ::
    entry.command.fields)

end Breadboard
