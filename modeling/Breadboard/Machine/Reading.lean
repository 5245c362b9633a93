import Breadboard.Machine.Act

/-!
Texts behind pointers. A pointer into characters stands for the text up to the
next zero, where a text is wanted and in payloads.
-/

namespace Breadboard

namespace Environment

def charactersUntilZero : List Value → Option Text.Bytes
  | .char c :: rest =>
      if c = 0 then some [] else (charactersUntilZero rest).map (c.toUInt8 :: ·)
  | _ => none

def textAt? (env : Environment) (place : Place) : Option String :=
  match place.lastIndex? with
  | none =>
      match env.read place with
      | .ok (.char c) => if c = 0 then some "" else none
      | _ => none
  | some pos =>
      match env.read place.container with
      | .ok (.array items) => (charactersUntilZero (items.drop pos)).map Text.ofBytesLossy
      | .ok (.text string) =>
          let bytes := Text.bytes string
          if pos ≤ bytes.length then
            some (Text.ofBytesLossy ((bytes.drop pos).takeWhile (· != 0)))
          else none
      | _ => none

def textOf (env : Environment) (value : Value) : Value :=
  match value with
  | .pointer place =>
      match env.textAt? place with
      | some string => .text string
      | none => value
  | _ => value

def display (env : Environment) (value : Value) : String := (env.textOf value).render

mutual

/-- A value as a payload. A pointer travels as the text behind it, or as the name
of the place it points to. -/
def payload (env : Environment) : Value → Primitive
  | .pointer place =>
      match env.textAt? place with
      | some string => .text string
      | none => .text ("&" ++ env.placeName place)
  | .array items => .list (payloads env items)
  | value => value.toPrimitive

def payloads (env : Environment) : List Value → List Primitive
  | [] => []
  | item :: rest => payload env item :: payloads env rest

end

end Environment

namespace Act

/-- Converts a value to a type. Where a single text is wanted, a pointer into
characters stands for their text. -/
def convert (fw : Firmware) (value : Value) (type : DataType) (loc : Location) : Act Value := do
  let env ← environment
  let readable := type.base = .text && type.pointerDepth = 0 && !type.isArray
  let value := if readable then env.textOf value else value
  attempt (value.convert fw.structs type) loc

def varSet (place : Place) (value : Value) : Act Effect := do
  let env ← environment
  pure (.emit (.varSet (env.placeName place) (env.payload value)))

end Act

end Breadboard
