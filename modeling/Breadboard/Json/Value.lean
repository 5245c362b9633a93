import Breadboard.Number.Decimal
import Breadboard.Text.Integer

/-!
JSON values and their compact text. Whole numbers are kept apart from those with a
fraction, fields keep their order, and a number that JSON cannot write is null.
-/

namespace Breadboard

inductive JsonValue where
  | null
  | bool (value : Bool)
  | int (value : Int)
  | float (value : Binary64)
  | text (value : String)
  | list (items : List JsonValue)
  | object (fields : List (String × JsonValue))
  deriving Inhabited

namespace JsonValue

def field? (json : JsonValue) (name : String) : Option JsonValue :=
  match json with
  | .object fields => fields.lookup name
  | _ => none

def escaped (c : Char) : List Char :=
  if c = '"' then ['\\', '"']
  else if c = '\\' then ['\\', '\\']
  else if c = '\n' then ['\\', 'n']
  else if c = '\r' then ['\\', 'r']
  else if c = '\t' then ['\\', 't']
  else if c = '\x08' then ['\\', 'b']
  else if c = '\x0c' then ['\\', 'f']
  else if c < ' ' then
    let code := c.toNat
    ['\\', 'u', '0', '0'] ++ Text.digits 16 false (code / 16) ++ Text.digits 16 false (code % 16)
  else [c]

def quoted (text : String) : String :=
  "\"" ++ String.ofList (text.toList.flatMap escaped) ++ "\""

def numeral (n : Int) : String :=
  let digits := String.ofList (Text.digits 10 false n.natAbs)
  if n < 0 then "-" ++ digits else digits

mutual

def compact : JsonValue → String
  | .null => "null"
  | .bool value => if value then "true" else "false"
  | .int value => numeral value
  | .float value => if value.isFinite then Decimal.data value else "null"
  | .text value => quoted value
  | .list items => "[" ++ ",".intercalate (compactItems items) ++ "]"
  | .object fields => "\x7b" ++ ",".intercalate (compactFields fields) ++ "\x7d"

def compactItems : List JsonValue → List String
  | [] => []
  | item :: rest => compact item :: compactItems rest

def compactFields : List (String × JsonValue) → List String
  | [] => []
  | (name, value) :: rest => (quoted name ++ ":" ++ compact value) :: compactFields rest

end

end JsonValue

end Breadboard
