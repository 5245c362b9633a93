import Breadboard.Command.Primitive
import Breadboard.Memory.Place
import Breadboard.Number.Decimal

/-!
Values at run time. Every value is tagged, and operators look at the tags; `int`
also holds the narrower integer types.
-/

namespace Breadboard

structure ObjectRef where
  className : String
  name : String
  deriving DecidableEq

inductive Value where
  | void
  | null
  | bool (value : Bool)
  | char (value : Int8)
  | int (value : Int32)
  | unsigned (value : UInt32)
  | long (value : Int64)
  | float (value : Binary64)
  | text (value : String)
  | array (items : List Value)
  | record (name : String) (fields : List (String × Value))
  | pointer (place : Place)
  | function (name : String)
  | object (handle : ObjectRef)
  deriving Inhabited

def formatFloat (x : Binary64) (decimals : Nat) : String :=
  if x.isNaN then "nan" else if x.isInfinite then "inf" else Decimal.fixed decimals x

namespace Value

def typeName : Value → String
  | .void => "void"
  | .null => "null"
  | .bool _ => "bool"
  | .char _ => "char"
  | .int _ => "int"
  | .unsigned _ => "unsigned long"
  | .long _ => "long long"
  | .float _ => "float"
  | .text _ => "String"
  | .array _ => "array"
  | .record _ _ => "struct"
  | .pointer _ => "pointer"
  | .function _ => "function"
  | .object _ => "object"

def isNumeric : Value → Bool
  | .bool _ | .char _ | .int _ | .unsigned _ | .long _ | .float _ => true
  | _ => false

/-- The integer a value stands for; a float is cut toward zero. -/
def integer? : Value → Option Int64
  | .bool value => some (if value then 1 else 0)
  | .char value => some value.toInt64
  | .int value => some value.toInt64
  | .unsigned value => some value.toUInt64.toInt64
  | .long value => some value
  | .float value => some value.toInt64
  | .null => some 0
  | _ => none

def float? : Value → Option Binary64
  | .float value => some value
  | value => value.integer?.map fun n => Binary64.ofInt n.toInt

/-- The outcome of a value as a condition; structures and `void` have none. -/
def truth? : Value → Option Bool
  | .bool value => some value
  | .char value => some (value != 0)
  | .int value => some (value != 0)
  | .unsigned value => some (value != 0)
  | .long value => some (value != 0)
  | .float value => some (!value.isZero)
  | .null => some false
  | .pointer _ | .text _ | .array _ | .function _ | .object _ => some true
  | .void | .record _ _ => none

mutual

def render : Value → String
  | .void => ""
  | .null => "0"
  | .bool value => if value then "1" else "0"
  | .char value => String.ofList [Char.ofNat value.toUInt8.toNat]
  | .int value => toString value.toInt
  | .unsigned value => toString value.toNat
  | .long value => toString value.toInt
  | .float value => formatFloat value 2
  | .text value => value
  | .array items => "[" ++ ", ".intercalate (renderItems items) ++ "]"
  | .record name fields =>
      name ++ " \x7b " ++ ", ".intercalate (renderFields fields) ++ " \x7d"
  | .pointer _ => "<pointer>"
  | .function name => name
  | .object handle => handle.name

def renderItems : List Value → List String
  | [] => []
  | item :: rest => item.render :: renderItems rest

def renderFields : List (String × Value) → List String
  | [] => []
  | (name, value) :: rest => (name ++ ": " ++ value.render) :: renderFields rest

end

mutual

/-- A value as a payload. Pointers and structures become text. -/
def toPrimitive : Value → Primitive
  | .bool value => .bool value
  | .char value => .int value.toInt64
  | .int value => .int value.toInt64
  | .unsigned value => .int value.toUInt64.toInt64
  | .long value => .int value
  | .null => .int 0
  | .float value => .float value
  | .text value => .text value
  | .array items => .list (toPrimitives items)
  | value => .text value.render

def toPrimitives : List Value → List Primitive
  | [] => []
  | item :: rest => item.toPrimitive :: toPrimitives rest

end

/-- The narrower of the two tags that can hold a whole number. -/
def ofInt64 (n : Int64) : Value :=
  if Int32.minValue.toInt64 ≤ n ∧ n ≤ Int32.maxValue.toInt64 then .int n.toInt32 else .long n

mutual

def ofPrimitive : Primitive → Value
  | .bool value => .bool value
  | .int value => ofInt64 value
  | .float value => .float value
  | .text value => .text value
  | .list items => .array (ofPrimitives items)

def ofPrimitives : List Primitive → List Value
  | [] => []
  | item :: rest => ofPrimitive item :: ofPrimitives rest

end

end Value

end Breadboard
