/-!
Declared types of the sketch language: a base type, a const mark, a pointer
depth and array dimensions, outermost first.
-/

namespace Breadboard

/-- `record` is a structure type and `library` a class that the host provides,
each known by name. -/
inductive BaseType where
  | void | bool | char | byte | short | word | int | unsigned | longLong
  | float | double | text
  | record (name : String)
  | library (name : String)
  deriving DecidableEq

namespace BaseType

def ofAlias? (name : String) : Option BaseType :=
  match name with
  | "boolean" => some .bool
  | "byte" => some .byte
  | "uint8_t" => some .byte
  | "int8_t" => some .char
  | "word" => some .word
  | "uint16_t" => some .word
  | "int16_t" => some .short
  | "int32_t" => some .int
  | "uint32_t" => some .unsigned
  | "size_t" => some .unsigned
  | "int64_t" => some .longLong
  | "uint64_t" => some .longLong
  | "String" => some .text
  | _ => none

def isInteger : BaseType → Bool
  | .bool | .char | .byte | .short | .word | .int | .unsigned | .longLong => true
  | _ => false

end BaseType

structure DataType where
  base : BaseType
  isConst : Bool := false
  pointerDepth : UInt8 := 0
  dims : List (Option Nat) := []
  deriving DecidableEq

namespace DataType

def of (base : BaseType) : DataType := { base }

def pointerTo (type : DataType) : DataType :=
  { type with pointerDepth := type.pointerDepth + 1 }

def arrayOf (type : DataType) (size : Option Nat) : DataType :=
  { type with dims := type.dims ++ [size] }

def isArray (type : DataType) : Bool := !type.dims.isEmpty

def isPointer (type : DataType) : Bool := type.dims.isEmpty && 0 < type.pointerDepth

def element (type : DataType) : DataType :=
  match type.dims with
  | _ :: dims => { type with dims }
  | [] =>
      if 0 < type.pointerDepth then { type with pointerDepth := type.pointerDepth - 1 }
      else type

end DataType

structure Field where
  name : String
  type : DataType
  deriving DecidableEq

abbrev StructTable := List (String × List Field)

end Breadboard
