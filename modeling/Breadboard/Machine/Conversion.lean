import Breadboard.Machine.Fault

/-!
Values of declared types: the default of a type, its size, and the conversion of
a value to it, which declarations, assignments, parameters, results and casts
all use.
-/

namespace Breadboard

namespace Value

def ofInteger (base : BaseType) (n : Int64) : Value :=
  match base with
  | .bool => .bool (n != 0)
  | .char => .char n.toInt8
  | .byte => .int (Int32.ofNat n.toUInt64.toUInt8.toNat)
  | .short => .int n.toInt16.toInt32
  | .word => .int (Int32.ofNat n.toUInt64.toUInt16.toNat)
  | .unsigned => .unsigned n.toUInt64.toUInt32
  | .longLong => .long n
  | _ => .int n.toInt32

def wholeNumber? (value : Value) : Option Int64 :=
  match value with
  | .float _ => none
  | _ => if value.isNumeric then value.integer? else none

def number? (value : Value) : Option Binary64 :=
  if value.isNumeric then value.float? else none

def truncated? (value : Value) : Option Int64 :=
  if value.isNumeric then value.integer? else none

end Value

namespace DataType

def fill (value : Value) : List (Option Nat) → Value
  | [] => value
  | dim :: dims => .array (List.replicate (dim.getD 0) (fill value dims))

def defaultAt (structs : StructTable) : Nat → DataType → Value
  | 0, _ => .void
  | fuel + 1, type =>
      let scalar : Value :=
        if 0 < type.pointerDepth then .null
        else
          match type.base with
          | .void | .library _ => .void
          | .bool => .bool false
          | .char => .char 0
          | .byte | .short | .word | .int => .int 0
          | .unsigned => .unsigned 0
          | .longLong => .long 0
          | .float | .double => .float Binary64.zero
          | .text => .text ""
          | .record name =>
              .record name (((structs.lookup name).getD []).map fun field =>
                (field.name, defaultAt structs fuel field.type))
      fill scalar type.dims

/-- The value of a variable that is declared without an initializer. A structure that
does not contain itself nests at most as deep as there are structures. -/
def default (structs : StructTable) (type : DataType) : Value :=
  type.defaultAt structs (structs.length + 1)

def sizeAt (structs : StructTable) : Nat → DataType → Nat
  | 0, _ => 0
  | fuel + 1, type =>
      let scalar : Nat :=
        if 0 < type.pointerDepth then 4
        else
          match type.base with
          | .void | .bool | .char | .byte => 1
          | .short | .word => 2
          | .int | .unsigned | .float | .library _ => 4
          | .longLong | .double => 8
          | .text => 6
          | .record name =>
              (((structs.lookup name).getD []).map fun field =>
                sizeAt structs fuel field.type).foldr (· + ·) 0
      (type.dims.map fun dim => dim.getD 0).foldl (· * ·) 1 * scalar

def size (structs : StructTable) (type : DataType) : Nat := type.sizeAt structs (structs.length + 1)

end DataType

namespace Value

/-- A pointer stays, zero is the null pointer, and a text may stand for characters. -/
def toPointer (value : Value) (type : DataType) : Except Cause Value :=
  match value with
  | .pointer place => .ok (.pointer place)
  | .null => .ok .null
  | _ =>
      match value with
      | .text string =>
          if type.base = .char && type.pointerDepth = 1 then .ok (.text string)
          else .error (.typeMismatch (.toPointer value.typeName))
      | _ =>
          if value.wholeNumber? = some 0 then .ok .null
          else .error (.typeMismatch (.toPointer value.typeName))

def characters (string : String) : List Value :=
  (Text.bytes string).map (fun byte => .char byte.toInt8) ++ [.char 0]

def pad (structs : StructTable) (type : DataType) (items : List Value) : Except Cause Value :=
  match type.dims with
  | some size :: _ =>
      if size < items.length then .error (.typeMismatch (.arrayOverflow size))
      else .ok (.array
        (items ++ List.replicate (size - items.length) (type.element.default structs)))
  | _ => .ok (.array items)

def toScalar (value : Value) (base : BaseType) : Except Cause Value :=
  let mismatch : Except Cause Value :=
    .error (.typeMismatch (.conversion value.typeName base))
  match base with
  | .void => .ok .void
  | .float =>
      match value.number? with
      | some x => .ok (.float x.toSinglePrecision)
      | none => mismatch
  | .double =>
      match value.number? with
      | some x => .ok (.float x)
      | none => mismatch
  | .text =>
      match value with
      | .text string => .ok (.text string)
      | _ => if value.isNumeric then .ok (.text value.render) else mismatch
  | .library className =>
      match value with
      | .object handle =>
          if handle.className = className then .ok (.object handle) else mismatch
      | _ => mismatch
  | _ =>
      match value.truncated? with
      | some n => .ok (ofInteger base n)
      | none => mismatch

mutual

def convert (structs : StructTable) (value : Value) (type : DataType) : Except Cause Value :=
  match value with
  | .array items =>
      if type.isArray then do
        pad structs type (← convertItems structs items type.element)
      else if 0 < type.pointerDepth then toPointer (.array items) type
      else
        match type.base with
        | .record name =>
            match structs.lookup name with
            | none => .error (.typeMismatch (.unknownStruct name))
            | some layout =>
                if layout.length < items.length then
                  .error (.typeMismatch (.structOverflow name))
                else do .ok (.record name (← convertFields structs items layout))
        | base => toScalar (.array items) base
  | other =>
      if type.isArray then
        match other with
        | .text string =>
            let element := type.element
            if element.base = .char && !element.isArray && element.pointerDepth = 0 then
              pad structs type (characters string)
            else .error (.typeMismatch (.arrayInitializer other.typeName))
        | _ => .error (.typeMismatch (.arrayInitializer other.typeName))
      else if 0 < type.pointerDepth then toPointer other type
      else
        match type.base with
        | .record name =>
            match structs.lookup name with
            | none => .error (.typeMismatch (.unknownStruct name))
            | some _ =>
                match other with
                | .record actual fields =>
                    if actual = name then .ok (.record actual fields)
                    else .error (.typeMismatch (.toStruct other.typeName name))
                | _ => .error (.typeMismatch (.toStruct other.typeName name))
        | base => toScalar other base

def convertItems (structs : StructTable) (items : List Value) (type : DataType) :
    Except Cause (List Value) :=
  match items with
  | [] => .ok []
  | item :: rest => do
      let first ← convert structs item type
      let others ← convertItems structs rest type
      .ok (first :: others)

/-- Items as the fields of a structure in order; fields without an item get their
default. -/
def convertFields (structs : StructTable) (items : List Value) (layout : List Field) :
    Except Cause (List (String × Value)) :=
  match items, layout with
  | _, [] => .ok []
  | [], layout => .ok (layout.map fun field => (field.name, field.type.default structs))
  | item :: rest, field :: fields => do
      let first ← convert structs item field.type
      let others ← convertFields structs rest fields
      .ok ((field.name, first) :: others)

end

end Value

end Breadboard
