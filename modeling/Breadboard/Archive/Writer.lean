import Breadboard.Archive.Format

/-!
Writing programs. The table holds every text that a node uses once, in the order
of first use, and every whole number takes the first form that holds it.
-/

namespace Breadboard.Archive

open Breadboard.Text (Bytes)

def littleEndian : Nat → Nat → Bytes
  | 0, _ => []
  | width + 1, n => UInt8.ofNat n :: littleEndian width (n / 256)

def word (n : Nat) : Bytes := littleEndian 4 n

def flag (value : Bool) : Bytes := [if value then 1 else 0]

def optionalWord (value : Option Nat) : Bytes := word (value.getD absent)

def words (values : List Nat) : Bytes := word values.length ++ values.flatMap word

def baseTexts : BaseType → List String
  | .record name => [name]
  | .library name => [name]
  | _ => []

def typeTexts (type : DataType) : List String := baseTexts type.base

def fieldTexts (field : Field) : List String := field.name :: typeTexts field.type

/-- The texts that a node uses, in the order in which they are written. -/
def texts : NodeKind → List String
  | .functionDef name params returnType _ =>
      name :: params.flatMap fieldTexts ++ typeTexts returnType
  | .structDef name fields => name :: fields.flatMap fieldTexts
  | .varDecl name type _ _ _ => name :: typeTexts type
  | .objectDecl name className _ => [name, className]
  | .stringLiteral value => [value]
  | .identifier name => [name]
  | .call callee _ => [callee]
  | .methodCall _ method _ => [method]
  | .member _ field _ => [field]
  | .cast type _ => typeTexts type
  | .sizeofType type => typeTexts type
  | _ => []

def textTable (program : Program) : List String :=
  (program.nodes.toList.flatMap fun node => texts node.kind).eraseDups

def reference (table : List String) (text : String) : Bytes := word (table.idxOf text)

def baseTag (base : BaseType) : UInt8 := UInt8.ofNat (plainBases.idxOf base)

def recordTag : UInt8 := 12

def libraryTag : UInt8 := 13

def baseType (table : List String) : BaseType → Bytes
  | .record name => recordTag :: reference table name
  | .library name => libraryTag :: reference table name
  | base => [baseTag base]

def dataType (table : List String) (type : DataType) : Bytes :=
  baseType table type.base ++ flag type.isConst ++ [type.pointerDepth] ++
    word type.dims.length ++ type.dims.flatMap optionalWord

def field (table : List String) (f : Field) : Bytes :=
  reference table f.name ++ dataType table f.type

def fields (table : List String) (fs : List Field) : Bytes :=
  word fs.length ++ fs.flatMap (field table)

def arm (c : SwitchCase) : Bytes := optionalWord c.label ++ words c.body

def operator {α : Type} [BEq α] (ops : List α) (op : α) : Bytes :=
  [UInt8.ofNat (ops.idxOf op)]

def numberTag (tag : NumberTag) : UInt8 := UInt8.ofNat (NumberTag.all.idxOf tag + 1)

def integerTag (n : Int) : NumberTag :=
  if 0 ≤ n ∧ n ≤ 0xFF then .uint8
  else if -0x80 ≤ n ∧ n < 0x80 then .int8
  else if 0 ≤ n ∧ n ≤ 0xFFFF then .uint16
  else if -0x8000 ≤ n ∧ n < 0x8000 then .int16
  else if -0x80000000 ≤ n ∧ n < 0x80000000 then .int32
  else if 0 ≤ n ∧ n ≤ 0xFFFFFFFF then .uint32
  else .int64

def NumberTag.width : NumberTag → Nat
  | .uint8 | .int8 => 1
  | .uint16 | .int16 => 2
  | .int32 | .uint32 | .single => 4
  | .int64 | .double => 8

def integer (n : Int64) : Bytes :=
  let tag := integerTag n.toInt
  numberTag tag :: littleEndian tag.width n.toUInt64.toNat

def float (x : Binary64) : Bytes :=
  match x.exactSingle? with
  | some bits => numberTag .single :: littleEndian 4 bits.toNat
  | none => numberTag .double :: littleEndian 8 x.bits.toNat

def kindTag : NodeKind → UInt8
  | .functionDef .. => 1
  | .structDef .. => 2
  | .varDecl .. => 3
  | .objectDecl .. => 4
  | .declGroup .. => 5
  | .block .. => 6
  | .exprStmt .. => 7
  | .ifElse .. => 8
  | .whileLoop .. => 9
  | .doWhile .. => 10
  | .forLoop .. => 11
  | .switch .. => 12
  | .returnStmt .. => 13
  | .breakStmt => 14
  | .continueStmt => 15
  | .empty => 16
  | .intLiteral .. | .floatLiteral .. => 17
  | .charLiteral .. => 18
  | .stringLiteral .. => 19
  | .boolLiteral .. => 20
  | .nullLiteral => 21
  | .identifier .. => 22
  | .binary .. => 23
  | .logical .. => 24
  | .unary .. => 25
  | .incDec .. => 26
  | .ternary .. => 27
  | .assign .. => 28
  | .compoundAssign .. => 29
  | .call .. => 30
  | .methodCall .. => 31
  | .index .. => 32
  | .member .. => 33
  | .cast .. => 34
  | .sizeofType .. => 35
  | .sizeofExpr .. => 36
  | .initList .. => 37

def storage (isStatic isVolatile : Bool) : UInt8 :=
  (if isStatic then 1 else 0) + (if isVolatile then 2 else 0)

def contents (table : List String) : NodeKind → Bytes
  | .functionDef name params returnType body =>
      reference table name ++ fields table params ++ dataType table returnType ++ word body
  | .structDef name fs => reference table name ++ fields table fs
  | .varDecl name type init isStatic isVolatile =>
      reference table name ++ dataType table type ++ optionalWord init ++
        [storage isStatic isVolatile]
  | .objectDecl name className args =>
      reference table name ++ reference table className ++ words args
  | .declGroup decls => words decls
  | .block statements => words statements
  | .exprStmt expr => word expr
  | .ifElse condition thenBranch elseBranch =>
      word condition ++ word thenBranch ++ optionalWord elseBranch
  | .whileLoop condition body => word condition ++ word body
  | .doWhile body condition => word body ++ word condition
  | .forLoop init condition increment body =>
      optionalWord init ++ optionalWord condition ++ optionalWord increment ++ word body
  | .switch expr cases => word expr ++ word cases.length ++ cases.flatMap arm
  | .returnStmt expr => optionalWord expr
  | .breakStmt | .continueStmt | .empty | .nullLiteral => []
  | .intLiteral value unsigned => flag unsigned ++ integer value
  | .floatLiteral value => flag false ++ float value
  | .charLiteral value => [value.toUInt8]
  | .stringLiteral value => reference table value
  | .boolLiteral value => flag value
  | .identifier name => reference table name
  | .binary op left right => operator binaryOps op ++ word left ++ word right
  | .logical op left right => operator logicalOps op ++ word left ++ word right
  | .unary op operand => operator unaryOps op ++ word operand
  | .incDec op target => operator incDecOps op ++ word target
  | .ternary condition thenExpr elseExpr => word condition ++ word thenExpr ++ word elseExpr
  | .assign target value => word target ++ word value
  | .compoundAssign op target value => operator binaryOps op ++ word target ++ word value
  | .call callee args => reference table callee ++ words args
  | .methodCall receiver method args => word receiver ++ reference table method ++ words args
  | .index array pos => word array ++ word pos
  | .member object name throughPointer => word object ++ reference table name ++ flag throughPointer
  | .cast type expr => dataType table type ++ word expr
  | .sizeofType type => dataType table type
  | .sizeofExpr expr => word expr
  | .initList items => words items

def node (table : List String) (n : Node) : Bytes :=
  kindTag n.kind :: word n.location.line ++ word n.location.column ++ contents table n.kind

def text (value : String) : Bytes :=
  let bytes := Text.bytes value
  word bytes.length ++ bytes

def encode (program : Program) : Bytes :=
  let table := textTable program
  magic ++ littleEndian 2 version ++ word program.nodes.size ++ words program.items ++
    word table.length ++ table.flatMap text ++ program.nodes.toList.flatMap (node table)

end Breadboard.Archive
