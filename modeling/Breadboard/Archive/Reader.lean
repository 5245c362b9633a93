import Breadboard.Archive.Writer

/-!
Reading stored programs. A reader consumes bytes from the front and fails at the
position where too few are left.
-/

namespace Breadboard.Archive

open Breadboard.Text (Bytes)

structure Source where
  rest : Bytes
  position : Nat := 0

abbrev Read := StateT Source (Except ArchiveError)

def split? : Nat → Bytes → Option (Bytes × Bytes)
  | 0, rest => some ([], rest)
  | _ + 1, [] => none
  | count + 1, byte :: rest => (split? count rest).map fun (front, back) => (byte :: front, back)

def ofLittleEndian : Bytes → Nat
  | [] => 0
  | byte :: rest => byte.toNat + 256 * ofLittleEndian rest

namespace Read

def fail {α : Type} (error : ArchiveError) : Read α := fun _ => .error error

def take (count : Nat) : Read Bytes := fun source =>
  match split? count source.rest with
  | some (front, back) => .ok (front, ⟨back, source.position + count⟩)
  | none => .error (.unexpectedEnd source.position)

def number (width : Nat) : Read Nat := do
  pure (ofLittleEndian (← take width))

def byte : Read UInt8 := do
  pure (UInt8.ofNat (← number 1))

def word : Read Nat := number 4

def flag : Read Bool := do
  pure ((← byte) != 0)

def optionalWord : Read (Option Nat) := do
  let value ← word
  pure (if value = absent then none else some value)

def unknown {α : Type} (what : String) (tag : UInt8) : Read α := fun source =>
  .error (.unknownTag what tag (source.position - 1))

def replicate {α : Type} (item : Read α) : Nat → Read (List α)
  | 0 => pure []
  | count + 1 => do
      let first ← item
      let rest ← replicate item count
      pure (first :: rest)

def counted {α : Type} (item : Read α) : Read (List α) := do
  replicate item (← word)

def words : Read (List Nat) := counted word

def reference (table : List String) : Read String := do
  let index ← word
  match table[index]? with
  | some text => pure text
  | none => fail (.badString index)

def baseType (table : List String) : Read BaseType := do
  let tag ← byte
  match plainBases[tag.toNat]? with
  | some base => pure base
  | none =>
      if tag = recordTag then pure (.record (← reference table))
      else if tag = libraryTag then pure (.library (← reference table))
      else unknown "type" tag

def dataType (table : List String) : Read DataType := do
  let base ← baseType table
  let isConst ← flag
  let pointerDepth ← byte
  let dims ← counted optionalWord
  pure { base, isConst, pointerDepth, dims }

def field (table : List String) : Read Field := do
  let name ← reference table
  let type ← dataType table
  pure ⟨name, type⟩

def arm : Read SwitchCase := do
  let label ← optionalWord
  let body ← words
  pure ⟨label, body⟩

def operator {α : Type} (ops : List α) (what : String) : Read α := do
  let tag ← byte
  match ops[tag.toNat]? with
  | some op => pure op
  | none => unknown what tag

def signed (width : Nat) : Read Int64 := do
  let value ← number width
  let range := Nat.pow 256 width
  pure (Int64.ofInt (if 2 * value < range then value else (value : Int) - range))

def unsigned (width : Nat) : Read Int64 := do
  pure (Int64.ofNat (← number width))

def literal (isUnsigned : Bool) : Read NodeKind := do
  let tag ← byte
  let form? := if tag = 0 then none else NumberTag.all[tag.toNat - 1]?
  match form? with
  | some form =>
      match form with
      | .uint8 | .uint16 | .uint32 => pure (.intLiteral (← unsigned form.width) isUnsigned)
      | .int8 | .int16 | .int32 | .int64 => pure (.intLiteral (← signed form.width) isUnsigned)
      | .single => pure (.floatLiteral (Binary64.widen (UInt32.ofNat (← number 4))))
      | .double => pure (.floatLiteral ⟨UInt64.ofNat (← number 8)⟩)
  | none => unknown "number" tag

def contents (table : List String) (tag : UInt8) : Read NodeKind :=
  match tag.toNat with
  | 1 => do
      let name ← reference table
      let params ← counted (field table)
      let returnType ← dataType table
      let body ← word
      pure (.functionDef name params returnType body)
  | 2 => do
      let name ← reference table
      let fields ← counted (field table)
      pure (.structDef name fields)
  | 3 => do
      let name ← reference table
      let type ← dataType table
      let init ← optionalWord
      let marks ← byte
      pure (.varDecl name type init (marks &&& 1 != 0) (marks &&& 2 != 0))
  | 4 => do
      let name ← reference table
      let className ← reference table
      let args ← words
      pure (.objectDecl name className args)
  | 5 => do pure (.declGroup (← words))
  | 6 => do pure (.block (← words))
  | 7 => do pure (.exprStmt (← word))
  | 8 => do
      let condition ← word
      let thenBranch ← word
      let elseBranch ← optionalWord
      pure (.ifElse condition thenBranch elseBranch)
  | 9 => do
      let condition ← word
      let body ← word
      pure (.whileLoop condition body)
  | 10 => do
      let body ← word
      let condition ← word
      pure (.doWhile body condition)
  | 11 => do
      let init ← optionalWord
      let condition ← optionalWord
      let increment ← optionalWord
      let body ← word
      pure (.forLoop init condition increment body)
  | 12 => do
      let expr ← word
      let cases ← counted arm
      pure (.switch expr cases)
  | 13 => do pure (.returnStmt (← optionalWord))
  | 14 => pure .breakStmt
  | 15 => pure .continueStmt
  | 16 => pure .empty
  | 17 => do literal (← flag)
  | 18 => do pure (.charLiteral (← byte).toInt8)
  | 19 => do pure (.stringLiteral (← reference table))
  | 20 => do pure (.boolLiteral (← flag))
  | 21 => pure .nullLiteral
  | 22 => do pure (.identifier (← reference table))
  | 23 => do
      let op ← operator binaryOps "binary operator"
      let left ← word
      let right ← word
      pure (.binary op left right)
  | 24 => do
      let op ← operator logicalOps "logical operator"
      let left ← word
      let right ← word
      pure (.logical op left right)
  | 25 => do
      let op ← operator unaryOps "unary operator"
      let operand ← word
      pure (.unary op operand)
  | 26 => do
      let op ← operator incDecOps "increment operator"
      let target ← word
      pure (.incDec op target)
  | 27 => do
      let condition ← word
      let thenExpr ← word
      let elseExpr ← word
      pure (.ternary condition thenExpr elseExpr)
  | 28 => do
      let target ← word
      let value ← word
      pure (.assign target value)
  | 29 => do
      let op ← operator binaryOps "binary operator"
      let target ← word
      let value ← word
      pure (.compoundAssign op target value)
  | 30 => do
      let callee ← reference table
      let args ← words
      pure (.call callee args)
  | 31 => do
      let receiver ← word
      let method ← reference table
      let args ← words
      pure (.methodCall receiver method args)
  | 32 => do
      let array ← word
      let position ← word
      pure (.index array position)
  | 33 => do
      let object ← word
      let name ← reference table
      let throughPointer ← flag
      pure (.member object name throughPointer)
  | 34 => do
      let type ← dataType table
      let expr ← word
      pure (.cast type expr)
  | 35 => do pure (.sizeofType (← dataType table))
  | 36 => do pure (.sizeofExpr (← word))
  | 37 => do pure (.initList (← words))
  | _ => unknown "node" tag

def node (table : List String) : Read Node := do
  let tag ← byte
  let line ← word
  let column ← word
  let kind ← contents table tag
  pure ⟨kind, ⟨line, column⟩⟩

def text : Read String := do
  match Text.ofBytes? (← take (← word)) with
  | some value => pure value
  | none => fail .invalidUtf8

def header : Read Unit := do
  if (← take magic.length) != magic then fail .badMagic
  let found ← number 2
  if found != version then fail (.unsupportedVersion found)

def program : Read Program := do
  header
  let count ← word
  let items ← words
  let table ← counted text
  let nodes ← replicate (node table) count
  let source ← get
  if source.rest.isEmpty then pure ⟨nodes.toArray, items⟩
  else fail (.trailingBytes source.rest.length)

end Read

end Breadboard.Archive
