import Breadboard.Number.Binary64
import Breadboard.Sketch.DataType
import Breadboard.Sketch.Location

/-!
Programs as an arena of nodes. A node refers to its children by their index, so
the identity of a declaration is a number that survives storage.
-/

namespace Breadboard

abbrev NodeId := Nat

inductive BinaryOp where
  | add | sub | mul | div | mod
  | eq | ne | lt | le | gt | ge
  | bitAnd | bitOr | bitXor | shl | shr
  deriving DecidableEq

def BinaryOp.symbol : BinaryOp → String
  | .add => "+"
  | .sub => "-"
  | .mul => "*"
  | .div => "/"
  | .mod => "%"
  | .eq => "=="
  | .ne => "!="
  | .lt => "<"
  | .le => "<="
  | .gt => ">"
  | .ge => ">="
  | .bitAnd => "&"
  | .bitOr => "|"
  | .bitXor => "^"
  | .shl => "<<"
  | .shr => ">>"

inductive LogicalOp where
  | and | or
  deriving DecidableEq

inductive UnaryOp where
  | neg | plus | not | bitNot | deref | addressOf
  deriving DecidableEq

inductive IncDecOp where
  | preInc | preDec | postInc | postDec
  deriving DecidableEq

namespace IncDecOp

def yieldsNew : IncDecOp → Bool
  | .preInc | .preDec => true
  | .postInc | .postDec => false

def increments : IncDecOp → Bool
  | .preInc | .postInc => true
  | .preDec | .postDec => false

end IncDecOp

structure SwitchCase where
  label : Option NodeId
  body : List NodeId
  deriving DecidableEq

inductive NodeKind where
  | functionDef (name : String) (params : List Field) (returnType : DataType)
      (body : NodeId)
  | structDef (name : String) (fields : List Field)
  | varDecl (name : String) (type : DataType) (init : Option NodeId)
      (isStatic isVolatile : Bool)
  | objectDecl (name className : String) (args : List NodeId)
  | declGroup (decls : List NodeId)
  | block (statements : List NodeId)
  | exprStmt (expr : NodeId)
  | ifElse (condition thenBranch : NodeId) (elseBranch : Option NodeId)
  | whileLoop (condition body : NodeId)
  | doWhile (body condition : NodeId)
  | forLoop (init condition increment : Option NodeId) (body : NodeId)
  | switch (expr : NodeId) (cases : List SwitchCase)
  | returnStmt (expr : Option NodeId)
  | breakStmt
  | continueStmt
  | empty
  | intLiteral (value : Int64) (unsigned : Bool)
  | floatLiteral (value : Binary64)
  | charLiteral (value : Int8)
  | stringLiteral (value : String)
  | boolLiteral (value : Bool)
  | nullLiteral
  | identifier (name : String)
  | binary (op : BinaryOp) (left right : NodeId)
  | logical (op : LogicalOp) (left right : NodeId)
  | unary (op : UnaryOp) (operand : NodeId)
  | incDec (op : IncDecOp) (target : NodeId)
  | ternary (condition thenExpr elseExpr : NodeId)
  | assign (target value : NodeId)
  | compoundAssign (op : BinaryOp) (target value : NodeId)
  | call (callee : String) (args : List NodeId)
  | methodCall (receiver : NodeId) (method : String) (args : List NodeId)
  | index (array pos : NodeId)
  | member (object : NodeId) (field : String) (throughPointer : Bool)
  | cast (type : DataType) (expr : NodeId)
  | sizeofType (type : DataType)
  | sizeofExpr (expr : NodeId)
  | initList (items : List NodeId)
  deriving DecidableEq

def NodeKind.children : NodeKind → List NodeId
  | .functionDef _ _ _ body => [body]
  | .varDecl _ _ init _ _ => init.toList
  | .objectDecl _ _ args => args
  | .declGroup decls => decls
  | .block statements => statements
  | .exprStmt expr => [expr]
  | .ifElse condition thenBranch elseBranch => condition :: thenBranch :: elseBranch.toList
  | .whileLoop condition body => [condition, body]
  | .doWhile body condition => [body, condition]
  | .forLoop init condition increment body =>
      init.toList ++ condition.toList ++ increment.toList ++ [body]
  | .switch expr cases => expr :: cases.flatMap fun arm => arm.label.toList ++ arm.body
  | .returnStmt expr => expr.toList
  | .binary _ left right => [left, right]
  | .logical _ left right => [left, right]
  | .unary _ operand => [operand]
  | .incDec _ target => [target]
  | .ternary condition thenExpr elseExpr => [condition, thenExpr, elseExpr]
  | .assign target value => [target, value]
  | .compoundAssign _ target value => [target, value]
  | .call _ args => args
  | .methodCall receiver _ args => receiver :: args
  | .index array pos => [array, pos]
  | .member object _ _ => [object]
  | .cast _ expr => [expr]
  | .sizeofExpr expr => [expr]
  | .initList items => items
  | .structDef _ _ | .breakStmt | .continueStmt | .empty | .intLiteral _ _
  | .floatLiteral _ | .charLiteral _ | .stringLiteral _ | .boolLiteral _
  | .nullLiteral | .identifier _ | .sizeofType _ => []

structure Node where
  kind : NodeKind
  location : Location
  deriving DecidableEq

structure Program where
  nodes : Array Node
  items : List NodeId
  deriving DecidableEq

namespace Program

/-- The kind of a node; an index outside the arena counts as an empty statement. -/
def kind (program : Program) (id : NodeId) : NodeKind :=
  match program.nodes[id]? with
  | some node => node.kind
  | none => .empty

def location (program : Program) (id : NodeId) : Location :=
  match program.nodes[id]? with
  | some node => node.location
  | none => ⟨0, 0⟩

def definesFunction (program : Program) (name : String) (id : NodeId) : Bool :=
  match program.kind id with
  | .functionDef defined _ _ _ => defined = name
  | _ => false

def function? (program : Program) (name : String) : Option NodeId :=
  program.items.reverse.find? (program.definesFunction name)

def structs (program : Program) : StructTable :=
  program.items.reverse.filterMap fun id =>
    match program.kind id with
    | .structDef name fields => some (name, fields)
    | _ => none

end Program

end Breadboard
