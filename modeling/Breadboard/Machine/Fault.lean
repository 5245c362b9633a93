import Breadboard.Memory.Environment
import Breadboard.Text.Quoted

/-!
Why a run fails, and where. Every cause has one of the kinds that the host is
told, and one wording.
-/

namespace Breadboard

inductive Mismatch where
  | conversion (type : String) (target : BaseType)
  | toPointer (type : String)
  | toStruct (type name : String)
  | arrayInitializer (type : String)
  | arrayOverflow (size : Nat)
  | structOverflow (name : String)
  | unknownStruct (name : String)
  | memberOfScalar (field : String)
  | noSuchField (owner field : String)
  | notIndexable (type : String)
  | notDereferenceable (type : String)
  | notStorage (type : String)
  | operator (op : BinaryOp) (left right : String)
  | floatOperator (op : BinaryOp)
  | shiftOperands (op : BinaryOp)
  | unaryOperator (op : UnaryOp) (type : String)
  | increment (type : String)
  | condition (type : String)
  | selector (type : String)
  | arrayIndex (type : String)
  | argument (pos : Nat) (function type wanted : String)
  | methodThroughPointer (method : String)
  | methodOn (method type : String)
  | libraryArguments (className method : String)
  deriving DecidableEq

inductive Unsupported where
  | operandUnderflow
  | wrongNode (wanted : String)
  | callOfNonFunction
  | addressOperator
  | nestedFunction (name : String)
  | localStruct (name : String)
  | statementAsValue
  | noStorage
  | pointerOutsideArray
  | sizeofExpression
  | labelNotConstant
  | returnOutsideFunction
  | breakOutsideLoop
  | continueOutsideLoop
  | method (name : String)
  | noRoute (className method : String)
  deriving DecidableEq

inductive Cause where
  | typeMismatch (mismatch : Mismatch)
  | undefinedVariable (name : String)
  | undefinedFunction (name : String)
  | duplicateDeclaration (name : String)
  | divisionByZero (operation : String)
  | indexOutOfBounds (index : Int64) (size : Nat)
  | nullDereference
  | unsupported (construct : Unsupported)
  | argumentCount (function : String) (expected got : Nat)
  | constAssignment (name : String)
  | iterationCap (limit : Nat)
  deriving DecidableEq

structure Fault where
  cause : Cause
  location : Location
  deriving DecidableEq

def BaseType.label : BaseType → String
  | .void => "Void"
  | .bool => "Bool"
  | .char => "Char"
  | .byte => "UChar"
  | .short => "Short"
  | .word => "UShort"
  | .int => "Int"
  | .unsigned => "UInt"
  | .longLong => "LongLong"
  | .float => "Float"
  | .double => "Double"
  | .text => "String"
  | .record name => "Struct(" ++ Text.quoted name ++ ")"
  | .library name => "Class(" ++ Text.quoted name ++ ")"

def UnaryOp.label : UnaryOp → String
  | .neg => "Neg"
  | .plus => "Plus"
  | .not => "Not"
  | .bitNot => "BitNot"
  | .deref => "Deref"
  | .addressOf => "AddrOf"

def Mismatch.message : Mismatch → String
  | .conversion type target => "cannot convert " ++ type ++ " to " ++ target.label
  | .toPointer type => "cannot convert " ++ type ++ " to a pointer"
  | .toStruct type name => "cannot convert " ++ type ++ " to struct " ++ name
  | .arrayInitializer type => "cannot initialize an array from " ++ type
  | .arrayOverflow size => "too many initializers for array of size " ++ toString size
  | .structOverflow name => "too many initializers for struct " ++ name
  | .unknownStruct name => "unknown struct '" ++ name ++ "'"
  | .memberOfScalar field => "member '" ++ field ++ "' of a non-struct value"
  | .noSuchField owner field => "no field '" ++ field ++ "' in " ++ owner
  | .notIndexable type => "cannot index a value of type " ++ type
  | .notDereferenceable type => "cannot dereference a value of type " ++ type
  | .notStorage type => type ++ " does not designate storage"
  | .operator op left right =>
      "operator " ++ op.symbol ++ " on " ++ left ++ " and " ++ right
  | .floatOperator op => "operator " ++ op.symbol ++ " on floating point operands"
  | .shiftOperands op => "operator " ++ op.symbol ++ " needs integer operands"
  | .unaryOperator op type => "unary operator " ++ op.label ++ " on " ++ type
  | .increment type => "cannot increment a value of type " ++ type
  | .condition type => type ++ " cannot be used as a condition"
  | .selector type => "switch on a value of type " ++ type
  | .arrayIndex type => "array index of type " ++ type
  | .argument pos function type wanted =>
      "argument " ++ toString pos ++ " of " ++ function ++ "() is " ++ type ++
        ", expected " ++ wanted
  | .methodThroughPointer method => "cannot call " ++ method ++ "() through a pointer"
  | .methodOn method type => "cannot call " ++ method ++ "() on a value of type " ++ type
  | .libraryArguments className method =>
      "invalid arguments for " ++ className ++ "." ++ method ++ "()"

def Unsupported.message : Unsupported → String
  | .operandUnderflow => "operand stack underflow"
  | .wrongNode wanted => wanted ++ " expected"
  | .callOfNonFunction => "call of a non-function"
  | .addressOperator => "address operators are evaluated as places"
  | .nestedFunction name => "nested definition of '" ++ name ++ "'"
  | .localStruct name => "local definition of struct '" ++ name ++ "'"
  | .statementAsValue => "statement used where a value is expected"
  | .noStorage => "expression does not designate storage"
  | .pointerOutsideArray => "indexing a pointer that does not point into an array"
  | .sizeofExpression => "sizeof of this expression"
  | .labelNotConstant => "case label is not a constant expression"
  | .returnOutsideFunction => "return outside of a function"
  | .breakOutsideLoop => "break outside of a loop or switch"
  | .continueOutsideLoop => "continue outside of a loop"
  | .method name => name ++ "() is not supported"
  | .noRoute className name => className ++ "." ++ name ++ "() has no library route"

namespace Cause

def kind : Cause → String
  | .typeMismatch _ => "TypeMismatch"
  | .undefinedVariable _ => "UndefinedVariable"
  | .undefinedFunction _ => "UndefinedFunction"
  | .duplicateDeclaration _ => "DuplicateDeclaration"
  | .divisionByZero _ => "DivisionByZero"
  | .indexOutOfBounds _ _ => "ArrayIndexOutOfBounds"
  | .nullDereference => "NullDereference"
  | .unsupported _ => "UnsupportedConstruct"
  | .argumentCount _ _ _ => "ArgumentCountMismatch"
  | .constAssignment _ => "ConstAssignment"
  | .iterationCap _ => "IterationCapExceeded"

def ofMemory : MemoryError → Cause
  | .duplicateDeclaration name => .duplicateDeclaration name
  | .undefinedVariable name => .undefinedVariable name
  | .indexOutOfBounds index size => .indexOutOfBounds (Int64.ofNat index) size
  | .danglingPlace => .nullDereference
  | .notIndexable type => .typeMismatch (.notIndexable type)
  | .noSuchField owner field => .typeMismatch (.noSuchField owner field)

end Cause

namespace Fault

def kind (fault : Fault) : String := fault.cause.kind

def message (fault : Fault) : String :=
  let line := toString fault.location.line
  match fault.cause with
  | .typeMismatch mismatch => "Type mismatch at line " ++ line ++ ": " ++ mismatch.message
  | .undefinedVariable name => "Undefined variable '" ++ name ++ "' at line " ++ line
  | .undefinedFunction name => "Undefined function '" ++ name ++ "' at line " ++ line
  | .duplicateDeclaration name =>
      "'" ++ name ++ "' is already declared in this scope (line " ++ line ++ ")"
  | .divisionByZero operation => operation ++ " by zero at line " ++ line
  | .indexOutOfBounds index size =>
      "Index " ++ toString index.toInt ++ " out of bounds for size " ++ toString size ++
        " at line " ++ line
  | .nullDereference => "Null pointer dereference at line " ++ line
  | .unsupported construct =>
      "Unsupported construct at line " ++ line ++ ": " ++ construct.message
  | .argumentCount function expected got =>
      "Function '" ++ function ++ "' expects " ++ toString expected ++ " argument" ++
        (if expected = 1 then "" else "s") ++ ", got " ++ toString got ++ " at line " ++ line
  | .constAssignment name => "Cannot assign to const '" ++ name ++ "' at line " ++ line
  | .iterationCap limit =>
      "Loop exceeded " ++ toString limit ++ " iterations at line " ++ line

end Fault

end Breadboard
