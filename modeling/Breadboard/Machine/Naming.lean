import Breadboard.Machine.Constant
import Breadboard.Machine.Operator
import Breadboard.Machine.Reading

/-!
What expressions mean without being run: names that are no variables, types of
expressions for `sizeof`, and constant labels of a switch.
-/

namespace Breadboard

/-- The value of an integer literal: `int` if it fits and is not marked unsigned, then
`unsigned long`, then `long long`. -/
def Value.ofLiteral (n : Int64) (unsigned : Bool) : Value :=
  if !unsigned && Int32.minValue.toInt64 ≤ n && n ≤ Int32.maxValue.toInt64 then
    .int n.toInt32
  else if 0 ≤ n && n ≤ 0xFFFFFFFF then .unsigned n.toUInt64.toUInt32
  else .long n

def Value.ownType : Value → DataType
  | .bool _ => .of .bool
  | .char _ => .of .char
  | .unsigned _ => .of .unsigned
  | .long _ => .of .longLong
  | .float _ => .of .double
  | .text _ => .of .text
  | _ => .of .int

def MacroValue.value : MacroValue → Value
  | .int n => .ofLiteral n false
  | .float x => .float x
  | .text string => .text string

def BaseType.rank : BaseType → Nat
  | .double => 5
  | .float => 4
  | .longLong => 3
  | .unsigned => 2
  | _ => 1

def DataType.arithmetic (left right : DataType) : DataType :=
  if 0 < left.pointerDepth || left.isArray then left
  else if 0 < right.pointerDepth || right.isArray then right
  else
    let base := if right.base.rank ≤ left.base.rank then left.base else right.base
    match base with
    | .double | .float | .longLong | .unsigned => .of base
    | _ => .of .int

def Value.label (value : Value) : Except Cause Int64 :=
  match value with
  | .float _ => .error (.unsupported .labelNotConstant)
  | _ =>
      match value.integer? with
      | some n => .ok n
      | none => .error (.unsupported .labelNotConstant)

namespace Firmware

/-- The value of a name that is no variable: a macro, a constant of the board or a
function. -/
def resolve (fw : Firmware) (name : String) : Except Cause Value :=
  match fw.macros.lookup name with
  | some value => .ok value.value
  | none =>
      match Constant.lookup? name with
      | some value => .ok value
      | none =>
          match fw.program.function? name with
          | some _ => .ok (.function name)
          | none => .error (.undefinedVariable name)

def resultType (fw : Firmware) (callee : String) : DataType :=
  match fw.program.function? callee with
  | some id =>
      match fw.program.kind id with
      | .functionDef _ _ returnType _ => returnType
      | _ => .of .int
  | none => .of .int

def memoryFault (loc : Location) (error : MemoryError) : Fault := ⟨.ofMemory error, loc⟩

/-- The type of an expression that is not evaluated, by the types of the expressions in it. -/
def typeBy (fw : Firmware) (env : Environment) (typeOf : NodeId → Except Fault DataType)
    (id : NodeId) : Except Fault DataType :=
  let loc := fw.program.location id
  match fw.program.kind id with
  | .intLiteral value unsigned => .ok (Value.ofLiteral value unsigned).ownType
  | .floatLiteral _ => .ok (.of .double)
  | .charLiteral _ => .ok (.of .char)
  | .boolLiteral _ => .ok (.of .bool)
  | .stringLiteral string => .ok ((DataType.of .char).arrayOf (some (Text.size string + 1)))
  | .nullLiteral => .ok (DataType.of .void).pointerTo
  | .identifier name =>
      match env.lookup? name with
      | some cell => (env.placeType fw.structs (.of cell)).mapError (memoryFault loc)
      | none =>
          match fw.resolve name with
          | .ok value => .ok value.ownType
          | .error cause => .error ⟨cause, loc⟩
  | .index array _ => do .ok (← typeOf array).element
  | .member object field _ => do
      match (← typeOf object).base with
      | .record name =>
          match (fw.structs.lookup name).bind
              (·.find? fun f => f.name = field) with
          | some f => .ok f.type
          | none => .error ⟨.typeMismatch (.noSuchField name field), loc⟩
      | _ => .error ⟨.typeMismatch (.memberOfScalar field), loc⟩
  | .unary .deref operand => do .ok (← typeOf operand).element
  | .unary .addressOf operand => do .ok (← typeOf operand).pointerTo
  | .unary .not _ => .ok (.of .bool)
  | .unary _ operand => do .ok ((← typeOf operand).arithmetic (.of .int))
  | .incDec _ target => typeOf target
  | .binary op left right =>
      if op.isComparison then .ok (.of .bool)
      else if op = .shl || op = .shr then typeOf left
      else do
        let leftType ← typeOf left
        let rightType ← typeOf right
        .ok (leftType.arithmetic rightType)
  | .logical _ _ _ => .ok (.of .bool)
  | .ternary _ thenExpr _ => typeOf thenExpr
  | .assign target _ => typeOf target
  | .compoundAssign _ target _ => typeOf target
  | .cast type _ => .ok type
  | .call callee _ => .ok (fw.resultType callee)
  | .sizeofType _ | .sizeofExpr _ => .ok (.of .int)
  | .initList items =>
      match items with
      | first :: _ => do .ok ((← typeOf first).arrayOf (some items.length))
      | [] => .ok ((DataType.of .int).arrayOf (some 0))
  | _ => .error ⟨.unsupported .sizeofExpression, loc⟩

def typeAt (fw : Firmware) (env : Environment) : Nat → NodeId → Except Fault DataType
  | 0, id => .error ⟨.unsupported .sizeofExpression, fw.program.location id⟩
  | fuel + 1, id => fw.typeBy env (typeAt fw env fuel) id

/-- The type of an expression; no expression nests deeper than there are nodes. -/
def staticType (fw : Firmware) (env : Environment) (id : NodeId) : Except Fault DataType :=
  fw.typeAt env (fw.program.nodes.size + 1) id

def labelName (fw : Firmware) (env : Environment) (name : String) : Except Cause Int64 := do
  let value ←
    match env.lookup? name with
    | some cell => ((env.resolve cell).map Variable.value).mapError Cause.ofMemory
    | none => fw.resolve name
  value.label

def labelAt (fw : Firmware) (env : Environment) : Nat → NodeId → Except Fault Int64
  | 0, id => .error ⟨.unsupported .labelNotConstant, fw.program.location id⟩
  | fuel + 1, id =>
      let loc := fw.program.location id
      match fw.program.kind id with
      | .intLiteral value _ => .ok value
      | .charLiteral value => .ok value.toInt64
      | .boolLiteral value => .ok (if value then 1 else 0)
      | .identifier name => (fw.labelName env name).mapError fun cause => ⟨cause, loc⟩
      | .unary .neg operand => do .ok (-(← labelAt fw env fuel operand))
      | .binary op left right => do
          let l ← labelAt fw env fuel left
          let r ← labelAt fw env fuel right
          match op.apply (.long l) (.long r) with
          | .ok value =>
              match value.integer? with
              | some n => .ok n
              | none => .error ⟨.unsupported .labelNotConstant, loc⟩
          | .error cause => .error ⟨cause, loc⟩
      | .cast _ expr => labelAt fw env fuel expr
      | _ => .error ⟨.unsupported .labelNotConstant, loc⟩

def labelValue (fw : Firmware) (env : Environment) (id : NodeId) : Except Fault Int64 :=
  fw.labelAt env (fw.program.nodes.size + 1) id

end Firmware

end Breadboard
