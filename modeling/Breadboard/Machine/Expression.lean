import Breadboard.Machine.Method

/-!
Evaluating expressions. `eval` leaves the value of an expression on the operand
stack and `evalPlace` its place; an expression with parts schedules a frame that
finishes it below the frames of its parts, which run in source order.
-/

namespace Breadboard

namespace Environment

def offsetPlace (env : Environment) (pointer : Place) (distance : Int64) : Except Cause Place :=
  if distance = 0 then .ok pointer
  else
    match pointer.lastIndex? with
    | none => .error (.unsupported .pointerOutsideArray)
    | some pos =>
        match pointer.offset? distance with
        | some place => .ok place
        | none =>
            .error (.indexOutOfBounds (Int64.ofNat pos + distance)
              ((env.elementCount? pointer).getD 0))

/-- Next to a text, a pointer into characters takes part as their text. -/
def textOperands (env : Environment) (left right : Value) : Value × Value :=
  match left, right with
  | .text _, .pointer _ => (left, env.textOf right)
  | .pointer _, .text _ => (env.textOf left, right)
  | _, _ => (left, right)

def pointerOffset? (op : BinaryOp) (left right : Value) : Option (Place × Int64) :=
  match op, left, right with
  | .add, .pointer place, n => n.wholeNumber?.map fun distance => (place, distance)
  | .add, n, .pointer place => n.wholeNumber?.map fun distance => (place, distance)
  | .sub, .pointer place, n => n.wholeNumber?.map fun distance => (place, -distance)
  | _, _, _ => none

def operate (env : Environment) (op : BinaryOp) (left right : Value) : Except Cause Value :=
  let (left, right) := env.textOperands left right
  match pointerOffset? op left right with
  | some (pointer, distance) => (env.offsetPlace pointer distance).map .pointer
  | none => op.apply left right

/-- The value at a place; an array is a pointer to its first element. -/
def load (env : Environment) (place : Place) : Except MemoryError Value := do
  match ← env.read place with
  | .array _ => .ok (.pointer (place.index 0))
  | value => .ok value

def checkWritable (env : Environment) (place : Place) : Except Cause Unit :=
  match env.resolve place.cell with
  | .error error => .error (.ofMemory error)
  | .ok declared =>
      if declared.type.isConst && declared.type.pointerDepth = 0 then
        .error (.constAssignment declared.name)
      else .ok ()

def elementOf (env : Environment) (place : Place) (index : Int64) : Except Cause Place :=
  match env.read place with
  | .error error => .error (.ofMemory error)
  | .ok (.array items) =>
      if index < 0 || items.length ≤ index.toInt.toNat then
        .error (.indexOutOfBounds index items.length)
      else .ok (place.index index.toInt.toNat)
  | .ok (.text string) =>
      let size := Text.size string
      if index < 0 || size < index.toInt.toNat then
        .error (.indexOutOfBounds index (size + 1))
      else .ok (place.index index.toInt.toNat)
  | .ok (.pointer pointee) => env.offsetPlace pointee index
  | .ok .null => .error .nullDereference
  | .ok value => .error (.typeMismatch (.notIndexable value.typeName))

/-- What a pointer at a place points to; a text or an array starts at its first
element. -/
def pointeeOf (env : Environment) (place : Place) : Except Cause Place :=
  match env.read place with
  | .error error => .error (.ofMemory error)
  | .ok (.pointer pointee) => .ok pointee
  | .ok (.text _) => .ok (place.index 0)
  | .ok (.array _) => .ok (place.index 0)
  | .ok .null => .error .nullDereference
  | .ok value => .error (.typeMismatch (.notDereferenceable value.typeName))

end Environment

namespace Firmware

def hasPlace (fw : Firmware) (env : Environment) (id : NodeId) : Bool :=
  match fw.program.kind id with
  | .identifier name => (env.lookup? name).isSome
  | .index _ _ | .member _ _ _ | .unary .deref _ => true
  | _ => false

def operand (fw : Firmware) (env : Environment) (id : NodeId) : Frame × Bool :=
  if fw.hasPlace env id then (.evalPlace id, true) else (.eval id, false)

end Firmware

namespace Act

def popPlace (loc : Location) : Act Place := do
  match ← pop loc with
  | .pointer place => pure place
  | .null => raise .nullDereference loc
  | value => mismatch (.notStorage value.typeName) loc

def store (fw : Firmware) (place : Place) (value : Value) (loc : Location) :
    Act (Value × Effect) := do
  let env ← environment
  let type ← attemptMemory (env.placeType fw.structs place) loc
  let stored ← convert fw value type loc
  setEnvironment (← attemptMemory (env.write place stored) loc)
  let effect ← varSet place stored
  pure (stored, effect)

def evalName (fw : Firmware) (name : String) (loc : Location) : Act Unit := do
  let env ← environment
  match env.lookup? name with
  | some cell => push (← attemptMemory (env.load (.of cell)) loc)
  | none => push (← attempt (fw.resolve name) loc)

def evalCall (fw : Firmware) (node : NodeId) (callee : String) (args : List NodeId)
    (loc : Location) : Act Unit := do
  let operands := args.map Frame.eval
  match fw.program.function? callee with
  | some function => schedule (operands ++ [.call function args.length loc])
  | none =>
      match Builtin.ofName? callee with
      | some _ => schedule (operands ++ [.builtin node])
      | none => raise (.undefinedFunction callee) loc

def eval (fw : Firmware) (node : NodeId) : Act Unit := do
  let loc := fw.program.location node
  match fw.program.kind node with
  | .intLiteral value unsigned => push (.ofLiteral value unsigned)
  | .floatLiteral value => push (.float value)
  | .charLiteral value => push (.char value)
  | .stringLiteral value => push (.text value)
  | .boolLiteral value => push (.bool value)
  | .nullLiteral => push .null
  | .identifier name => evalName fw name loc
  | .binary _ left right => schedule [.eval left, .eval right, .binary node]
  | .logical _ left _ => schedule [.eval left, .logical node false]
  | .unary .addressOf operand => schedule [.evalPlace operand]
  | .unary .deref _ | .index _ _ | .member _ _ _ => schedule [.evalPlace node, .load node]
  | .unary _ operand => schedule [.eval operand, .unary node]
  | .incDec _ target => schedule [.evalPlace target, .incDec node]
  | .ternary condition _ _ => schedule [.eval condition, .select node]
  | .assign target value => schedule [.evalPlace target, .eval value, .assign node]
  | .compoundAssign _ target value =>
      schedule [.evalPlace target, .eval value, .compoundAssign node]
  | .call callee args => evalCall fw node callee args loc
  | .methodCall receiver _ args => schedule ((receiver :: args).map Frame.eval ++ [.method node])
  | .cast _ expr => schedule [.eval expr, .cast node]
  | .sizeofType type => push (.int (Int32.ofNat (type.size fw.structs)))
  | .sizeofExpr expr =>
      match fw.staticType (← environment) expr with
      | .ok type => push (.int (Int32.ofNat (type.size fw.structs)))
      | .error fault => throw fault
  | .initList items => schedule (items.map Frame.eval ++ [.collect items.length])
  | _ => unsupported .statementAsValue loc

def evalPlace (fw : Firmware) (node : NodeId) : Act Unit := do
  let loc := fw.program.location node
  let env ← environment
  match fw.program.kind node with
  | .identifier name =>
      match env.lookup? name with
      | some cell => push (.pointer (.of cell))
      | none => do
          let _ ← attempt (fw.resolve name) loc
          raise (.constAssignment name) loc
  | .index array pos =>
      let (base, fromPlace) := fw.operand env array
      schedule [base, .eval pos, .indexPlace node fromPlace]
  | .member object _ throughPointer =>
      if throughPointer then schedule [.eval object, .fieldPlace node]
      else schedule [.evalPlace object, .fieldPlace node]
  | .unary .deref operand =>
      let (pointer, fromPlace) := fw.operand env operand
      schedule [pointer, .derefPlace node fromPlace]
  | _ => unsupported .noStorage loc

def runLoad (fw : Firmware) (node : NodeId) : Act Unit := do
  let loc := fw.program.location node
  let place ← popPlace loc
  push (← attemptMemory ((← environment).load place) loc)

def runBinary (fw : Firmware) (node : NodeId) : Act Unit := do
  let loc := fw.program.location node
  match fw.program.kind node with
  | .binary op _ _ =>
      let right ← pop loc
      let left ← pop loc
      push (← attempt ((← environment).operate op left right) loc)
  | _ => unsupported (.wrongNode "binary expression") loc

/-- Goes on after an operand of `&&` or `||`; the right one runs only if the left one
does not decide. -/
def runLogical (fw : Firmware) (node : NodeId) (isRight : Bool) : Act Unit := do
  let loc := fw.program.location node
  match fw.program.kind node with
  | .logical op _ right =>
      let decided ← truth (← pop loc) loc
      if isRight then push (.bool decided)
      else
        match op, decided with
        | .and, false => push (.bool false)
        | .or, true => push (.bool true)
        | _, _ => schedule [.eval right, .logical node true]
  | _ => unsupported (.wrongNode "logical expression") loc

def runUnary (fw : Firmware) (node : NodeId) : Act Unit := do
  let loc := fw.program.location node
  match fw.program.kind node with
  | .unary op _ =>
      let value ← pop loc
      push (← attempt (op.apply value) loc)
  | _ => unsupported (.wrongNode "unary expression") loc

def stepped (env : Environment) (op : IncDecOp) (old : Value) : Except Cause Value :=
  match old with
  | .pointer place => (env.offsetPlace place (if op.increments then 1 else -1)).map .pointer
  | _ => op.apply old

def runIncDec (fw : Firmware) (node : NodeId) : Act Effect := do
  let loc := fw.program.location node
  match fw.program.kind node with
  | .incDec op _ =>
      let place ← popPlace loc
      let env ← environment
      attempt (env.checkWritable place) loc
      let old ← attemptMemory (env.read place) loc
      let new ← attempt (stepped env op old) loc
      let (stored, effect) ← store fw place new loc
      push (if op.yieldsNew then stored else old)
      pure effect
  | _ => unsupported (.wrongNode "increment") loc

def runSelect (fw : Firmware) (node : NodeId) : Act Unit := do
  let loc := fw.program.location node
  match fw.program.kind node with
  | .ternary _ thenExpr elseExpr =>
      let holds ← truth (← pop loc) loc
      schedule [.eval (if holds then thenExpr else elseExpr)]
  | _ => unsupported (.wrongNode "conditional expression") loc

def runAssign (fw : Firmware) (node : NodeId) : Act Effect := do
  let loc := fw.program.location node
  let value ← pop loc
  let place ← popPlace loc
  attempt ((← environment).checkWritable place) loc
  let (stored, effect) ← store fw place value loc
  push stored
  pure effect

def runCompoundAssign (fw : Firmware) (node : NodeId) : Act Effect := do
  let loc := fw.program.location node
  match fw.program.kind node with
  | .compoundAssign op _ _ =>
      let right ← pop loc
      let place ← popPlace loc
      let env ← environment
      attempt (env.checkWritable place) loc
      let current ← attemptMemory (env.read place) loc
      let result ← attempt (env.operate op current right) loc
      let (stored, effect) ← store fw place result loc
      push stored
      pure effect
  | _ => unsupported (.wrongNode "compound assignment") loc

def runCast (fw : Firmware) (node : NodeId) : Act Unit := do
  let loc := fw.program.location node
  match fw.program.kind node with
  | .cast type _ =>
      let value ← pop loc
      push (← convert fw value type loc)
  | _ => unsupported (.wrongNode "cast") loc

def runIndexPlace (fw : Firmware) (node : NodeId) (fromPlace : Bool) : Act Unit := do
  let loc := fw.program.location node
  let pos ← pop loc
  match pos.wholeNumber? with
  | none => mismatch (.arrayIndex pos.typeName) loc
  | some index =>
      let base ← pop loc
      let env ← environment
      match base with
      | .pointer place =>
          let element :=
            if fromPlace then env.elementOf place index else env.offsetPlace place index
          push (.pointer (← attempt element loc))
      | .null => raise .nullDereference loc
      | _ => mismatch (.notIndexable base.typeName) loc

def runFieldPlace (fw : Firmware) (node : NodeId) : Act Unit := do
  let loc := fw.program.location node
  match fw.program.kind node with
  | .member _ field _ =>
      let place ← popPlace loc
      push (.pointer (place.field field))
  | _ => unsupported (.wrongNode "member access") loc

def runDerefPlace (fw : Firmware) (node : NodeId) (fromPlace : Bool) : Act Unit := do
  let loc := fw.program.location node
  let base ← pop loc
  match base with
  | .pointer place =>
      if fromPlace then
        push (.pointer (← attempt ((← environment).pointeeOf place) loc))
      else push (.pointer place)
  | .null => raise .nullDereference loc
  | _ => mismatch (.notDereferenceable base.typeName) loc

end Act

end Breadboard
