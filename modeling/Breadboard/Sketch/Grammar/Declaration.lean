import Breadboard.Sketch.Grammar.Expression

/-!
Declarations of variables, library objects and structure types. Array sizes are
constants known while parsing.
-/

namespace Breadboard

def exactInt64? (n : Int) : Option Int64 :=
  if Int64.minValue.toInt ≤ n ∧ n ≤ Int64.maxValue.toInt then some (Int64.ofInt n) else none

def BinaryOp.fold? (op : BinaryOp) (left right : Int64) : Option Int64 :=
  match op with
  | .add => exactInt64? (left.toInt + right.toInt)
  | .sub => exactInt64? (left.toInt - right.toInt)
  | .mul => exactInt64? (left.toInt * right.toInt)
  | .div =>
      if right = 0 then none else exactInt64? (left.toInt.tdiv right.toInt)
  | .shl =>
      if 0 ≤ right ∧ right < 64 then some (left <<< right) else none
  | _ => none

def ParseState.constant? (state : ParseState) : Nat → NodeId → Option Int64
  | 0, _ => none
  | fuel + 1, id =>
      match state.nodeKind id with
      | .intLiteral value _ => some value
      | .charLiteral value => some value.toInt64
      | .identifier name => state.constants.lookup name
      | .unary .neg operand => (state.constant? fuel operand).map fun n => -n
      | .binary op left right => do
          let l ← state.constant? fuel left
          let r ← state.constant? fuel right
          op.fold? l r
      | _ => none

namespace Parse

def constant? (id : NodeId) : Parse (Option Int64) := fun state =>
  .ok (state.constant? (id + 1) id, state)

/-- A type with one array dimension for each pair of brackets that follows. -/
def arrays : Nat → DataType → Parse DataType
  | 0, _ => fail .exhausted
  | fuel + 1, type => do
      if ← symbol .leftBracket then
        if ← symbol .rightBracket then arrays fuel (type.arrayOf none)
        else
          match ← constant? (← expression) with
          | some size =>
              if size < 0 then fail .arraySize
              else
                require .rightBracket "after array size"
                arrays fuel (type.arrayOf (some size.toInt.toNat))
          | none => fail .arraySize
      else pure type

def arraySuffix (type : DataType) : Parse DataType := do
  arrays ((← remaining) + 1) type

def initializers (initializer : Parse NodeId) : Nat → Parse (List NodeId)
  | 0 => fail .exhausted
  | fuel + 1 => do
      if ← isAtSymbol .rightBrace then pure []
      else
        let first ← initializer
        if ← symbol .comma then
          let rest ← initializers initializer fuel
          pure (first :: rest)
        else pure [first]

def initializerAt : Nat → Parse NodeId
  | 0 => fail .exhausted
  | fuel + 1 => do
      let place ← location
      if ← symbol .leftBrace then
        let items ← initializers (initializerAt fuel) fuel
        require .rightBrace "after initializer list"
        node (.initList items) place
      else expression

def initializer : Parse NodeId := do
  initializerAt ((← remaining) + 1)

def recordConstant (name : String) (type : DataType) (init : NodeId) : Parse Unit := do
  if type.isConst && type.pointerDepth = 0 && !type.isArray then
    match ← constant? init with
    | some value => modify fun state => { state with constants := (name, value) :: state.constants }
    | none => pure ()
  else pure ()

def variableAfterName (spec : Specifiers) (type : DataType) (name : String)
    (place : Location) : Parse NodeId := do
  let fullType ← arraySuffix type
  if ← symbol .assign then
    let init ← initializer
    recordConstant name fullType init
    node (.varDecl name fullType (some init) spec.isStatic spec.isVolatile) place
  else node (.varDecl name fullType none spec.isStatic spec.isVolatile) place

def nextVariable (spec : Specifiers) : Parse NodeId := do
  let type ← pointers spec.type
  let place ← location
  let word ← name
  variableAfterName spec type word place

def variableDeclarations (spec : Specifiers) (type : DataType) (first : String) (place : Location) :
    Parse NodeId := do
  let decl ← variableAfterName spec type first place
  let others ← moreItems (nextVariable spec) (← remaining)
  require .semicolon "after variable declaration"
  group (decl :: others) place

def constructorArguments (className : String) : Parse (List NodeId) := do
  if ← symbol .leftParen then
    let args ← arguments expression (← remaining)
    require .rightParen "after constructor arguments"
    pure args
  else if ← symbol .assign then
    let found ← name
    if found = className then
      require .leftParen "after constructor name"
      let args ← arguments expression (← remaining)
      require .rightParen "after constructor arguments"
      pure args
    else fail (.constructorMismatch className found)
  else pure []

def object (className : String) : Parse NodeId := do
  let place ← location
  let word ← name
  let args ← constructorArguments className
  node (.objectDecl word className args) place

def objects : Parse NodeId := do
  let place ← location
  let className ← name
  let decls ← commaSeparated (object className) (← remaining)
  require .semicolon "after object declaration"
  group decls place

def localDeclaration : Parse NodeId := do
  if ← startsObject then objects
  else
    let place ← location
    let spec ← specifiers
    let type ← pointers spec.type
    let first ← name
    variableDeclarations spec type first place

def structField (spec : Specifiers) : Parse Field := do
  let type ← pointers spec.type
  let word ← name
  pure ⟨word, ← arraySuffix type⟩

def structFields : Parse (List Field) := do
  let spec ← specifiers
  let fields ← commaSeparated (structField spec) (← remaining)
  require .semicolon "after struct field"
  pure fields

def isRightBrace (kind : TokenKind) : Bool := kind = .symbol .rightBrace

/-- A structure definition. Its name is a type from its own fields on. -/
def structDefinition : Parse NodeId := do
  let place ← location
  advance
  let word ← name
  modify fun state => { state with structNames := word :: state.structNames }
  require .leftBrace "after struct name"
  let fields ← itemsUntil isRightBrace structFields (← remaining)
  require .rightBrace "after struct fields"
  require .semicolon "after struct definition"
  node (.structDef word fields.flatten) place

def parameter : Parse Field := do
  let spec ← specifiers
  let type ← pointers spec.type
  if ← isAtSymbol .amp then fail .referenceParameter
  else
    let word ←
      match ← kind with
      | .name _ => name
      | _ => pure ""
    let full ← arraySuffix type
    pure ⟨word, if full.isArray then type.pointerTo else type⟩

def parameters : Parse (List Field) := do
  if ← isAtSymbol .rightParen then pure []
  else if (← isAt (.keyword .voidKw)) &&
      (← get).kindAt 1 = some (.symbol .rightParen) then
    advance
    pure []
  else commaSeparated parameter (← remaining)

end Parse

end Breadboard
