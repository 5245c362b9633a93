import Breadboard.Sketch.Grammar.Type

/-!
Expressions, one rule per level of precedence. The rule of a level is given the
rules of all levels, and the whole grammar ties the knot with a bound on the
depth of rules within rules; every cycle of levels consumes a token, so a bound
computed from the number of tokens is never reached.
-/

namespace Breadboard

/-- Levels of precedence from loosest to tightest. The binary levels run from
bitwise or, level 0, to multiplication, level 7. -/
inductive ExprLevel where
  | assignment
  | conditional
  | logical (op : LogicalOp)
  | binary (level : Nat)
  | cast
  | unary
  | suffixed
  | primary
  deriving DecidableEq

def ExprLevel.lastBinary : Nat := 7

def ExprLevel.operand : ExprLevel → ExprLevel
  | .assignment => .conditional
  | .conditional => .logical .or
  | .logical .or => .logical .and
  | .logical .and => .binary 0
  | .binary level => if level < lastBinary then .binary (level + 1) else .cast
  | .cast => .unary
  | .unary => .suffixed
  | .suffixed => .primary
  | .primary => .primary

def BinaryOp.level : BinaryOp → Nat
  | .bitOr => 0
  | .bitXor => 1
  | .bitAnd => 2
  | .eq | .ne => 3
  | .lt | .le | .gt | .ge => 4
  | .shl | .shr => 5
  | .add | .sub => 6
  | .mul | .div | .mod => 7

def Symbol.binary? : Symbol → Option BinaryOp
  | .pipe => some .bitOr
  | .caret => some .bitXor
  | .amp => some .bitAnd
  | .equal => some .eq
  | .notEqual => some .ne
  | .less => some .lt
  | .lessEqual => some .le
  | .greater => some .gt
  | .greaterEqual => some .ge
  | .shiftLeft => some .shl
  | .shiftRight => some .shr
  | .plus => some .add
  | .minus => some .sub
  | .star => some .mul
  | .slash => some .div
  | .percent => some .mod
  | _ => none

def Symbol.compound? : Symbol → Option BinaryOp
  | .plusAssign => some .add
  | .minusAssign => some .sub
  | .starAssign => some .mul
  | .slashAssign => some .div
  | .percentAssign => some .mod
  | .ampAssign => some .bitAnd
  | .pipeAssign => some .bitOr
  | .caretAssign => some .bitXor
  | .shiftLeftAssign => some .shl
  | .shiftRightAssign => some .shr
  | _ => none

def Symbol.unary? : Symbol → Option UnaryOp
  | .minus => some .neg
  | .plus => some .plus
  | .bang => some .not
  | .tilde => some .bitNot
  | .star => some .deref
  | .amp => some .addressOf
  | _ => none

def LogicalOp.symbol : LogicalOp → Symbol
  | .and => .andAnd
  | .or => .orOr

def Keyword.castsLikeCall : Keyword → Bool
  | .intKw | .longKw | .shortKw | .charKw | .boolKw | .floatKw | .doubleKw
  | .unsignedKw => true
  | _ => false

namespace Parse

def leftAssociative (operator? : TokenKind → Option (NodeId → NodeId → NodeKind))
    (operand : Parse NodeId) : Nat → NodeId → Parse NodeId
  | 0, _ => fail .exhausted
  | fuel + 1, left => do
      match operator? (← kind) with
      | none => pure left
      | some build =>
          let place ← location
          advance
          let right ← operand
          let joined ← node (build left right) place
          leftAssociative operator? operand fuel joined

def logicalOperator? (op : LogicalOp) (kind : TokenKind) : Option (NodeId → NodeId → NodeKind) :=
  if kind = .symbol op.symbol then some (.logical op) else none

def binaryOperator? (level : Nat) : TokenKind → Option (NodeId → NodeId → NodeKind)
  | .symbol symbol =>
      match symbol.binary? with
      | some op => if op.level = level then some (.binary op) else none
      | none => none
  | _ => none

def arguments (expression : Parse NodeId) (fuel : Nat) : Parse (List NodeId) := do
  if ← isAtSymbol .rightParen then pure [] else commaSeparated expression fuel

def assignment (expression operand : Parse NodeId) : Parse NodeId := do
  let target ← operand
  let place ← location
  match ← kind with
  | .symbol .assign =>
      advance
      let value ← expression
      node (.assign target value) place
  | .symbol symbol =>
      match symbol.compound? with
      | some op =>
          advance
          let value ← expression
          node (.compoundAssign op target value) place
      | none => pure target
  | _ => pure target

def conditional (expression conditional operand : Parse NodeId) : Parse NodeId := do
  let condition ← operand
  let place ← location
  if ← symbol .question then
    let thenExpr ← expression
    require .colon "in ternary expression"
    let elseExpr ← conditional
    node (.ternary condition thenExpr elseExpr) place
  else pure condition

def cast (cast operand : Parse NodeId) : Parse NodeId := do
  if (← isAtSymbol .leftParen) && (← typeFollows) then
    let place ← location
    advance
    let type ← plainType
    require .rightParen "after cast type"
    let expr ← cast
    node (.cast type expr) place
  else operand

def sizeofDims : Nat → DataType → Parse DataType
  | 0, _ => fail .exhausted
  | fuel + 1, type => do
      if ← symbol .leftBracket then
        match ← kind with
        | .int value _ =>
            if value < 0 then fail .sizeofDimension
            else
              advance
              require .rightBracket "in sizeof type"
              sizeofDims fuel (type.arrayOf (some value.toInt.toNat))
        | _ => fail .sizeofDimension
      else pure type

def sizeof (unary : Parse NodeId) (fuel : Nat) (place : Location) : Parse NodeId := do
  if (← isAtSymbol .leftParen) && (← typeFollows) then
    advance
    let type ← sizeofDims fuel (← plainType)
    require .rightParen "after sizeof type"
    node (.sizeofType type) place
  else
    let expr ← unary
    node (.sizeofExpr expr) place

def unary (cast unary operand : Parse NodeId) (fuel : Nat) : Parse NodeId := do
  let place ← location
  match ← kind with
  | .symbol .plusPlus =>
      advance
      let target ← unary
      node (.incDec .preInc target) place
  | .symbol .minusMinus =>
      advance
      let target ← unary
      node (.incDec .preDec target) place
  | .keyword .sizeofKw =>
      advance
      sizeof unary fuel place
  | .symbol symbol =>
      match symbol.unary? with
      | some op =>
          advance
          let expr ← cast
          node (.unary op expr) place
      | none => operand
  | _ => operand

def callNode (name : String) (args : List NodeId) : NodeKind :=
  match BaseType.ofAlias? name, args with
  | some base, [arg] => if base = .text then .call name args else .cast (.of base) arg
  | _, _ => .call name args

def selection (expression : Parse NodeId) (fuel : Nat) (throughPointer : Bool)
    (expr : NodeId) (place : Location) : Parse NodeId := do
  advance
  let field ← name
  if !throughPointer && (← isAtSymbol .leftParen) then
    advance
    let args ← arguments expression fuel
    require .rightParen "after method arguments"
    node (.methodCall expr field args) place
  else node (.member expr field throughPointer) place

def suffix? (expression : Parse NodeId) (fuel : Nat) (expr : NodeId) : Parse (Option NodeId) := do
  let place ← location
  match ← kind with
  | .symbol .plusPlus =>
      advance
      some <$> node (.incDec .postInc expr) place
  | .symbol .minusMinus =>
      advance
      some <$> node (.incDec .postDec expr) place
  | .symbol .leftBracket =>
      advance
      let pos ← expression
      require .rightBracket "after array index"
      some <$> node (.index expr pos) place
  | .symbol .dot => some <$> selection expression fuel false expr place
  | .symbol .arrow => some <$> selection expression fuel true expr place
  | .symbol .leftParen =>
      match (← get).nodes[expr]? with
      | some ⟨.identifier callee, start⟩ =>
          advance
          let args ← arguments expression fuel
          require .rightParen "after function arguments"
          some <$> node (callNode callee args) start
      | _ => fail .callOfExpression
  | _ => pure none

def suffixes (expression : Parse NodeId) (bound : Nat) : Nat → NodeId → Parse NodeId
  | 0, _ => fail .exhausted
  | fuel + 1, expr => do
      match ← suffix? expression bound expr with
      | some longer => suffixes expression bound fuel longer
      | none => pure expr

def isText : TokenKind → Bool
  | .text _ => true
  | _ => false

def textOf : TokenKind → String
  | .text value => value
  | _ => ""

def literal (kind : NodeKind) (place : Location) : Parse NodeId := do
  advance
  node kind place

def primary (expression : Parse NodeId) : Parse NodeId := do
  let place ← location
  match ← kind with
  | .int value unsigned => literal (.intLiteral value unsigned) place
  | .float value => literal (.floatLiteral value) place
  | .char value => literal (.charLiteral value) place
  | .text _ =>
      let pieces ← takeWhile isText
      node (.stringLiteral (String.join (pieces.map textOf))) place
  | .name value => literal (.identifier value) place
  | .keyword .trueKw => literal (.boolLiteral true) place
  | .keyword .falseKw => literal (.boolLiteral false) place
  | .keyword .nullKw => literal .nullLiteral place
  | .symbol .leftParen =>
      advance
      let expr ← expression
      require .rightParen "after expression"
      pure expr
  | .keyword keyword =>
      if keyword.castsLikeCall then
        let type ← plainType
        require .leftParen "in functional cast"
        let expr ← expression
        require .rightParen "after functional cast"
        node (.cast type expr) place
      else unexpected
  | _ => unexpected

def exprRule (fuel : Nat) (rules : ExprLevel → Parse NodeId) (level : ExprLevel) : Parse NodeId :=
  let operand := rules level.operand
  match level with
  | .assignment => assignment (rules .assignment) operand
  | .conditional => conditional (rules .assignment) (rules .conditional) operand
  | .logical op => do leftAssociative (logicalOperator? op) operand fuel (← operand)
  | .binary level => do leftAssociative (binaryOperator? level) operand fuel (← operand)
  | .cast => cast (rules .cast) operand
  | .unary => unary (rules .cast) (rules .unary) operand fuel
  | .suffixed => do suffixes (rules .assignment) fuel fuel (← operand)
  | .primary => primary (rules .assignment)

def exprAt : Nat → ExprLevel → Parse NodeId
  | 0, _ => fail .exhausted
  | fuel + 1, level => exprRule fuel (exprAt fuel) level

/-- The number of levels: no chain of them that consumes nothing is longer. -/
def exprLevels : Nat := 16

def expressionAt (level : ExprLevel) : Parse NodeId := do
  exprAt (exprLevels * (← remaining) + exprLevels) level

def expression : Parse NodeId := expressionAt .assignment

end Parse

end Breadboard
