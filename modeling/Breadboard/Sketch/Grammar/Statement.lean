import Breadboard.Sketch.Grammar.Declaration

/-!
Statements, function definitions and whole programs.
-/

namespace Breadboard

namespace Parse

def block (statement : Parse NodeId) (fuel : Nat) : Parse NodeId := do
  let place ← location
  require .leftBrace "to open block"
  let statements ← itemsUntil isRightBrace statement fuel
  require .rightBrace "to close block"
  node (.block statements) place

def expressionStatement : Parse NodeId := do
  let place ← location
  let expr ← expression
  require .semicolon "after expression"
  node (.exprStmt expr) place

def ifStatement (statement : Parse NodeId) (place : Location) : Parse NodeId := do
  require .leftParen "after 'if'"
  let condition ← expression
  require .rightParen "after if condition"
  let thenBranch ← statement
  if ← keyword .elseKw then
    let elseBranch ← statement
    node (.ifElse condition thenBranch (some elseBranch)) place
  else node (.ifElse condition thenBranch none) place

def whileStatement (statement : Parse NodeId) (place : Location) : Parse NodeId := do
  require .leftParen "after 'while'"
  let condition ← expression
  require .rightParen "after while condition"
  let body ← statement
  node (.whileLoop condition body) place

def doStatement (statement : Parse NodeId) (place : Location) : Parse NodeId := do
  let body ← statement
  expect (.keyword .whileKw) "'while' after do body"
  require .leftParen "after 'while'"
  let condition ← expression
  require .rightParen "after do-while condition"
  require .semicolon "after do-while"
  node (.doWhile body condition) place

def expressionUnless (stop : Symbol) : Parse (Option NodeId) := do
  if ← isAtSymbol stop then pure none else some <$> expression

def forInit : Parse (Option NodeId) := do
  if ← symbol .semicolon then pure none
  else if ← startsDeclaration then some <$> localDeclaration
  else some <$> expressionStatement

def forStatement (statement : Parse NodeId) (place : Location) : Parse NodeId := do
  require .leftParen "after 'for'"
  let init ← forInit
  let condition ← expressionUnless .semicolon
  require .semicolon "after for condition"
  let increment ← expressionUnless .rightParen
  require .rightParen "after for clauses"
  let body ← statement
  node (.forLoop init condition increment body) place

def extendArm (arms : List SwitchCase) (statement : NodeId) : Option (List SwitchCase) :=
  match arms with
  | arm :: earlier => some ({ arm with body := arm.body ++ [statement] } :: earlier)
  | [] => none

def switchArms (statement : Parse NodeId) : Nat → List SwitchCase → Parse (List SwitchCase)
  | 0, _ => fail .exhausted
  | fuel + 1, arms => do
      let current ← kind
      if isRightBrace current || current = .endOfFile then pure arms.reverse
      else if ← keyword .caseKw then
        let label ← expressionAt .conditional
        require .colon "after case label"
        switchArms statement fuel (⟨some label, []⟩ :: arms)
      else if ← keyword .defaultKw then
        require .colon "after 'default'"
        switchArms statement fuel (⟨none, []⟩ :: arms)
      else
        let body ← statement
        match extendArm arms body with
        | some longer => switchArms statement fuel longer
        | none => fail .statementBeforeCase

def switchStatement (statement : Parse NodeId) (fuel : Nat) (place : Location) : Parse NodeId := do
  require .leftParen "after 'switch'"
  let expr ← expression
  require .rightParen "after switch expression"
  require .leftBrace "to open switch body"
  let arms ← switchArms statement fuel []
  require .rightBrace "to close switch body"
  node (.switch expr arms) place

def returnStatement (place : Location) : Parse NodeId := do
  let expr ← expressionUnless .semicolon
  require .semicolon "after return"
  node (.returnStmt expr) place

def jumpStatement (kind : NodeKind) (word : String) (place : Location) : Parse NodeId := do
  require .semicolon ("after '" ++ word ++ "'")
  node kind place

def statementRule (statement : Parse NodeId) (fuel : Nat) : Parse NodeId := do
  let place ← location
  match ← kind with
  | .symbol .leftBrace => block statement fuel
  | .keyword .ifKw =>
      advance
      ifStatement statement place
  | .keyword .whileKw =>
      advance
      whileStatement statement place
  | .keyword .doKw =>
      advance
      doStatement statement place
  | .keyword .forKw =>
      advance
      forStatement statement place
  | .keyword .switchKw =>
      advance
      switchStatement statement fuel place
  | .keyword .returnKw =>
      advance
      returnStatement place
  | .keyword .breakKw =>
      advance
      jumpStatement .breakStmt "break" place
  | .keyword .continueKw =>
      advance
      jumpStatement .continueStmt "continue" place
  | .symbol .semicolon =>
      advance
      node .empty place
  | _ => if ← startsDeclaration then localDeclaration else expressionStatement

/-- Statements nested at most `fuel` deep. Each contains a token of its own, so the
number of tokens is enough. -/
def statementAt : Nat → Parse NodeId
  | 0 => fail .exhausted
  | fuel + 1 => statementRule (statementAt fuel) fuel

/-- The rest of a function behind its name. A prototype yields nothing. -/
def functionAfterName (word : String) (returnType : DataType) (place : Location) :
    Parse (Option NodeId) := do
  require .leftParen "after function name"
  let params ← parameters
  require .rightParen "after parameters"
  if ← symbol .semicolon then pure none
  else
    let fuel := (← remaining) + 1
    let body ← block (statementAt fuel) fuel
    some <$> node (.functionDef word params returnType body) place

def startsStructDefinition (state : ParseState) : Bool :=
  match state.tokens with
  | ⟨.keyword .structKw, _⟩ :: ⟨.name _, _⟩ :: ⟨.symbol .leftBrace, _⟩ :: _ => true
  | _ => false

/-- An item at top level. Prototypes and lone semicolons yield nothing. -/
def topLevel : Parse (Option NodeId) := do
  if ← symbol .semicolon then pure none
  else if startsStructDefinition (← get) then some <$> structDefinition
  else if ← startsObject then some <$> objects
  else
    let place ← location
    let spec ← specifiers
    let type ← pointers spec.type
    let namePlace ← location
    let word ← name
    if ← isAtSymbol .leftParen then functionAfterName word type namePlace
    else some <$> variableDeclarations spec type word place

def program : Parse Program := do
  let items ← itemsUntil (fun _ => false) topLevel (← remaining)
  pure ⟨(← get).nodes, items.filterMap id⟩

end Parse

def parseProgram (source : String) : Except ParseError Program := do
  match tokenize source with
  | .ok tokens => (StateT.run Parse.program { tokens }).map Prod.fst
  | .error error => .error error.toParseError

end Breadboard
