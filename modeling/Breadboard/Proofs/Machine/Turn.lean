import Breadboard.Machine.Step

/-!
What one step of a run can do. Most steps are turns: the frame on top takes operands
off, leaves operands on, puts other frames in its place, and opens or closes at most
one scope. `Turn` lists them all by the kind of the node that the frame stands for.
The other steps are jumps, which take frames off the stack.
-/

namespace Breadboard

namespace Environment

def outline (env : Environment) : List (ScopeKind × Nat) :=
  env.scopes.map fun scope => (scope.kind, scope.localsBase)

/-- Declarations in the innermost scope lead from one state of memory to another. Nothing
else changes about the scopes, and outside them there are no locals. -/
structure Extends (before after : Environment) : Prop where
  outline : after.outline = before.outline
  outer : after.scopes.tail = before.scopes.tail
  base : before.scopes ≠ [] → after.base = before.base
  grows : before.locals.size ≤ after.locals.size
  outside : before.scopes = [] → after.locals.size = before.locals.size

def release (env : Environment) (frames : List Frame) : Environment :=
  frames.foldl (fun env frame => if frame.ownsScope then env.popScope else env) env

end Environment

inductive ScopeMove where
  | keep
  /-- Names may be added to the innermost scope. -/
  | declare
  | enter (kind : ScopeKind)
  | exit

def ScopeMove.Relates (before after : Environment) : ScopeMove → Prop
  | .keep => after.scopes = before.scopes ∧ after.base = before.base ∧
      after.locals.size = before.locals.size
  | .declare => before.Extends after
  | .enter kind => (before.pushScope kind).Extends after
  | .exit => after = before.popScope

def Effect.owed : Effect → Nat
  | .request _ => 1
  | _ => 0

def Effect.isPlain : Effect → Bool
  | .quiet | .emit _ => true
  | _ => false

def Frame.entry (body : NodeId) (retType : DataType) (height : Nat) (loc : Location) :
    List Frame :=
  [.block body 0 false, .callReturn retType height false loc]

/-- How many operands a frame leaves on the stack once it and all that it schedules have
run. -/
def Frame.pushes : Frame → Nat
  | .call .. | .callReturn .. | .builtin _ | .method _ | .eval _ | .evalPlace _ | .load _
  | .binary _ | .logical _ _ | .unary _ | .incDec _ | .select _ | .assign _
  | .compoundAssign _ | .cast _ | .collect _ | .indexPlace _ _ | .fieldPlace _
  | .derefPlace _ _ => 1
  | .program _ | .exec _ | .block .. | .discard | .declare _ | .construct _ | .branch _
  | .loop .. | .switchSelect _ | .switch .. | .leave _ => 0

namespace NodeKind

def argumentCount : NodeKind → Nat
  | .objectDecl _ _ args | .call _ args | .methodCall _ _ args => args.length
  | _ => 0

def returnsValue : NodeKind → Bool
  | .returnStmt expr => expr.isSome
  | _ => false

end NodeKind

namespace Firmware

variable (fw : Firmware)

def pops : Frame → Nat
  | .construct node | .builtin node => (fw.program.kind node).argumentCount
  | .method node => (fw.program.kind node).argumentCount + 1
  | .leave node => (fw.program.kind node).returnsValue.toNat
  | .call _ argc _ => argc
  | .callReturn _ _ returned _ => returned.toNat
  | .collect count => count
  | .discard | .declare _ | .branch _ | .loop _ .test _ _ | .switchSelect _ | .load _
  | .logical _ _ | .unary _ | .incDec _ | .select _ | .cast _ | .fieldPlace _
  | .derefPlace _ _ => 1
  | .binary _ | .assign _ | .compoundAssign _ | .indexPlace _ _ => 2
  | .program _ | .exec _ | .block .. | .loop .. | .switch .. | .eval _ | .evalPlace _ => 0

/-- How many operands there are behind a frame when there are `operands` before it, or
nothing if these do not suffice. The end of a call wants to find the stack as high
as it was at its start, with the result on top if there is one. -/
def operandsBehind (opds : Nat) : Frame → Option Nat
  | .callReturn _ height returned _ =>
    if opds = height + returned.toNat then some (height + 1) else none
  | frame =>
    if fw.pops frame ≤ opds then some (opds - fw.pops frame + frame.pushes)
    else none

def isJump : Frame → Bool
  | .exec node =>
    match fw.program.kind node with
    | .breakStmt | .continueStmt => true
    | _ => false
  | .leave _ => true
  | _ => false

def Suits : Frame → Prop
  | .block node _ hasScope =>
    hasScope = true → ∃ statements, fw.program.kind node = .block statements
  | .declare node => ∃ name type init isStatic isVolatile,
      fw.program.kind node = .varDecl name type init isStatic isVolatile
  | .construct node => ∃ name className args,
      fw.program.kind node = .objectDecl name className args
  | .branch node => ∃ cond thenBranch elseBranch,
      fw.program.kind node = .ifElse cond thenBranch elseBranch
  | .loop node _ _ _ => ∃ parts, (fw.program.kind node).loop? = some parts
  | .switchSelect node | .switch node _ _ => ∃ expr cases,
      fw.program.kind node = .switch expr cases
  | .leave node => ∃ expr, fw.program.kind node = .returnStmt expr
  | .call fn _ _ => ∃ name params retType body,
      fw.program.kind fn = .functionDef name params retType body
  | .builtin node => ∃ callee args, fw.program.kind node = .call callee args
  | .method node => ∃ receiver method args,
      fw.program.kind node = .methodCall receiver method args
  | .binary node => ∃ op left right, fw.program.kind node = .binary op left right
  | .logical node _ => ∃ op left right, fw.program.kind node = .logical op left right
  | .unary node => ∃ op operand, fw.program.kind node = .unary op operand ∧
      op ≠ .deref ∧ op ≠ .addressOf
  | .incDec node => ∃ op target, fw.program.kind node = .incDec op target
  | .select node => ∃ cond thenExpr elseExpr,
      fw.program.kind node = .ternary cond thenExpr elseExpr
  | .compoundAssign node => ∃ op target value,
      fw.program.kind node = .compoundAssign op target value
  | .cast node => ∃ type expr, fw.program.kind node = .cast type expr
  | .fieldPlace node => ∃ object field throughPointer,
      fw.program.kind node = .member object field throughPointer
  | .program _ | .exec _ | .discard | .callReturn .. | .eval _ | .evalPlace _ | .load _
  | .assign _ | .collect _ | .indexPlace _ _ | .derefPlace _ _ => True

end Firmware

section

variable (fw : Firmware) (height : Nat)

/-- The turns of a frame: how many operands it leaves on at once, the frames in its place,
and what becomes of the scopes. `height` is the number of operands below those that it takes
off. -/
inductive Turn : Frame → Nat → List Frame → ScopeMove → Prop where
  -- The driver.
  | global {next after item} : fw.program.nextGlobal? next = some (item, after) →
      Turn (.program (.globals next)) 0 [.exec item, .program (.globals after)] .keep
  | globalsDone {next} : fw.program.nextGlobal? next = none →
      Turn (.program (.globals next)) 0 [.program .setup] .keep
  | noSetup : fw.program.function? "setup" = none →
      Turn (.program .setup) 0 [.program (.loop 0)] .keep
  | setup : fw.program.function? "setup" = some fn →
      fw.program.kind fn = .functionDef name [] retType body → Turn (.program .setup) 0
        (Frame.entry body retType height (fw.program.location fn) ++
          [.discard, .program (.loop 0)]) (.enter .function)
  | noLoop : fw.program.function? "loop" = none →
      Turn (.program (.loop completed)) 0 [] .keep
  | loopLimit : fw.config.maxLoopIterations ≤ completed →
      Turn (.program (.loop completed)) 0 [] .keep
  | loop {completed fn name retType body} : fw.program.function? "loop" = some fn →
      completed < fw.config.maxLoopIterations →
      fw.program.kind fn = .functionDef name [] retType body →
      Turn (.program (.loop completed)) 0
        (Frame.entry body retType height (fw.program.location fn) ++
          [.discard, .program (.loop (completed + 1))]) (.enter .function)
  -- Statements.
  | openBlock : fw.program.kind node = .block statements →
      Turn (.exec node) 0 [.block node 0 true] (.enter .block)
  | exprStmt : fw.program.kind node = .exprStmt expr →
      Turn (.exec node) 0 [.eval expr, .discard] .keep
  | initializer {node expr name type isStatic isVolatile} :
      fw.program.kind node = .varDecl name type (some expr) isStatic isVolatile →
      Turn (.exec node) 0 [.eval expr, .declare node] .keep
  | declared :
      fw.program.kind node = .varDecl name type init isStatic isVolatile →
      Turn (.exec node) 0 [] .declare
  | objectArguments :
      fw.program.kind node = .objectDecl name className args →
      Turn (.exec node) 0 (args.map .eval ++ [.construct node]) .keep
  | group : fw.program.kind node = .declGroup decls →
      Turn (.exec node) 0 (decls.map .exec) .keep
  | condition {node cond thenBranch elseBranch} :
      fw.program.kind node = .ifElse cond thenBranch elseBranch →
      Turn (.exec node) 0 [.eval cond, .branch node] .keep
  | whileLoop {node cond body} : fw.program.kind node = .whileLoop cond body →
      Turn (.exec node) 0 [.loop node .cond 0 false] .keep
  | doWhile {node body cond} : fw.program.kind node = .doWhile body cond →
      Turn (.exec node) 0 [.loop node .body 0 false] .keep
  | forLoop {node body init cond increment} :
      fw.program.kind node = .forLoop init cond increment body →
      Turn (.exec node) 0 (init.toList.map .exec ++ [.loop node .cond 0 true])
        (.enter .block)
  | selector {node expr cases} : fw.program.kind node = .switch expr cases →
      Turn (.exec node) 0 [.eval expr, .switchSelect node] .keep
  | result : fw.program.kind node = .returnStmt expr →
      Turn (.exec node) 0 (expr.toList.map .eval ++ [.leave node]) .keep
  | empty : fw.program.kind node = .empty → Turn (.exec node) 0 [] .keep
  | expression : fw.isJump (.exec node) = false →
      Turn (.exec node) 0 [.eval node, .discard] .keep
  | nextStatement {node statement next hasScope statements} :
      fw.program.kind node = .block statements → statements[next]? = some statement →
      Turn (.block node next hasScope) 0
        [.exec statement, .block node (next + 1) hasScope] .keep
  | closeBlock {node next} : Turn (.block node next true) 0 [] .exit
  | endBlock {node next} : Turn (.block node next false) 0 [] .keep
  | discard : Turn .discard 0 [] .keep
  | declare : Turn (.declare node) 0 [] .declare
  | construct : Turn (.construct node) 0 [] .declare
  | thenBranch {node cond thenBranch elseBranch} :
      fw.program.kind node = .ifElse cond thenBranch elseBranch →
      Turn (.branch node) 0 [.exec thenBranch] .keep
  | elseBranch {node cond thenBranch elseBranch} :
      fw.program.kind node = .ifElse cond thenBranch elseBranch →
      Turn (.branch node) 0 (elseBranch.toList.map .exec) .keep
  -- Loops and switches.
  | loopCondition {node cond iters hasScope parts} :
      (fw.program.kind node).loop? = some parts → parts.condition = some cond →
      Turn (.loop node .cond iters hasScope) 0
        [.eval cond, .loop node .test iters hasScope] .keep
  | noCondition {node iters hasScope parts} : (fw.program.kind node).loop? = some parts →
      Turn (.loop node .cond iters hasScope) 1 [.loop node .test iters hasScope] .keep
  | startBody {node phase iters hasScope parts} : phase = .test ∨ phase = .body →
      (fw.program.kind node).loop? = some parts → Turn (.loop node phase iters hasScope) 0
        [.exec parts.body, .loop node .advance (iters + 1) hasScope] .keep
  | closeLoop : Turn (.loop node .test iters true) 0 [] .exit
  | endLoop : Turn (.loop node .test iters false) 0 [] .keep
  | increment {node increment iters hasScope parts} :
      (fw.program.kind node).loop? = some parts → parts.increment = some increment →
      Turn (.loop node .advance iters hasScope) 0
        [.eval increment, .discard, .loop node .cond iters hasScope] .keep
  | noIncrement {node iters hasScope parts} : (fw.program.kind node).loop? = some parts →
      Turn (.loop node .advance iters hasScope) 0 [.loop node .cond iters hasScope] .keep
  | selectArm {node expr cases arm} : fw.program.kind node = .switch expr cases →
      Turn (.switchSelect node) 0 [.switch node arm 0] (.enter .block)
  | selectNone : Turn (.switchSelect node) 0 [] .keep
  | armStatement {node expr statement cases arm next current} :
      fw.program.kind node = .switch expr cases → cases[arm]? = some current →
      current.body[next]? = some statement → Turn (.switch node arm next) 0
        [.exec statement, .switch node arm (next + 1)] .keep
  | nextArm {node expr cases arm next current} :
      fw.program.kind node = .switch expr cases → cases[arm]? = some current →
      Turn (.switch node arm next) 0 [.switch node (arm + 1) 0] .keep
  | closeSwitch {node arm next} : Turn (.switch node arm next) 0 [] .exit
  -- Calls.
  | call {fn argc loc name params retType body} :
      fw.program.kind fn = .functionDef name params retType body →
      Turn (.call fn argc loc) 0 (Frame.entry body retType height loc) (.enter .function)
  | callReturn :
      Turn (.callReturn retType height returned loc) 1 [] .exit
  | builtin : Turn (.builtin node) 1 [] .keep
  | method : Turn (.method node) 1 [] .keep
  -- Expressions.
  | value : Turn (.eval node) 1 [] .keep
  | evalBinary {node left right op} : fw.program.kind node = .binary op left right →
      Turn (.eval node) 0 [.eval left, .eval right, .binary node] .keep
  | evalLogical {node left right op} : fw.program.kind node = .logical op left right →
      Turn (.eval node) 0 [.eval left, .logical node false] .keep
  | evalAddress : fw.program.kind node = .unary .addressOf operand →
      Turn (.eval node) 0 [.evalPlace operand] .keep
  | evalLoad : Turn (.eval node) 0 [.evalPlace node, .load node] .keep
  | evalUnary {node operand op} :
      fw.program.kind node = .unary op operand → op ≠ .deref → op ≠ .addressOf →
      Turn (.eval node) 0 [.eval operand, .unary node] .keep
  | evalIncDec {node target op} : fw.program.kind node = .incDec op target →
      Turn (.eval node) 0 [.evalPlace target, .incDec node] .keep
  | evalTernary {node cond thenExpr elseExpr} :
      fw.program.kind node = .ternary cond thenExpr elseExpr →
      Turn (.eval node) 0 [.eval cond, .select node] .keep
  | evalAssign : fw.program.kind node = .assign target value →
      Turn (.eval node) 0 [.evalPlace target, .eval value, .assign node] .keep
  | evalCompoundAssign {node target value op} :
      fw.program.kind node = .compoundAssign op target value → Turn (.eval node) 0
        [.evalPlace target, .eval value, .compoundAssign node] .keep
  | evalCall {node fn callee args} : fw.program.kind node = .call callee args →
      fw.program.function? callee = some fn → Turn (.eval node) 0
        (args.map .eval ++ [.call fn args.length (fw.program.location node)]) .keep
  | evalBuiltin : fw.program.kind node = .call callee args →
      Turn (.eval node) 0 (args.map .eval ++ [.builtin node]) .keep
  | evalMethod :
      fw.program.kind node = .methodCall receiver method args →
      Turn (.eval node) 0 ((receiver :: args).map .eval ++ [.method node]) .keep
  | evalCast {node expr type} : fw.program.kind node = .cast type expr →
      Turn (.eval node) 0 [.eval expr, .cast node] .keep
  | evalInitList : fw.program.kind node = .initList items →
      Turn (.eval node) 0 (items.map .eval ++ [.collect items.length]) .keep
  | place : Turn (.evalPlace node) 1 [] .keep
  | placeIndex : fw.program.kind node = .index array pos →
      base = .eval array ∨ base = .evalPlace array → Turn (.evalPlace node) 0
        [base, .eval pos, .indexPlace node fromPlace] .keep
  | placeMember {node object base field throughPointer} :
      fw.program.kind node = .member object field throughPointer →
      base = .eval object ∨ base = .evalPlace object →
      Turn (.evalPlace node) 0 [base, .fieldPlace node] .keep
  | placeDeref : fw.program.kind node = .unary .deref operand →
      base = .eval operand ∨ base = .evalPlace operand →
      Turn (.evalPlace node) 0 [base, .derefPlace node fromPlace] .keep
  | load : Turn (.load node) 1 [] .keep
  | binary : Turn (.binary node) 1 [] .keep
  | decided : Turn (.logical node right) 1 [] .keep
  | undecided {node left right op} : fw.program.kind node = .logical op left right →
      Turn (.logical node false) 0 [.eval right, .logical node true] .keep
  | unary : Turn (.unary node) 1 [] .keep
  | incDec : Turn (.incDec node) 1 [] .keep
  | select {node cond thenExpr elseExpr chosen} :
      fw.program.kind node = .ternary cond thenExpr elseExpr →
      chosen = thenExpr ∨ chosen = elseExpr → Turn (.select node) 0 [.eval chosen] .keep
  | assign : Turn (.assign node) 1 [] .keep
  | compoundAssign : Turn (.compoundAssign node) 1 [] .keep
  | cast : Turn (.cast node) 1 [] .keep
  | collect : Turn (.collect count) 1 [] .keep
  | indexPlace : Turn (.indexPlace node fromPlace) 1 [] .keep
  | fieldPlace : Turn (.fieldPlace node) 1 [] .keep
  | derefPlace : Turn (.derefPlace node fromPlace) 1 [] .keep

end

/-- A step at a frame was a turn: it leads from the context without the frame to `next`. Only
the driver comes to the limit of the loop function, and then nothing takes its place. -/
def Turned (fw : Firmware) (frame : Frame) (ctx : Context) (effect : Effect)
    (next : Context) : Prop :=
  ∃ pushed scheduled move,
    Turn fw (ctx.values.length - fw.pops frame) frame
      (pushed.length + effect.owed) scheduled move ∧
    next.frames = scheduled ++ ctx.frames ∧
    next.values = pushed ++ ctx.values.drop (fw.pops frame) ∧
    move.Relates ctx.env next.env ∧
    ∀ iters, effect = .loopLimit iters →
      frame = .program (.loop iters) ∧ scheduled = []

theorem Frame.isBarrier_of_stopsBreak {frame : Frame} (passed : frame.stopsBreak = false) :
    frame.isBarrier = false := by
  cases frame <;> first | rfl | cases passed

theorem Frame.isBarrier_of_stopsContinue {frame : Frame} (passed : frame.stopsContinue = false) :
    frame.isBarrier = false := by
  cases frame <;> first | rfl | cases passed

/-- The jumps from a context without the frame that jumps. Frames that go close the scopes
they own. A return truncates the operands to the height of the call. -/
inductive Jump (fw : Firmware) (ctx : Context) : Frame → Context → Prop where
  | breakOut {node above below stop} :
      fw.program.kind node = .breakStmt →
      ctx.frames = above ++ stop :: below →
      (∀ frame ∈ above, frame.stopsBreak = false) →
      stop.stopsBreak = true → stop.isBarrier = false →
      Jump fw ctx (.exec node) { ctx with
        env := ctx.env.release (above ++ [stop])
        frames := below }
  | goOn {node above below stop} :
      fw.program.kind node = .continueStmt →
      ctx.frames = above ++ stop :: below →
      (∀ frame ∈ above, frame.stopsContinue = false) →
      stop.stopsContinue = true → stop.isBarrier = false →
      Jump fw ctx (.exec node) { ctx with
        env := ctx.env.release above
        frames := stop :: below }
  | leave {node above below retType height returned loc value opds} :
      ctx.frames = above ++ .callReturn retType height returned loc :: below →
      (∀ frame ∈ above, frame.isBarrier = false) →
      opds = ctx.values.drop (fw.pops (.leave node)) →
      Jump fw ctx (.leave node) { ctx with
        env := ctx.env.release above
        frames := .callReturn retType height true loc :: below
        values := value :: opds.drop (opds.length - height) }

def Stepped (fw : Firmware) (frame : Frame) (ctx : Context) (effect : Effect)
    (next : Context) : Prop :=
  Turned fw frame ctx effect next ∨
    effect = .quiet ∧ Jump fw ctx frame next

end Breadboard
