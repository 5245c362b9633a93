import Breadboard.Proofs.Machine.Cost
import Breadboard.Proofs.Sketch.Calls

/-!
What frames cost over a whole run. The price of a node is a number of steps that it needs at most,
calls included, when the body of a loop runs at most `limit` times. Prices go from a node to its
children and to the function that it calls, so they exist if no function leads back to itself.
The price of a loop counts the rounds that it has left. Every turn lowers the price of the stack,
at boundaries and elsewhere.
-/

open List

namespace Breadboard

open NodeKind

/-- A price for every node: those of its children as often as a loop may run them, and that of the
function it calls. -/
structure Program.Pricing (prog : Program) (limit : Nat) where
  price : NodeId → Nat
  adds : ∀ id, price id =
    (limit + 1) * (((prog.kind id).children.map price).sum + (prog.kind id).armCount + 16) +
      ((prog.callee? id).map price).getD 0

namespace Program

variable {prog : Program}

noncomputable def leastPrice (wellFounded : WellFounded prog.Needs) (limit : Nat) :
    NodeId → Nat :=
  wellFounded.fix fun id prices =>
    (limit + 1) * (((prog.kind id).children.attach.map fun child =>
        prices child.1 (.inl child.2)).sum + (prog.kind id).armCount + 16) +
      match found : prog.callee? id with
      | some fn => prices fn (.inr found)
      | none => 0

noncomputable def pricing (wellFounded : WellFounded prog.Needs) (limit : Nat) :
    prog.Pricing limit where
  price := leastPrice wellFounded limit
  adds := by
    intro id
    have children : ((prog.kind id).children.attach.map fun child =>
        leastPrice wellFounded limit child.1) =
          (prog.kind id).children.map (leastPrice wellFounded limit) :=
      attach_map_val (f := leastPrice wellFounded limit)
    conv_lhs => rw [leastPrice, WellFounded.fix_eq, ← leastPrice]
    rw [children]
    congr 1
    split
    · rename_i fn found
      simp [found]
    · rename_i found
      simp [found]

end Program

namespace Program.Pricing

variable {prog : Program} {limit : Nat} (pricing : prog.Pricing limit) {kind : NodeKind}

def listPrice (ids : List NodeId) : Nat := (ids.map pricing.price).sum

theorem le_price {id : NodeId} (found : prog.kind id = kind) :
    limit * (pricing.listPrice kind.children + kind.armCount + 16) +
      (pricing.listPrice kind.children + kind.armCount + 16) ≤ pricing.price id := by
  rw [pricing.adds id, found, Nat.succ_mul]
  exact Nat.le_add_right _ _

theorem children_le {id : NodeId} (found : prog.kind id = kind) :
    pricing.listPrice kind.children + kind.armCount + 16 ≤ pricing.price id :=
  Nat.le_trans (Nat.le_add_left _ _) (pricing.le_price found)

theorem sixteen_le (id : NodeId) : 16 ≤ pricing.price id :=
  Nat.le_trans (Nat.le_add_left _ _) (pricing.children_le rfl)

theorem call_le {id fn : NodeId} (found : prog.kind id = .call callee args)
    (defined : prog.function? callee = some fn) :
    pricing.listPrice args + 16 + pricing.price fn ≤ pricing.price id := by
  have called : prog.callee? id = some fn := by simp [callee?, found, defined]
  rw [pricing.adds id, found, called, Nat.succ_mul]
  simp only [children, armCount, Option.map_some, Option.getD_some, listPrice]
  omega

def optionPrice (part : Option NodeId) : Nat := pricing.listPrice part.toList

def blockPrice (id : NodeId) (next : Nat) : Nat :=
  match prog.kind id with
  | .block statements => pricing.listPrice (statements.drop next) + 1
  | _ => 1

def armsPrice (arms : List SwitchCase) : Nat :=
  (arms.map fun arm => pricing.listPrice arm.body + 1).sum

def lapPrice (parts : LoopParts) : Nat :=
  pricing.price parts.body + pricing.optionPrice parts.condition +
    pricing.optionPrice parts.increment + 3

def loopPrice (parts : LoopParts) (phase : LoopPhase) (iterations : Nat) : Nat :=
  (limit - iterations) * pricing.lapPrice parts + 1 +
    match phase with
    | .test | .body => 0
    | .cond => pricing.optionPrice parts.condition + 1
    | .advance => pricing.optionPrice parts.condition + pricing.optionPrice parts.increment + 3

def roundsPrice (rounds completed : Nat) : Nat :=
  (rounds - completed) * (pricing.optionPrice (prog.function? "loop") + 3) + 1

def framePrice (rounds : Nat) : Frame → Nat
  | .program (.globals next) =>
    pricing.listPrice (prog.items.drop next) +
      pricing.optionPrice (prog.function? "setup") + pricing.roundsPrice rounds 0 + 3
  | .program .setup =>
    pricing.optionPrice (prog.function? "setup") + pricing.roundsPrice rounds 0 + 2
  | .program (.loop completed) => pricing.roundsPrice rounds completed
  | .exec id => pricing.price id - 1
  | .eval id => pricing.price id - 3
  | .evalPlace id => pricing.price id - 5
  | .block id next _ => pricing.blockPrice id next
  | .branch id =>
    match prog.kind id with
    | .ifElse _ thenBranch elseBranch =>
      pricing.price thenBranch + pricing.optionPrice elseBranch + 1
    | _ => 1
  | .loop id phase iterations _ =>
    match (prog.kind id).loop? with
    | some parts => pricing.loopPrice parts phase iterations
    | none => 1
  | .switchSelect id =>
    match prog.kind id with
    | .switch _ cases => pricing.armsPrice cases + 2
    | _ => 1
  | .switch id arm next =>
    match prog.kind id with
    | .switch _ cases =>
      match cases.drop arm with
      | [] => 1
      | current :: rest =>
        pricing.listPrice (current.body.drop next) + pricing.armsPrice rest + 2
    | _ => 1
  | .call fn _ _ => pricing.price fn
  | .logical id false =>
    match prog.kind id with
    | .logical _ _ right => pricing.price right
    | _ => 1
  | .select id =>
    match prog.kind id with
    | .ternary _ thenExpr elseExpr => pricing.price thenExpr + pricing.price elseExpr
    | _ => 1
  | _ => 1

def stackPrice (rounds : Nat) (frames : List Frame) : Nat :=
  (frames.map (pricing.framePrice rounds)).sum

section Sums

variable (rounds : Nat) (ids : List NodeId) (arms : List SwitchCase)

@[simp] theorem listPrice_nil : pricing.listPrice [] = 0 := rfl

@[simp] theorem listPrice_cons (id : NodeId) (ids : List NodeId) :
    pricing.listPrice (id :: ids) = pricing.price id + pricing.listPrice ids := by
  simp [listPrice]

@[simp] theorem optionPrice_none : pricing.optionPrice none = 0 := rfl

@[simp] theorem optionPrice_some (id : NodeId) :
    pricing.optionPrice (some id) = pricing.price id := by
  simp [optionPrice]

theorem armsPrice_cons (arm : SwitchCase) (arms : List SwitchCase) :
    pricing.armsPrice (arm :: arms) = pricing.listPrice arm.body + 1 + pricing.armsPrice arms := by
  simp [armsPrice]

@[simp] theorem stackPrice_nil : pricing.stackPrice rounds [] = 0 := rfl

@[simp] theorem stackPrice_cons (frame : Frame) (frames : List Frame) :
    pricing.stackPrice rounds (frame :: frames) =
      pricing.framePrice rounds frame + pricing.stackPrice rounds frames := by
  simp [stackPrice]

@[simp] theorem stackPrice_append (above below : List Frame) :
    pricing.stackPrice rounds (above ++ below) =
      pricing.stackPrice rounds above + pricing.stackPrice rounds below := by
  simp [stackPrice]

theorem stackPrice_map_exec_le :
    pricing.stackPrice rounds (ids.map .exec) ≤ pricing.listPrice ids := by
  unfold stackPrice listPrice
  rw [map_map]
  exact sum_le_sum fun id _ => Nat.sub_le _ _

theorem stackPrice_map_eval_le :
    pricing.stackPrice rounds (ids.map .eval) ≤ pricing.listPrice ids := by
  unfold stackPrice listPrice
  rw [map_map]
  exact sum_le_sum fun id _ => Nat.sub_le _ _

theorem listPrice_drop_le (next : Nat) :
    pricing.listPrice (ids.drop next) ≤ pricing.listPrice ids :=
  ((drop_sublist next ids).map _).sum_le_sum (by simp)

theorem armsPrice_drop_le (arm : Nat) :
    pricing.armsPrice (arms.drop arm) ≤ pricing.armsPrice arms :=
  ((drop_sublist arm arms).map _).sum_le_sum (by simp)

theorem armsPrice_le : pricing.armsPrice arms ≤ arms.length +
      pricing.listPrice (arms.flatMap fun arm => arm.label.toList ++ arm.body) := by
  unfold armsPrice
  induction arms with
  | nil => simp
  | cons arm arms ih =>
    simp only [listPrice, map_cons, sum_cons, length_cons, flatMap_cons,
      map_append, sum_append] at ih ⊢
    omega

theorem blockPrice_lt (id : NodeId) (next : Nat) :
    pricing.blockPrice id next + 2 < pricing.price id := by
  have least := pricing.sixteen_le id
  unfold blockPrice
  split
  · rename_i statements kind
    have below := pricing.children_le kind
    have rest := pricing.listPrice_drop_le statements next
    simp only [children] at below
    omega
  · omega

theorem stackPrice_entry (kind : prog.kind fn = .functionDef name params returnType body)
    (height : Nat) (loc : Location) :
    pricing.stackPrice rounds (Frame.entry body returnType height loc) < pricing.price fn := by
  have inner := pricing.blockPrice_lt body 0
  have below := pricing.children_le kind
  simp only [children, listPrice_cons] at below
  simp only [Frame.entry, stackPrice_cons, stackPrice_nil, framePrice]
  omega

theorem framePrice_switch_zero {id expr : NodeId} (kind : prog.kind id = .switch expr cases)
    (arm : Nat) :
    pricing.framePrice rounds (.switch id arm 0) = pricing.armsPrice (cases.drop arm) + 1 := by
  simp only [framePrice, kind, drop_zero]
  cases cases.drop arm with
  | nil => rfl
  | cons current rest =>
    rw [armsPrice_cons]
    dsimp only
    omega

end Sums

theorem loopPrice_lt {id : NodeId} (found : prog.kind id = kind) (parts : LoopParts) (first : Nat)
    (starts : phase = .cond ∨ phase = .body)
    (inside : first + pricing.price parts.body + pricing.optionPrice parts.condition +
      pricing.optionPrice parts.increment ≤ pricing.listPrice kind.children) :
    first + pricing.loopPrice parts phase 0 + 1 < pricing.price id := by
  have whole := pricing.le_price found
  have laps : limit * pricing.lapPrice parts ≤
      limit * (pricing.listPrice kind.children + kind.armCount + 16) := by
    apply Nat.mul_le_mul_left
    unfold lapPrice
    omega
  unfold loopPrice
  rw [Nat.sub_zero]
  rcases starts with rfl | rfl <;> dsimp only <;> omega

theorem loopPrice_advance (parts : LoopParts) (capped : iterations < limit) :
    pricing.price parts.body + pricing.loopPrice parts .advance (iterations + 1) =
      (limit - iterations) * pricing.lapPrice parts + 1 := by
  have split : limit - iterations = limit - (iterations + 1) + 1 := by omega
  rw [split, Nat.succ_mul]
  unfold loopPrice lapPrice
  dsimp only
  omega

end Program.Pricing

namespace Turn

variable {fw : Firmware} {height pushed limit : Nat} {frame : Frame} {scheduled : List Frame}
  {move : ScopeMove}

open Program.Pricing

/-- A turn lowers the price, unless it starts the body of a loop too often. -/
theorem stackPrice_lt (pricing : fw.program.Pricing limit)
    (turn : Turn fw height frame pushed scheduled move)
    (capped : ∀ id phase iterations hasScope, frame = .loop id phase iterations hasScope →
      phase = .test ∨ phase = .body → scheduled = [] ∨ iterations < limit) :
    pricing.stackPrice fw.config.maxLoopIterations scheduled <
      pricing.framePrice fw.config.maxLoopIterations frame := by
  generalize limited : fw.config.maxLoopIterations = rounds
  cases turn with simp only [stackPrice_append, stackPrice_cons, stackPrice_nil, framePrice]
  -- The driver.
  | @global next after item found =>
    have least := pricing.sixteen_le item
    have fewer := ((Program.nextGlobal?_sublist found).map pricing.price).sum_le_sum (by simp)
    simp only [map_cons, sum_cons] at fewer
    simp only [listPrice]
    omega
  | globalsDone | noSetup => omega
  | @setup fn _ returnType body found kind =>
    have entry := pricing.stackPrice_entry rounds kind height (fw.program.location fn)
    simp only [found, optionPrice_some]
    omega
  | noLoop | loopLimit =>
    simp only [roundsPrice]
    omega
  | @loop completed fn _ returnType body found more kind =>
    have entry := pricing.stackPrice_entry rounds kind height (fw.program.location fn)
    have split : rounds - completed = rounds - (completed + 1) + 1 := by omega
    simp only [roundsPrice, found, optionPrice_some]
    rw [split, Nat.succ_mul]
    omega
  -- Statements.
  | @openBlock node _ kind =>
    have inner := pricing.blockPrice_lt node 0
    omega
  | @declared node | @empty node | @expression node | @evalLoad node | @value node | @place node =>
    have least := pricing.sixteen_le node
    omega
  | @objectArguments node _ _ args kind | @evalBuiltin node _ args kind
  | @evalInitList node args kind =>
    have below := pricing.children_le kind
    have each := pricing.stackPrice_map_eval_le rounds args
    simp only [children] at below
    omega
  | @group node decls kind =>
    have below := pricing.children_le kind
    have each := pricing.stackPrice_map_exec_le rounds decls
    simp only [children] at below
    omega
  | @condition node _ _ branch kind =>
    have below := pricing.children_le kind
    simp only [children, listPrice_cons] at below
    simp only [kind, optionPrice]
    omega
  | @whileLoop node condition body kind =>
    have start := pricing.loopPrice_lt kind ⟨some condition, body, none⟩ 0 (.inl rfl)
      (by simp [children]; omega)
    simp only [kind, loop?]
    omega
  | @doWhile node body condition kind =>
    have start := pricing.loopPrice_lt kind ⟨some condition, body, none⟩ 0 (.inr rfl)
      (by simp [children])
    simp only [kind, loop?]
    omega
  | @forLoop node body init condition increment kind =>
    have first := pricing.stackPrice_map_exec_le rounds init.toList
    have start := pricing.loopPrice_lt kind ⟨condition, body, increment⟩
      (pricing.listPrice init.toList) (.inl rfl)
      (by simp [children, optionPrice, listPrice]; omega)
    simp only [kind, loop?]
    omega
  | @selector node expr cases kind =>
    have below := pricing.children_le kind
    have arms := pricing.armsPrice_le cases
    simp only [children, armCount, listPrice_cons] at below
    simp only [kind]
    omega
  | @result node expr kind =>
    have below := pricing.children_le kind
    have returned := pricing.stackPrice_map_eval_le rounds expr.toList
    simp only [children] at below
    omega
  | @nextStatement node statement next _ statements kind found =>
    have least := pricing.sixteen_le statement
    simp only [blockPrice, kind, drop_of_getElem? found, listPrice_cons]
    omega
  | closeBlock | endBlock =>
    simp only [blockPrice]
    split <;> omega
  | thenBranch kind =>
    simp only [kind]
    omega
  | @elseBranch node _ _ branch kind =>
    have chosen := pricing.stackPrice_map_exec_le rounds branch.toList
    simp only [kind, optionPrice]
    omega
  -- Loops and switches.
  | @loopCondition _ part _ _ _ found isPart | @increment _ part _ _ _ found isPart =>
    have least := pricing.sixteen_le part
    simp only [found, loopPrice, isPart, optionPrice_some]
    omega
  | noCondition found | noIncrement found =>
    simp only [found, loopPrice]
    omega
  | @startBody node phase iterations hasScope parts isStart found =>
    rcases capped _ _ _ _ rfl isStart with nothing | below
    · cases nothing
    · have lap := pricing.loopPrice_advance parts below
      have least := pricing.sixteen_le parts.body
      simp only [found]
      rcases isStart with rfl | rfl <;> simp only [loopPrice] at lap ⊢ <;> omega
  | closeLoop | endLoop =>
    split
    · simp only [loopPrice]
      omega
    · omega
  | @selectArm node expr cases arm kind =>
    have fewer := pricing.armsPrice_drop_le cases arm
    have start := pricing.framePrice_switch_zero rounds kind arm
    simp only [framePrice, kind] at start ⊢
    omega
  | selectNone => split <;> omega
  | @armStatement node _ statement _ _ _ _ kind current found =>
    have least := pricing.sixteen_le statement
    simp only [kind, drop_of_getElem? current, drop_of_getElem? found, listPrice_cons]
    omega
  | @nextArm _ _ _ arm _ _ kind current =>
    have start := pricing.framePrice_switch_zero rounds kind (arm + 1)
    simp only [framePrice, kind, drop_of_getElem? current] at start ⊢
    omega
  | closeSwitch =>
    split
    · split <;> omega
    · omega
  -- Calls.
  | call kind => exact pricing.stackPrice_entry _ kind _ _
  | @evalCall node fn _ args kind found =>
    have below := pricing.call_le kind found
    have each := pricing.stackPrice_map_eval_le rounds args
    omega
  -- Expressions.
  | exprStmt kind | initializer kind | evalBinary kind | evalAssign kind | evalCompoundAssign kind
  | evalUnary kind | evalCast kind | evalIncDec kind | evalAddress kind =>
    have below := pricing.children_le kind
    simp only [children, Option.toList_some, listPrice_cons] at below
    omega
  | evalLogical kind | evalTernary kind =>
    have below := pricing.children_le kind
    simp only [children, listPrice_cons] at below
    simp only [kind]
    omega
  | @evalMethod node receiver _ args kind =>
    have below := pricing.children_le kind
    have each := pricing.stackPrice_map_eval_le rounds (receiver :: args)
    simp only [children] at below
    omega
  | placeIndex kind base | placeMember kind base | placeDeref kind base =>
    have below := pricing.children_le kind
    simp only [children, listPrice_cons] at below
    rcases base with rfl | rfl <;> dsimp only <;> omega
  | @decided node right =>
    cases right with
    | true => exact Nat.one_pos
    | false =>
      dsimp only
      split
      · exact Nat.lt_of_lt_of_le (by decide) (pricing.sixteen_le _)
      · exact Nat.one_pos
  | @undecided node _ right _ kind =>
    have least := pricing.sixteen_le right
    simp only [kind]
    omega
  | @select node _ thenExpr elseExpr _ kind chosen =>
    have least := pricing.sixteen_le thenExpr
    have leastToo := pricing.sixteen_le elseExpr
    simp only [kind]
    rcases chosen with rfl | rfl <;> omega
  | _ => exact Nat.one_pos

end Turn

end Breadboard
