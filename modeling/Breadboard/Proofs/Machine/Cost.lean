import Breadboard.Proofs.Machine.Turn
import Breadboard.Proofs.Sketch.Forest

/-!
What frames cost. The cost of a frame is a number of steps that it and all that it schedules
need at most until the unit comes to a boundary. A boundary costs nothing, so a function that
is called costs no more than the blocks around its first statement, and a step that is none
lowers the cost of the stack.
-/

open List

namespace Breadboard

open NodeKind

/-- The sizes of the trees of a program, none of which is larger than the arena. -/
structure Program.Sizing (prog : Program) where
  size : NodeId → Nat
  counts : prog.Counts size
  size_le : ∀ id, size id ≤ prog.nodes.size + 1

noncomputable def Program.IsForest.sizing {prog : Program} (forest : prog.IsForest) :
    prog.Sizing where
  size := treeSize forest.wellFounded
  counts := treeSize_counts forest.wellFounded
  size_le := (treeSize_counts forest.wellFounded).le forest

namespace Program.Sizing

variable {prog : Program} (sizing : prog.Sizing) (statements : List NodeId)
  (arms : List SwitchCase) (ids : List NodeId) {kind : NodeKind} {child parent : NodeId}

theorem size_of_kind {id : NodeId} (found : prog.kind id = kind) :
    sizing.size id = 1 + (kind.children.map sizing.size).sum := by
  rw [sizing.counts, found]

theorem size_pos (id : NodeId) : 0 < sizing.size id := by
  rw [sizing.counts]
  exact Nat.lt_of_lt_of_le Nat.one_pos (Nat.le_add_right _ _)

/-! Statements. Only blocks and groups of declarations cost something. -/

def execCost (id : NodeId) : Nat :=
  match prog.kind id with
  | .block _ | .declGroup _ => 3 * sizing.size id - 1
  | _ => 0

def statementsCost (statements : List NodeId) : Nat :=
  (statements.map fun id => sizing.execCost id + 1).sum

def blockCost (id : NodeId) (next : Nat) : Nat :=
  match prog.kind id with
  | .block statements => sizing.statementsCost (statements.drop next) + 1
  | _ => 1

def armsCost (arms : List SwitchCase) : Nat :=
  (arms.map fun arm => sizing.statementsCost arm.body + 1).sum

theorem execCost_lt (id : NodeId) : sizing.execCost id < 3 * sizing.size id := by
  have := sizing.size_pos id
  unfold execCost
  split <;> omega

theorem execCost_child (isChild : prog.Child child parent) :
    sizing.execCost child < 3 * sizing.size parent := by
  have smaller := sizing.counts.child_lt isChild
  have statement := sizing.execCost_lt child
  omega

theorem statementsCost_le :
    sizing.statementsCost statements ≤ 3 * (statements.map sizing.size).sum := by
  unfold statementsCost
  induction statements with
  | nil => simp
  | cons id statements ih =>
    have := sizing.execCost_lt id
    simp only [map_cons, sum_cons]
    omega

theorem statementsCost_drop_le (next : Nat) :
    sizing.statementsCost (statements.drop next) ≤ sizing.statementsCost statements :=
  ((drop_sublist next statements).map _).sum_le_sum (by simp)

theorem blockCost_lt (id : NodeId) (next : Nat) :
    sizing.blockCost id next + 1 < 3 * sizing.size id := by
  have := sizing.size_pos id
  unfold blockCost
  split
  · rename_i statements kind
    have size := sizing.size_of_kind kind
    have all := sizing.statementsCost_le statements
    have rest := sizing.statementsCost_drop_le statements next
    simp only [children] at size
    omega
  · omega

theorem armsCost_le : sizing.armsCost arms ≤ arms.length +
      3 * ((arms.flatMap fun arm => arm.label.toList ++ arm.body).map sizing.size).sum := by
  unfold armsCost
  induction arms with
  | nil => simp
  | cons arm arms ih =>
    have := sizing.statementsCost_le arm.body
    simp only [map_cons, sum_cons, length_cons, flatMap_cons, map_append,
      sum_append]
    omega

theorem armsCost_drop_le (arm : Nat) : sizing.armsCost (arms.drop arm) ≤ sizing.armsCost arms :=
  ((drop_sublist arm arms).map _).sum_le_sum (by simp)

/-! Expressions. A node may call a function, which costs at most its outer blocks. -/

def callCost (_ : prog.Sizing) : Nat := 3 * (prog.nodes.size + 1)

def rate : Nat := sizing.callCost + 4

def evalCost (id : NodeId) : Nat := sizing.rate * sizing.size id

theorem evalCost_of_kind {id : NodeId} (found : prog.kind id = kind) :
    sizing.evalCost id = sizing.rate + (kind.children.map sizing.evalCost).sum := by
  unfold evalCost
  rw [sizing.size_of_kind found, Nat.mul_add, Nat.mul_one, sum_map_mul_left]

def cost : Frame → Nat
  | .program (.globals next) =>
    2 * sizing.callCost + 3 + sizing.callCost * (prog.items.length - next)
  | .program .setup => 2 * sizing.callCost + 2
  | .program (.loop completed) => if completed = 0 then sizing.callCost + 1 else 0
  | .exec id => sizing.execCost id
  | .block id next _ => sizing.blockCost id next
  | .branch id => 3 * sizing.size id
  | .loop id phase iterations _ =>
    match phase with
    | .cond => if iterations = 0 then 3 * sizing.evalCost id else 0
    | .test | .body => 2 * sizing.evalCost id
    | .advance => if iterations = 0 then 4 * sizing.evalCost id else sizing.evalCost id
  | .switchSelect id =>
    match prog.kind id with
    | .switch _ cases => sizing.armsCost cases + 2
    | _ => 1
  | .switch id arm next =>
    match prog.kind id with
    | .switch _ cases =>
      match cases.drop arm with
      | [] => 1
      | current :: rest =>
        sizing.statementsCost (current.body.drop next) + sizing.armsCost rest + 2
    | _ => 1
  | .call _ _ _ => sizing.callCost
  | .eval id => sizing.evalCost id
  | .evalPlace id => sizing.evalCost id - 2
  | .logical id false =>
    match prog.kind id with
    | .logical _ _ right => sizing.evalCost right + 2
    | _ => 2
  | .select id =>
    match prog.kind id with
    | .ternary _ thenExpr elseExpr => sizing.evalCost thenExpr + sizing.evalCost elseExpr + 1
    | _ => 1
  | _ => 1

def stackCost (frames : List Frame) : Nat := (frames.map sizing.cost).sum

@[simp] theorem stackCost_nil : sizing.stackCost [] = 0 := rfl

@[simp] theorem stackCost_cons (frame : Frame) (frames : List Frame) :
    sizing.stackCost (frame :: frames) = sizing.cost frame + sizing.stackCost frames := by
  simp [stackCost]

@[simp] theorem stackCost_append (above below : List Frame) :
    sizing.stackCost (above ++ below) = sizing.stackCost above + sizing.stackCost below := by
  simp [stackCost]

@[simp] theorem stackCost_map_eval :
    sizing.stackCost (ids.map .eval) = (ids.map sizing.evalCost).sum := by
  simp [stackCost, Function.comp_def, cost]

theorem stackCost_map_exec_le : sizing.stackCost (ids.map .exec) ≤ sizing.statementsCost ids := by
  unfold stackCost statementsCost
  rw [map_map]
  exact sum_le_sum fun id _ => Nat.le_succ _

theorem stackCost_entry (body : NodeId) (returnType : DataType) (height : Nat) (loc : Location) :
    sizing.stackCost (Frame.entry body returnType height loc) < sizing.callCost := by
  have outer := sizing.blockCost_lt body 0
  have := sizing.size_le body
  simp only [Frame.entry, stackCost_cons, stackCost_nil, cost, callCost]
  omega

theorem rate_le_evalCost (id : NodeId) : sizing.rate ≤ sizing.evalCost id :=
  Nat.le_mul_of_pos_right _ (sizing.size_pos id)

theorem three_size_le_evalCost (id : NodeId) : 3 * sizing.size id ≤ sizing.evalCost id :=
  Nat.mul_le_mul_right _ (by unfold rate callCost; omega)

theorem evalCost_le (id : NodeId) : sizing.evalCost id ≤ sizing.rate * (prog.nodes.size + 1) :=
  Nat.mul_le_mul_left _ (sizing.size_le id)

theorem evalCost_child (isChild : prog.Child child parent) :
    sizing.evalCost child + sizing.rate ≤ sizing.evalCost parent := by
  have fewer := Nat.mul_le_mul_left sizing.rate (sizing.counts.child_lt isChild)
  rwa [Nat.mul_succ] at fewer

end Program.Sizing

theorem NodeKind.loop?_children {kind : NodeKind} (found : kind.loop? = some parts) :
    parts.body ∈ kind.children ∧ (∀ id, parts.condition = some id → id ∈ kind.children) ∧
      ∀ id, parts.increment = some id → id ∈ kind.children := by
  unfold loop? at found
  split at found <;> cases found <;> simp +contextual [children]

theorem drop_of_getElem? {α : Type} {items : List α} {item : α} (found : items[pos]? = some item) :
    items.drop pos = item :: items.drop (pos + 1) := by
  obtain ⟨inside, rfl⟩ := List.getElem?_eq_some_iff.mp found
  exact drop_eq_getElem_cons inside

/-- The declaration that is next and those after it are among the items that were left. -/
theorem Program.nextGlobal?_sublist {prog : Program} {next after : Nat}
    (found : prog.nextGlobal? next = some (item, after)) :
    (item :: prog.items.drop after).Sublist (prog.items.drop next) := by
  unfold nextGlobal? at found
  obtain ⟨⟨id, index⟩, first, same⟩ := Option.map_eq_some_iff.mp found
  cases same
  obtain ⟨pos, inside⟩ := mem_iff_getElem?.mp (mem_of_find?_eq_some first)
  rw [List.getElem?_drop, List.getElem?_zipIdx] at inside
  obtain ⟨_, among, same⟩ := Option.map_eq_some_iff.mp inside
  cases same
  rw [Nat.zero_add, ← drop_of_getElem? among, ← drop_drop]
  exact drop_sublist _ _

theorem Program.weight_eq (prog : Program) :
    prog.weight = prog.nodes.size + 4 + (prog.nodes.toList.map (·.kind.armCount)).sum := by
  have folded (nodes : List Node) (start : Nat) :
      nodes.foldl (fun total node => total + 1 + node.kind.armCount) start =
        nodes.length + start + (nodes.map (·.kind.armCount)).sum := by
    induction nodes generalizing start with
    | nil => simp
    | cons node nodes ih =>
      rw [foldl_cons, ih, map_cons, sum_cons, length_cons]
      omega
  rw [weight, ← Array.foldl_toList, folded, Array.length_toList]

/-- The weight has room for all nodes and the arms of one of them. -/
theorem Program.armCount_le (prog : Program) (id : NodeId) :
    prog.nodes.size + 4 + (prog.kind id).armCount ≤ prog.weight := by
  rw [weight_eq]
  refine Nat.add_le_add_left ?_ _
  unfold kind
  cases found : prog.nodes[id]? with
  | none => exact Nat.zero_le _
  | some node =>
    rw [← Array.getElem?_toList] at found
    exact le_sum_of_mem (mem_map_of_mem (mem_of_getElem? found))

namespace Program.Sizing

variable {prog : Program} (sizing : prog.Sizing) {expr : NodeId} {cases : List SwitchCase}

theorem loopParts_cost {id : NodeId} (found : (prog.kind id).loop? = some parts) :
    sizing.execCost parts.body + sizing.rate ≤ sizing.evalCost id ∧
      (∀ part, parts.condition = some part →
        sizing.evalCost part + sizing.rate ≤ sizing.evalCost id) ∧
      ∀ part, parts.increment = some part →
        sizing.evalCost part + sizing.rate ≤ sizing.evalCost id := by
  obtain ⟨body, condition, increment⟩ := loop?_children found
  refine ⟨?_, fun part isPart => sizing.evalCost_child (condition part isPart),
    fun part isPart => sizing.evalCost_child (increment part isPart)⟩
  have whole := sizing.evalCost_child body
  have statement := sizing.execCost_lt parts.body
  have expression := sizing.three_size_le_evalCost parts.body
  omega

theorem statementsCost_cons (statement : NodeId) (statements : List NodeId) :
    sizing.statementsCost (statement :: statements) =
      sizing.execCost statement + 1 + sizing.statementsCost statements := by
  simp [statementsCost]

theorem armsCost_cons (arm : SwitchCase) (arms : List SwitchCase) :
    sizing.armsCost (arm :: arms) = sizing.statementsCost arm.body + 1 + sizing.armsCost arms := by
  simp [armsCost]

theorem cost_switch_zero {id : NodeId} (kind : prog.kind id = .switch expr cases) (arm : Nat) :
    sizing.cost (.switch id arm 0) = sizing.armsCost (cases.drop arm) + 1 := by
  simp only [cost, kind, drop_zero]
  cases cases.drop arm with
  | nil => rfl
  | cons current rest =>
    rw [armsCost_cons]
    dsimp only
    omega

theorem cost_switch_le (id : NodeId) (arm next : Nat) :
    sizing.cost (.switch id arm next) ≤ sizing.cost (.switch id arm 0) := by
  simp only [cost, drop_zero]
  split
  · split
    · exact Nat.le_refl _
    · rename_i current _ _
      have fewer := sizing.statementsCost_drop_le current.body next
      omega
  · exact Nat.le_refl _

def statementCost : Nat := 4 * (sizing.rate * (prog.nodes.size + 1)) + prog.weight

/-- The arms of a switch, with its expression as a bound for the labels and statements. -/
theorem armsCost_lt {id : NodeId} (kind : prog.kind id = .switch expr cases) :
    sizing.armsCost cases + 3 ≤ sizing.evalCost id + prog.weight := by
  have arms := sizing.armsCost_le cases
  have size := sizing.size_of_kind kind
  have branches := sizing.three_size_le_evalCost id
  have room := prog.armCount_le id
  simp only [kind, armCount] at room
  simp only [children, map_cons, sum_cons] at size
  omega

theorem cost_le (frame : Frame) :
    sizing.cost frame ≤ sizing.statementCost + sizing.callCost * prog.items.length := by
  have full := sizing.evalCost_le
  have rate : sizing.rate = sizing.callCost + 4 := rfl
  have least := sizing.rate_le_evalCost 0
  have most := full 0
  have room := prog.armCount_le 0
  unfold statementCost
  cases frame with simp only [cost]
  | program phase =>
    cases phase with dsimp only
    | globals next =>
      have items : sizing.callCost * (prog.items.length - next) ≤
          sizing.callCost * prog.items.length :=
        Nat.mul_le_mul_left _ (Nat.sub_le _ _)
      omega
    | setup => omega
    | loop completed => split <;> omega
  | exec id =>
    have statement := sizing.execCost_lt id
    have size := sizing.three_size_le_evalCost id
    have expression := full id
    omega
  | block id next =>
    have statement := sizing.blockCost_lt id next
    have size := sizing.three_size_le_evalCost id
    have expression := full id
    omega
  | branch id | eval id | evalPlace id =>
    have size := sizing.three_size_le_evalCost id
    have expression := full id
    omega
  | loop id phase =>
    have expression := full id
    cases phase with dsimp only
    | cond | advance => split <;> omega
    | test | body => omega
  | switchSelect id =>
    have expression := full id
    split
    · have arms := sizing.armsCost_lt ‹_›
      omega
    · omega
  | switch id arm next =>
    have fewer := sizing.cost_switch_le id arm next
    have expression := full id
    cases kind : prog.kind id with
    | switch expr cases =>
      have arms := sizing.armsCost_lt kind
      have dropped := sizing.armsCost_drop_le cases arm
      rw [sizing.cost_switch_zero kind] at fewer
      simp only [cost, kind] at fewer ⊢
      omega
    | _ =>
      dsimp only
      omega
  | logical id right =>
    cases right with dsimp only
    | true => omega
    | false =>
      split
      · rename_i right _
        have expression := full right
        omega
      · omega
  | select id =>
    split
    · rename_i thenExpr elseExpr _
      have thenCost := full thenExpr
      have elseCost := full elseExpr
      omega
    · omega
  | _ => omega

theorem stackCost_le (frames : List Frame) : sizing.stackCost frames ≤
      frames.length * (sizing.statementCost + sizing.callCost * prog.items.length) := by
  induction frames with
  | nil => simp
  | cons frame frames ih =>
    have top := sizing.cost_le frame
    rw [stackCost_cons, length_cons, Nat.succ_mul]
    omega

end Program.Sizing

namespace Firmware

variable {fw : Firmware}

/-- The bound of a unit has room for the stack and one statement more. -/
theorem stackCost_lt_unitBound (sizing : fw.program.Sizing) (ctx : Context) :
    sizing.stackCost ctx.frames + sizing.statementCost + 2 < fw.unitBound ctx := by
  have stack := sizing.stackCost_le ctx.frames
  have room := fw.program.armCount_le 0
  have share : sizing.statementCost + sizing.callCost * fw.program.items.length + 3 ≤
      16 * fw.program.weight * fw.program.weight +
        4 * fw.program.weight * fw.program.items.length := by
    unfold Program.Sizing.statementCost Program.Sizing.rate Program.Sizing.callCost
    generalize fw.program.weight = weight at *
    generalize fw.program.nodes.size = nodes at *
    generalize fw.program.items.length = items
    have calls : 3 * (nodes + 1) * items ≤ 4 * weight * items := Nat.mul_le_mul_right _ (by omega)
    have statements : (3 * (nodes + 1) + 4) * (nodes + 1) ≤ 3 * weight * weight :=
      Nat.mul_le_mul (by omega) (by omega)
    have square : 4 * weight ≤ weight * weight := Nat.mul_le_mul_right _ (by omega)
    rw [Nat.mul_assoc 3] at statements
    rw [Nat.mul_assoc 16]
    omega
  have bound : (ctx.frames.length + 1) *
      (sizing.statementCost + sizing.callCost * fw.program.items.length + 3) ≤
        fw.unitBound ctx := Nat.mul_le_mul_left _ share
  rw [Nat.succ_mul, Nat.mul_add] at bound
  omega

theorem unitBound_pos (fw : Firmware) (ctx : Context) : 0 < fw.unitBound ctx := by
  have room := fw.program.armCount_le 0
  have heavy : 0 < fw.program.weight := by omega
  refine Nat.mul_pos (Nat.succ_pos _) (Nat.lt_of_lt_of_le ?_ (Nat.le_add_right _ _))
  exact Nat.mul_pos (Nat.mul_pos (by decide) heavy) heavy

end Firmware

namespace Turn

variable {fw : Firmware} {height pushed : Nat} {frame : Frame} {scheduled : List Frame}
  {move : ScopeMove}

open Program.Sizing Firmware

theorem stackCost_lt (sizing : fw.program.Sizing)
    (turn : Turn fw height frame pushed scheduled move) (within : fw.isBoundary frame = false)
    (other : ∀ id, frame ≠ .exec id) : sizing.stackCost scheduled < sizing.cost frame := by
  have rate : sizing.rate = sizing.callCost + 4 := rfl
  have callCost : sizing.callCost = 3 * (fw.program.nodes.size + 1) := rfl
  cases turn with simp only [stackCost_append, stackCost_map_eval, stackCost_cons, stackCost_nil,
    cost, map_cons, if_true]
  -- The driver.
  | @global next after item found =>
    have order := (Program.nextGlobal?_sublist found).length_le
    simp only [length_cons, length_drop] at order
    have declaration := sizing.execCost_lt item
    have size := sizing.size_le item
    have fewer : sizing.callCost * (fw.program.items.length - after) + sizing.callCost ≤
        sizing.callCost * (fw.program.items.length - next) := by
      rw [← Nat.mul_succ]
      exact Nat.mul_le_mul_left _ (by omega)
    omega
  | globalsDone | noSetup => omega
  | @setup fn _ returnType body =>
    have entry := sizing.stackCost_entry body returnType height (fw.program.location fn)
    omega
  | noLoop | loopLimit =>
    simp only [isBoundary, decide_eq_false_iff_not] at within
    rw [if_pos (Nat.eq_zero_of_not_pos within)]
    omega
  | @loop completed fn _ returnType body =>
    simp only [isBoundary, decide_eq_false_iff_not] at within
    have entry := sizing.stackCost_entry body returnType height (fw.program.location fn)
    rw [if_pos (Nat.eq_zero_of_not_pos within), if_neg (Nat.succ_ne_zero _)]
    omega
  -- Statements.
  | nextStatement kind found =>
    simp only [blockCost, kind, drop_of_getElem? found, statementsCost_cons]
    omega
  | closeBlock | endBlock =>
    unfold blockCost
    split <;> omega
  | @thenBranch node _ branch _ kind =>
    have isChild : fw.program.Child branch node := by
      simp [Program.Child, kind, children]
    exact sizing.execCost_child isChild
  | @elseBranch node _ _ branch kind =>
    cases branch with
    | none => exact Nat.mul_pos (by decide) (sizing.size_pos node)
    | some branch =>
      have isChild : fw.program.Child branch node := by
        simp [Program.Child, kind, children]
      exact sizing.execCost_child isChild
  | loopCondition found condition =>
    have part := (sizing.loopParts_cost found).2.1 _ condition
    simp only [isBoundary, decide_eq_false_iff_not] at within
    rw [if_pos (Nat.eq_zero_of_not_pos within)]
    omega
  | @noCondition node =>
    have least := sizing.rate_le_evalCost node
    simp only [isBoundary, decide_eq_false_iff_not] at within
    rw [if_pos (Nat.eq_zero_of_not_pos within)]
    omega
  | startBody phase found =>
    have body := (sizing.loopParts_cost found).1
    rw [if_neg (Nat.succ_ne_zero _)]
    rcases phase with rfl | rfl <;> dsimp only <;> omega
  | @increment node _ iterations _ _ found increment =>
    have part := (sizing.loopParts_cost found).2.2 _ increment
    split <;> omega
  | @noIncrement node =>
    have least := sizing.rate_le_evalCost node
    split <;> omega
  | @selectArm node expr cases arm kind =>
    have fewer := sizing.armsCost_drop_le cases arm
    have start := sizing.cost_switch_zero kind arm
    simp only [cost, kind] at start ⊢
    omega
  | selectNone => split <;> omega
  | armStatement kind current found =>
    simp only [kind, drop_of_getElem? current, drop_of_getElem? found, statementsCost_cons]
    omega
  | @nextArm _ _ _ arm _ _ kind current =>
    have start := sizing.cost_switch_zero kind (arm + 1)
    simp only [cost, kind, drop_of_getElem? current] at start ⊢
    omega
  | closeSwitch =>
    split
    · split <;> omega
    · omega
  -- Calls.
  | call => exact sizing.stackCost_entry _ _ _ _
  -- Expressions.
  | evalBinary kind | evalAssign kind | evalCompoundAssign kind | evalUnary kind | evalCast kind
  | evalIncDec kind | evalAddress kind | evalCall kind | evalBuiltin kind | evalMethod kind
  | evalInitList kind =>
    have whole := sizing.evalCost_of_kind kind
    simp only [children, map_cons, map_nil, sum_cons, sum_nil] at whole
    omega
  | evalLogical kind | evalTernary kind =>
    have whole := sizing.evalCost_of_kind kind
    simp only [children, map_cons, map_nil, sum_cons, sum_nil] at whole
    simp only [kind]
    omega
  | @closeLoop node | @endLoop node | @evalLoad node | @value node | @place node =>
    have least := sizing.rate_le_evalCost node
    omega
  | placeIndex kind base | placeMember kind base | placeDeref kind base =>
    have whole := sizing.evalCost_of_kind kind
    simp only [children, map_cons, map_nil, sum_cons, sum_nil] at whole
    rcases base with rfl | rfl <;> dsimp only <;> omega
  | @decided node right =>
    cases right with dsimp only
    | true => omega
    | false => split <;> omega
  | undecided kind => simp [kind]
  | select kind chosen =>
    simp only [kind]
    rcases chosen with rfl | rfl <;> omega
  | openBlock | exprStmt | initializer | declared | objectArguments | group | condition | whileLoop
  | doWhile | forLoop | selector | result | empty | expression => exact absurd rfl (other _)
  | _ => exact Nat.one_pos

/-- A turn at a boundary brings on the cost of at most a whole statement. -/
theorem stackCost_le (sizing : fw.program.Sizing)
    (turn : Turn fw height frame pushed scheduled move) (boundary : fw.isBoundary frame = true) :
    sizing.stackCost scheduled ≤ sizing.statementCost := by
  have full := sizing.evalCost_le
  have rate : sizing.rate = sizing.callCost + 4 := rfl
  have least := sizing.rate_le_evalCost 0
  have most := full 0
  have room := fw.program.armCount_le 0
  unfold statementCost
  cases turn with try simp only [stackCost_append, stackCost_map_eval, stackCost_cons,
    stackCost_nil, cost, if_true]
  | @loop completed fn _ returnType body =>
    have entry := sizing.stackCost_entry body returnType height (fw.program.location fn)
    rw [if_neg (Nat.succ_ne_zero _)]
    omega
  | openBlock kind | group kind =>
    rw [isBoundary, kind] at boundary
    cases boundary
  | @exprStmt _ expr | @initializer _ expr =>
    have expression := full expr
    omega
  | @objectArguments node _ _ args kind =>
    have whole := sizing.evalCost_of_kind kind
    have expression := full node
    simp only [children] at whole
    omega
  | @condition node condition =>
    have expression := full condition
    have branches := sizing.three_size_le_evalCost node
    have whole := full node
    omega
  | @whileLoop node | @doWhile node | @expression node | @noCondition node =>
    have whole := full node
    omega
  | @forLoop node _ init =>
    have whole := full node
    have first : sizing.stackCost (init.toList.map .exec) ≤
        sizing.rate * (fw.program.nodes.size + 1) := by
      cases init with
      | none => exact Nat.zero_le _
      | some init =>
        have statement := sizing.execCost_lt init
        have expression := sizing.three_size_le_evalCost init
        have whole := full init
        simp only [Option.toList_some, map_cons, map_nil, stackCost_cons, stackCost_nil, cost]
        omega
    omega
  | @selector node expr cases kind =>
    have arms := sizing.armsCost_lt kind
    have whole := full node
    have expression := full expr
    simp only [kind]
    omega
  | @result node expr =>
    have returned : (expr.toList.map sizing.evalCost).sum ≤
        sizing.rate * (fw.program.nodes.size + 1) := by
      cases expr with
      | none => exact Nat.zero_le _
      | some expr => simpa using full expr
    omega
  | @loopCondition node condition =>
    have whole := full node
    have expression := full condition
    omega
  | startBody phase => rcases phase with rfl | rfl <;> cases boundary
  | noLoop | loopLimit | declared | empty => exact Nat.zero_le _
  | _ => cases boundary

end Turn

end Breadboard
