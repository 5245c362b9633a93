import Breadboard.Sketch.Grammar.Expression

/-!
Expressions as trees and how they are written with as few parentheses as their precedence allows.
From loosest to tightest there are the levels of assignment (0), the conditional operator (1),
`||` (2), `&&` (3), the binary operators (4 to 11), casts (12), prefix operators (13), suffixes
(14), and names and literals (15). A part that is looser than its place allows stands in
parentheses.
-/

open List

namespace Breadboard

/-! The tables of the language. -/

namespace BinaryOp

def token : BinaryOp → Symbol
  | .add => .plus
  | .sub => .minus
  | .mul => .star
  | .div => .slash
  | .mod => .percent
  | .eq => .equal
  | .ne => .notEqual
  | .lt => .less
  | .le => .lessEqual
  | .gt => .greater
  | .ge => .greaterEqual
  | .bitAnd => .amp
  | .bitOr => .pipe
  | .bitXor => .caret
  | .shl => .shiftLeft
  | .shr => .shiftRight

def precedence : BinaryOp → Nat
  | .bitOr => 4
  | .bitXor => 5
  | .bitAnd => 6
  | .eq | .ne => 7
  | .lt | .le | .gt | .ge => 8
  | .shl | .shr => 9
  | .add | .sub => 10
  | .mul | .div | .mod => 11

/-- The symbol that assigns the result of the operator. Comparisons have none. -/
def assignToken? : BinaryOp → Option Symbol
  | .add => some .plusAssign
  | .sub => some .minusAssign
  | .mul => some .starAssign
  | .div => some .slashAssign
  | .mod => some .percentAssign
  | .bitAnd => some .ampAssign
  | .bitOr => some .pipeAssign
  | .bitXor => some .caretAssign
  | .shl => some .shiftLeftAssign
  | .shr => some .shiftRightAssign
  | .eq | .ne | .lt | .le | .gt | .ge => none

end BinaryOp

namespace LogicalOp

def token : LogicalOp → Symbol
  | .and => .andAnd
  | .or => .orOr

def precedence : LogicalOp → Nat
  | .or => 2
  | .and => 3

end LogicalOp

def UnaryOp.token : UnaryOp → Symbol
  | .neg => .minus
  | .plus => .plus
  | .not => .bang
  | .bitNot => .tilde
  | .deref => .star
  | .addressOf => .amp

def IncDecOp.token (op : IncDecOp) : Symbol :=
  if op.increments then .plusPlus else .minusMinus

/-! Trees. -/

inductive ExprTree where
  | name (word : String)
  | int (value : Int64) (unsigned : Bool)
  | binary (op : BinaryOp) (left right : ExprTree)
  | logical (op : LogicalOp) (left right : ExprTree)
  | ternary (cond thenExpr elseExpr : ExprTree)
  | assign (target value : ExprTree)
  | compoundAssign (op : BinaryOp) (assigns : op.assignToken?.isSome = true)
      (target value : ExprTree)
  | unary (op : UnaryOp) (operand : ExprTree)
  | incDec (op : IncDecOp) (target : ExprTree)
  | index (array pos : ExprTree)
  | member (object : ExprTree) (field : String) (throughPointer : Bool)
  | call (callee : String) (args : List ExprTree)
  | methodCall (receiver : ExprTree) (method : String) (args : List ExprTree)

namespace ExprTree

variable {tree : ExprTree} {ctx : Nat}

def precedence : ExprTree → Nat
  | .assign _ _ | .compoundAssign _ _ _ _ => 0
  | .ternary _ _ _ => 1
  | .logical op _ _ => op.precedence
  | .binary op _ _ => op.precedence
  | .unary _ _ => 13
  | .incDec op _ => if op.yieldsNew then 13 else 14
  | .index _ _ | .member _ _ _ | .call _ _ | .methodCall _ _ _ => 14
  | .name _ | .int _ _ => 15

/-- In parentheses if it is too loose for its place. -/
def wrapped (own ctx : Nat) (tokens : List TokenKind) : List TokenKind :=
  if own < ctx then .symbol .leftParen :: (tokens ++ [.symbol .rightParen]) else tokens

mutual

/-- The tokens of a tree in a place that allows everything. -/
def written : ExprTree → List TokenKind
  | .name word => [.name word]
  | .int value unsigned => [.int value unsigned]
  | .binary op left right =>
    wrapped left.precedence op.precedence left.written ++
      .symbol op.token :: wrapped right.precedence (op.precedence + 1) right.written
  | .logical op left right =>
    wrapped left.precedence op.precedence left.written ++
      .symbol op.token :: wrapped right.precedence (op.precedence + 1) right.written
  | .ternary cond thenExpr elseExpr =>
    wrapped cond.precedence 2 cond.written ++
      .symbol .question :: (wrapped thenExpr.precedence 0 thenExpr.written ++
        .symbol .colon :: wrapped elseExpr.precedence 1 elseExpr.written)
  | .assign target value =>
    wrapped target.precedence 1 target.written ++
      .symbol .assign :: wrapped value.precedence 0 value.written
  | .compoundAssign op assigns target value =>
    wrapped target.precedence 1 target.written ++
      .symbol (op.assignToken?.get assigns) :: wrapped value.precedence 0 value.written
  | .unary op operand => .symbol op.token :: wrapped operand.precedence 13 operand.written
  | .incDec op target =>
    if op.yieldsNew then .symbol op.token :: wrapped target.precedence 13 target.written
    else wrapped target.precedence 14 target.written ++ [.symbol op.token]
  | .index array pos =>
    wrapped array.precedence 14 array.written ++
      .symbol .leftBracket :: (wrapped pos.precedence 0 pos.written ++
        [.symbol .rightBracket])
  | .member object field throughPointer =>
    wrapped object.precedence 14 object.written ++
      [.symbol (if throughPointer then .arrow else .dot), .name field]
  | .call callee args =>
    .name callee :: .symbol .leftParen :: (writtenArgs args ++ [.symbol .rightParen])
  | .methodCall receiver method args =>
    wrapped receiver.precedence 14 receiver.written ++
      .symbol .dot :: .name method :: .symbol .leftParen ::
        (writtenArgs args ++ [.symbol .rightParen])

def writtenArgs : List ExprTree → List TokenKind
  | [] => []
  | first :: rest => wrapped first.precedence 0 first.written ++ writtenMore rest

def writtenMore : List ExprTree → List TokenKind
  | [] => []
  | next :: rest =>
    .symbol .comma :: (wrapped next.precedence 0 next.written ++ writtenMore rest)

end

def spell (ctx : Nat) (tree : ExprTree) : List TokenKind :=
  wrapped tree.precedence ctx tree.written

mutual

/-- The names that a tree uses, fields and methods apart. -/
def words : ExprTree → List String
  | .name word => [word]
  | .int _ _ => []
  | .binary _ left right | .logical _ left right => left.words ++ right.words
  | .ternary cond thenExpr elseExpr => cond.words ++ thenExpr.words ++ elseExpr.words
  | .assign target value | .compoundAssign _ _ target value => target.words ++ value.words
  | .unary _ operand => operand.words
  | .incDec _ target => target.words
  | .index array pos => array.words ++ pos.words
  | .member object _ _ => object.words
  | .call callee args => callee :: wordsOf args
  | .methodCall receiver _ args => receiver.words ++ wordsOf args

def wordsOf : List ExprTree → List String
  | [] => []
  | tree :: trees => tree.words ++ wordsOf trees

end

def parts : ExprTree → List ExprTree
  | .name _ | .int _ _ => []
  | .binary _ left right | .logical _ left right => [left, right]
  | .ternary cond thenExpr elseExpr => [cond, thenExpr, elseExpr]
  | .assign target value | .compoundAssign _ _ target value => [target, value]
  | .unary _ operand => [operand]
  | .incDec _ target => [target]
  | .index array pos => [array, pos]
  | .member object _ _ => [object]
  | .call _ args => args
  | .methodCall receiver _ args => receiver :: args

theorem sizeOf_part (below : part ∈ tree.parts) : sizeOf part < sizeOf tree := by
  cases tree with
  | call callee args =>
    have smaller := sizeOf_lt_of_mem (show part ∈ args from below)
    simp only [call.sizeOf_spec]
    omega
  | methodCall receiver method args =>
    rcases mem_cons.mp below with rfl | inside
    · simp only [methodCall.sizeOf_spec]
      omega
    · have smaller := sizeOf_lt_of_mem inside
      simp only [methodCall.sizeOf_spec]
      omega
  | name | int => cases below
  | _ =>
    simp only [parts, mem_cons, not_mem_nil, or_false] at below
    rcases below with rfl | rfl | rfl <;> simp <;> omega

theorem inductionOnParts {holds : ExprTree → Prop}
    (step : ∀ tree, (∀ part ∈ tree.parts, holds part) → holds tree) (tree : ExprTree) :
    holds tree := by
  apply step
  intro part below
  have smaller := sizeOf_part below
  exact inductionOnParts step part
termination_by sizeOf tree

theorem words_subset_wordsOf (among : tree ∈ trees) : tree.words ⊆ wordsOf trees := by
  induction trees with
  | nil => cases among
  | cons first trees ih =>
    rw [wordsOf]
    cases among with
    | head => exact subset_append_left _ _
    | tail _ among =>
      exact List.Subset.trans (ih among) (subset_append_right _ _)

theorem words_part (below : part ∈ tree.parts) : part.words ⊆ tree.words := by
  cases tree with
  | name | int => cases below
  | call callee args =>
    exact List.Subset.trans (words_subset_wordsOf below) (subset_cons_self _ _)
  | methodCall receiver method args =>
    rw [words]
    rcases mem_cons.mp below with rfl | inside
    · exact subset_append_left _ _
    · exact List.Subset.trans (words_subset_wordsOf inside) (subset_append_right _ _)
  | _ =>
    simp only [parts, mem_cons, not_mem_nil, or_false] at below
    rcases below with rfl | rfl | rfl <;> simp [words]

/-! Levels. -/

theorem precedence_ne_cast (tree : ExprTree) : tree.precedence ≠ 12 := by
  intro same
  cases tree with
  | binary op | logical op | incDec op => cases op <;> cases same
  | _ => cases same

theorem spell_of_le (fits : ctx ≤ tree.precedence) : tree.spell ctx = tree.written :=
  if_neg (Nat.not_lt_of_le fits)

theorem spell_of_lt (loose : tree.precedence < ctx) :
    tree.spell ctx = .symbol .leftParen :: (tree.written ++ [.symbol .rightParen]) :=
  if_pos loose

/-- The next tighter place makes a difference for the trees of the level only. -/
theorem spell_succ (other : tree.precedence ≠ ctx) : tree.spell (ctx + 1) = tree.spell ctx := by
  rcases Nat.lt_or_gt_of_ne other with loose | tight
  · rw [spell_of_lt loose, spell_of_lt (Nat.lt_succ_of_lt loose)]
  · rw [spell_of_le tight, spell_of_le (Nat.le_of_lt tight)]

/-! How written trees begin. -/

/-- The start of an expression whose names are among some. -/
inductive Opens (words : List String) : List TokenKind → Prop where
  | name : word ∈ words → Opens words (.name word :: rest)
  | int : Opens words (.int value unsigned :: rest)
  | unary {op : UnaryOp} {rest : List TokenKind} : Opens words (.symbol op.token :: rest)
  | incDec {op : IncDecOp} {rest : List TokenKind} : Opens words (.symbol op.token :: rest)
  | paren : Opens words rest → Opens words (.symbol .leftParen :: rest)

namespace Opens

variable {words others : List String} {tokens : List TokenKind}

theorem append (opens : Opens words tokens) (fewer : words ⊆ others) (more : List TokenKind) :
    Opens others (tokens ++ more) := by
  induction opens with
  | name among => exact .name (fewer among)
  | int => exact .int
  | unary => exact .unary
  | incDec => exact .incDec
  | paren _ ih => exact .paren ih

theorem headD_ne_rightParen (opens : Opens words tokens) :
    tokens.headD .endOfFile ≠ .symbol .rightParen := by
  cases opens with
  | @unary op => cases op <;> simp [UnaryOp.token]
  | @incDec op => cases op <;> simp [IncDecOp.token, IncDecOp.increments]
  | name | int | paren => simp

end Opens

theorem opens_spell_of_written (opens : Opens tree.words tree.written) (ctx : Nat) :
    Opens tree.words (tree.spell ctx) := by
  by_cases loose : tree.precedence < ctx
  · rw [spell_of_lt loose]
    exact .paren (opens.append (List.Subset.refl _) _)
  · rw [spell_of_le (Nat.le_of_not_lt loose)]
    exact opens

theorem opens_written (tree : ExprTree) : Opens tree.words tree.written := by
  induction tree using inductionOnParts with
  | _ tree ih =>
    have first (part : ExprTree) (below : part ∈ tree.parts) (ctx : Nat)
        (more : List TokenKind) : Opens tree.words (part.spell ctx ++ more) :=
      (opens_spell_of_written (ih part below) ctx).append (words_part below) more
    cases tree with
    | name => exact .name (mem_singleton_self _)
    | int => exact .int
    | unary => exact .unary
    | call => exact .name mem_cons_self
    | binary op left right | logical op left right => exact first left (by simp [parts]) _ _
    | ternary cond => exact first cond (by simp [parts]) _ _
    | assign target | compoundAssign _ _ target => exact first target (by simp [parts]) _ _
    | index array => exact first array (by simp [parts]) _ _
    | member object => exact first object (by simp [parts]) _ _
    | methodCall receiver => exact first receiver (by simp [parts]) _ _
    | incDec op target =>
      rw [written]
      split
      · exact .incDec
      · exact first target (by simp [parts]) _ _

theorem opens_spell (tree : ExprTree) (ctx : Nat) : Opens tree.words (tree.spell ctx) :=
  opens_spell_of_written tree.opens_written ctx

/-- The start of an expression that has no prefix operator. -/
inductive StartsTight : List TokenKind → Prop where
  | name : StartsTight (.name word :: rest)
  | int : StartsTight (.int value unsigned :: rest)
  | paren : StartsTight (.symbol .leftParen :: rest)

theorem StartsTight.append (starts : StartsTight tokens)
    (more : List TokenKind) : StartsTight (tokens ++ more) := by
  cases starts with
  | name => exact .name
  | int => exact .int
  | paren => exact .paren

theorem startsTight_spell (tree : ExprTree) : StartsTight (tree.spell 14) := by
  induction tree using inductionOnParts with
  | _ tree ih =>
    by_cases loose : tree.precedence < 14
    · rw [spell_of_lt loose]
      exact .paren
    · rw [spell_of_le (Nat.le_of_not_lt loose)]
      cases tree with
      | name | call => exact .name
      | int => exact .int
      | index array => exact (ih array (by simp [parts])).append _
      | member object => exact (ih object (by simp [parts])).append _
      | methodCall receiver => exact (ih receiver (by simp [parts])).append _
      | incDec op target =>
        rw [precedence] at loose
        rw [written]
        split
        · simp_all
        · exact (ih target (by simp [parts])).append _
      | binary op | logical op => cases op <;> exact absurd (Nat.le_of_ble_eq_true rfl) loose
      | ternary | assign | compoundAssign | unary => simp [precedence] at loose

end ExprTree

/-! Trees in an arena. -/

mutual

/-- A node stands for a tree, at whatever locations. -/
inductive Denotes (nodes : Array Node) : NodeId → ExprTree → Prop where
  | name {id place word} :
      nodes[id]? = some ⟨.identifier word, place⟩ → Denotes nodes id (.name word)
  | int {id place value unsigned} :
      nodes[id]? = some ⟨.intLiteral value unsigned, place⟩ → Denotes nodes id (.int value unsigned)
  | binary {id place op leftId rightId left right} :
      nodes[id]? = some ⟨.binary op leftId rightId, place⟩ → Denotes nodes leftId left →
      Denotes nodes rightId right → Denotes nodes id (.binary op left right)
  | logical {id place op leftId rightId left right} :
      nodes[id]? = some ⟨.logical op leftId rightId, place⟩ → Denotes nodes leftId left →
      Denotes nodes rightId right → Denotes nodes id (.logical op left right)
  | ternary {id place conditionId thenId elseId cond thenExpr elseExpr} :
      nodes[id]? = some ⟨.ternary conditionId thenId elseId, place⟩ →
      Denotes nodes conditionId cond → Denotes nodes thenId thenExpr →
      Denotes nodes elseId elseExpr → Denotes nodes id (.ternary cond thenExpr elseExpr)
  | assign {id place targetId valueId target value} :
      nodes[id]? = some ⟨.assign targetId valueId, place⟩ → Denotes nodes targetId target →
      Denotes nodes valueId value → Denotes nodes id (.assign target value)
  | compoundAssign {id place op assigns targetId valueId target value} :
      nodes[id]? = some ⟨.compoundAssign op targetId valueId, place⟩ →
      Denotes nodes targetId target → Denotes nodes valueId value →
      Denotes nodes id (.compoundAssign op assigns target value)
  | unary {id place op operandId operand} :
      nodes[id]? = some ⟨.unary op operandId, place⟩ → Denotes nodes operandId operand →
      Denotes nodes id (.unary op operand)
  | incDec {id place op targetId target} :
      nodes[id]? = some ⟨.incDec op targetId, place⟩ → Denotes nodes targetId target →
      Denotes nodes id (.incDec op target)
  | index {id place arrayId positionId array pos} :
      nodes[id]? = some ⟨.index arrayId positionId, place⟩ → Denotes nodes arrayId array →
      Denotes nodes positionId pos → Denotes nodes id (.index array pos)
  | member {id place objectId object field throughPointer} :
      nodes[id]? = some ⟨.member objectId field throughPointer, place⟩ →
      Denotes nodes objectId object → Denotes nodes id (.member object field throughPointer)
  | call {id place callee argIds args} :
      nodes[id]? = some ⟨.call callee argIds, place⟩ → DenotesAll nodes argIds args →
      Denotes nodes id (.call callee args)
  | methodCall {id place method receiverId argIds receiver args} :
      nodes[id]? = some ⟨.methodCall receiverId method argIds, place⟩ →
      Denotes nodes receiverId receiver → DenotesAll nodes argIds args →
      Denotes nodes id (.methodCall receiver method args)

inductive DenotesAll (nodes : Array Node) : List NodeId → List ExprTree → Prop where
  | nil : DenotesAll nodes [] []
  | cons {id ids tree trees} : Denotes nodes id tree → DenotesAll nodes ids trees →
      DenotesAll nodes (id :: ids) (tree :: trees)

end

def GrowsTo (nodes grown : Array Node) : Prop := nodes.toList <+: grown.toList

theorem GrowsTo.getElem? (grows : GrowsTo nodes grown) {id : NodeId}
    (found : nodes[id]? = some node) : grown[id]? = some node := by
  obtain ⟨more, same⟩ := grows
  rw [← Array.getElem?_toList] at found ⊢
  rw [← same, List.getElem?_append_left (List.getElem?_eq_some_iff.mp found).1, found]

mutual

theorem Denotes.mono {id : NodeId}
    (grows : GrowsTo nodes grown) : Denotes nodes id tree → Denotes grown id tree
  | .name found => .name (grows.getElem? found)
  | .int found => .int (grows.getElem? found)
  | .binary found left right => .binary (grows.getElem? found) (left.mono grows) (right.mono grows)
  | .logical found left right =>
    .logical (grows.getElem? found) (left.mono grows) (right.mono grows)
  | .ternary found cond thenExpr elseExpr =>
    .ternary (grows.getElem? found) (cond.mono grows) (thenExpr.mono grows) (elseExpr.mono grows)
  | .assign found target value =>
    .assign (grows.getElem? found) (target.mono grows) (value.mono grows)
  | .compoundAssign found target value =>
    .compoundAssign (grows.getElem? found) (target.mono grows) (value.mono grows)
  | .unary found operand => .unary (grows.getElem? found) (operand.mono grows)
  | .incDec found target => .incDec (grows.getElem? found) (target.mono grows)
  | .index found array pos =>
    .index (grows.getElem? found) (array.mono grows) (pos.mono grows)
  | .member found object => .member (grows.getElem? found) (object.mono grows)
  | .call found args => .call (grows.getElem? found) (args.mono grows)
  | .methodCall found receiver args =>
    .methodCall (grows.getElem? found) (receiver.mono grows) (args.mono grows)

theorem DenotesAll.mono
    (grows : GrowsTo nodes grown) : DenotesAll nodes ids trees → DenotesAll grown ids trees
  | .nil => .nil
  | .cons first rest => .cons (first.mono grows) (rest.mono grows)

end

mutual

theorem Denotes.unique {id : NodeId}
    (denotes : Denotes nodes id tree) (denotesOther : Denotes nodes id other) : tree = other := by
  -- the two constructors are the same, since they see the same node
  cases denotes with
  | name found | int found =>
    cases denotesOther <;> cases found.symm.trans ‹nodes[id]? = _›
    rfl
  | unary found part | incDec found part | member found part =>
    cases denotesOther <;> cases found.symm.trans ‹nodes[id]? = _›
    rw [part.unique ‹_›]
  | binary found left right | logical found left right | assign found left right
  | compoundAssign found left right | index found left right =>
    cases denotesOther <;> cases found.symm.trans ‹nodes[id]? = _›
    rename_i leftToo rightToo _
    rw [left.unique leftToo, right.unique rightToo]
  | ternary found cond thenExpr elseExpr =>
    cases denotesOther <;> cases found.symm.trans ‹nodes[id]? = _›
    rename_i conditionToo thenToo elseToo _
    rw [cond.unique conditionToo, thenExpr.unique thenToo, elseExpr.unique elseToo]
  | call found args =>
    cases denotesOther <;> cases found.symm.trans ‹nodes[id]? = _›
    rw [args.unique ‹_›]
  | methodCall found receiver args =>
    cases denotesOther <;> cases found.symm.trans ‹nodes[id]? = _›
    rename_i receiverToo argsToo _
    rw [receiver.unique receiverToo, args.unique argsToo]

theorem DenotesAll.unique (denotes : DenotesAll nodes ids trees)
    (denotesOthers : DenotesAll nodes ids others) : trees = others := by
  cases denotes with
  | nil =>
    cases denotesOthers
    rfl
  | cons first rest =>
    cases denotesOthers with
    | cons firstToo restToo => rw [first.unique firstToo, rest.unique restToo]

end

end Breadboard
