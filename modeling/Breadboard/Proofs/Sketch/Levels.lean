import Breadboard.Proofs.Sketch.Spelling

/-!
What the rule of a level of precedence reads. It reads a tree that is written for a place of that
level, as long as what follows cannot go on at the level or at a tighter one. A level that has
nothing to add to a tree hands it down to the next tighter one, and the tightest one takes a tree
that is too loose out of its parentheses, so a tree that its own level reads is read by all.
-/

open List

namespace Breadboard

variable {follow : List TokenKind}

namespace ParseState

variable {state middle next : ParseState} {written more : List TokenKind} {first : TokenKind}
  {tree : ExprTree}

def kinds (state : ParseState) : List TokenKind := state.tokens.map Token.kind

theorem kind_eq (state : ParseState) : state.kind = state.kinds.headD .endOfFile := by
  unfold kind kinds
  split <;> simp_all

theorem kind_of_kinds (here : state.kinds = first :: more) : state.kind = first := by
  rw [kind_eq, here]
  rfl

/-- Some tokens have been read on the way to another state, and nodes may have been added. -/
structure Passes (state : ParseState) (written : List TokenKind) (next : ParseState) : Prop where
  consumed : ∃ tokens, state.tokens = tokens ++ next.tokens ∧ tokens.map Token.kind = written
  grows : GrowsTo state.nodes next.nodes
  names : next.structNames = state.structNames

namespace Passes

theorem refl (state : ParseState) : state.Passes [] state :=
  ⟨⟨[], rfl, rfl⟩, prefix_refl _, rfl⟩

theorem trans (first : state.Passes written middle) (second : middle.Passes more next) :
    state.Passes (written ++ more) next := by
  obtain ⟨tokens, split, kinds⟩ := first.consumed
  obtain ⟨others, splitToo, kindsToo⟩ := second.consumed
  refine ⟨⟨tokens ++ others, ?_, ?_⟩, first.grows.trans second.grows,
    second.names.trans first.names⟩
  · rw [split, splitToo, append_assoc]
  · rw [map_append, kinds, kindsToo]

variable (passes : state.Passes written next)
include passes

theorem kinds_eq : state.kinds = written ++ next.kinds := by
  obtain ⟨tokens, split, kinds⟩ := passes.consumed
  rw [ParseState.kinds, split, map_append, kinds, ParseState.kinds]

theorem kinds_of (here : state.kinds = written ++ more) : next.kinds = more :=
  append_cancel_left (passes.kinds_eq.symm.trans here)

theorem isTypeName_eq (word : String) : next.isTypeName word = state.isTypeName word := by
  rw [isTypeName, passes.names, isTypeName]

end Passes

theorem passes_advance (here : state.kinds = first :: more) (goesOn : first ≠ .endOfFile) :
    state.Passes [first] state.advance ∧ state.advance.kinds = more := by
  unfold kinds at here
  cases held : state.tokens with
  | nil => simp [held] at here
  | cons token rest =>
    rw [held, map_cons, List.cons.injEq] at here
    obtain ⟨rfl, rfl⟩ := here
    have moved : state.advance = { state with tokens := rest } := by
      simp [advance, held, goesOn]
    rw [moved]
    exact ⟨⟨⟨[token], held, rfl⟩, prefix_refl _, rfl⟩, rfl⟩

def add (state : ParseState) (node : Node) : ParseState :=
  { state with nodes := state.nodes.push node }

theorem passes_add (state : ParseState) (node : Node) : state.Passes [] (state.add node) :=
  ⟨⟨[], rfl, rfl⟩, by simp [GrowsTo, add], rfl⟩

theorem getElem?_add (state : ParseState) (node : Node) :
    (state.add node).nodes[state.nodes.size]? = some node :=
  Array.getElem?_push_size

/-- The names of a tree are those of no types. -/
def Plain (state : ParseState) (tree : ExprTree) : Prop :=
  ∀ word ∈ tree.words, state.isTypeName word = false

theorem Plain.part {part : ExprTree} (plain : state.Plain tree) (below : part ∈ tree.parts) :
    state.Plain part :=
  fun word among => plain word (ExprTree.words_part below among)

theorem Plain.passed (plain : state.Plain tree)
    (passes : state.Passes written next) : next.Plain tree :=
  fun word among => (passes.isTypeName_eq word).trans (plain word among)

end ParseState

/-! Tokens that go on. -/

def Symbol.continues? : Symbol → Option Nat
  | .assign | .plusAssign | .minusAssign | .starAssign | .slashAssign | .percentAssign
  | .ampAssign | .pipeAssign | .caretAssign | .shiftLeftAssign | .shiftRightAssign => some 0
  | .question => some 1
  | .orOr => some 2
  | .andAnd => some 3
  | .pipe => some 4
  | .caret => some 5
  | .amp => some 6
  | .equal | .notEqual => some 7
  | .less | .lessEqual | .greater | .greaterEqual => some 8
  | .shiftLeft | .shiftRight => some 9
  | .plus | .minus => some 10
  | .star | .slash | .percent => some 11
  | .plusPlus | .minusMinus | .leftBracket | .dot | .arrow => some 14
  | .leftParen => some 15
  | _ => none

def Stops (rank : Nat) (follow : List TokenKind) : Prop :=
  ∀ symbol level, follow.head? = some (.symbol symbol) → symbol.continues? = some level →
    level < rank

theorem Stops.mono (stops : Stops rank follow) (above : rank ≤ higher) : Stops higher follow :=
  fun symbol level first goesOn => Nat.lt_of_lt_of_le (stops symbol level first goesOn) above

theorem Stops.of_unary (stops : Stops 13 follow) : Stops 12 follow := by
  intro symbol level first goesOn
  refine Nat.lt_of_le_of_ne (Nat.le_of_lt_succ (stops symbol level first goesOn)) ?_
  rintro rfl
  cases symbol <;> cases goesOn

theorem stops_cons (goesOn : symbol.continues? = some level) (below : level < rank) :
    Stops rank (.symbol symbol :: more) := by
  rintro other higher first same
  cases first
  cases goesOn.symm.trans same
  exact below

theorem stops_of_none (ends : symbol.continues? = none) (rank : Nat)
    (more : List TokenKind) : Stops rank (.symbol symbol :: more) := by
  rintro other level first goesOn
  cases first
  cases ends.symm.trans goesOn

namespace ExprLevel

def rank : ExprLevel → Nat
  | .assignment => 0
  | .conditional => 1
  | .logical .or => 2
  | .logical .and => 3
  | .binary level => level + 4
  | .cast => 12
  | .unary => 13
  | .suffixed => 14
  | .primary => 15

def Proper : ExprLevel → Prop
  | .binary level => level ≤ lastBinary
  | _ => True

variable {level other : ExprLevel} (proper : level.Proper)
include proper

theorem Proper.rank_le : level.rank ≤ 15 := by
  cases level with
  | binary level =>
    have := Nat.add_le_add_right (show level ≤ 7 from proper) 4
    exact Nat.le_trans this (by decide)
  | logical op => cases op <;> decide
  | _ => decide

theorem Proper.operand : level.operand.Proper := by
  cases level with
  | binary level =>
    rw [ExprLevel.operand]
    by_cases inner : level < lastBinary
    · rw [if_pos inner]
      exact inner
    · rw [if_neg inner]
      trivial
  | logical op =>
    cases op with
    | or => trivial
    | and => exact Nat.zero_le _
  | _ => trivial

theorem Proper.rank_operand (looser : level ≠ .primary) : level.operand.rank = level.rank + 1 := by
  cases level with
  | binary level =>
    rw [ExprLevel.operand]
    by_cases inner : level < lastBinary
    · rw [if_pos inner]
      exact Nat.add_right_comm level 1 4
    · rw [if_neg inner, Nat.le_antisymm proper (Nat.le_of_not_lt inner)]
      rfl
  | logical op => cases op <;> rfl
  | primary => exact absurd rfl looser
  | _ => rfl

theorem Proper.eq_of_rank_eq (properToo : other.Proper)
    (same : level.rank = other.rank) : level = other := by
  cases level with
  | binary level =>
    have few : level ≤ 7 := proper
    cases other with
    | binary other => exact congrArg binary (Nat.add_right_cancel same)
    | logical op => cases op <;> simp only [rank] at same <;> omega
    | _ =>
      simp only [rank] at same
      omega
  | logical op =>
    cases other with
    | logical other => cases op <;> cases other <;> simp [rank] at same ⊢
    | binary other => cases op <;> simp only [rank] at same <;> omega
    | _ => cases op <;> cases same
  | _ =>
    cases other with
    | binary other =>
      have few : other ≤ 7 := properToo
      simp only [rank] at same
      omega
    | logical op => cases op <;> cases same
    | _ => simp [rank] at same ⊢

def loops : ExprLevel → Bool
  | .logical _ | .binary _ | .suffixed => true
  | _ => false

end ExprLevel

namespace ExprTree

def level : ExprTree → ExprLevel
  | .assign _ _ | .compoundAssign _ _ _ _ => .assignment
  | .ternary _ _ _ => .conditional
  | .logical op _ _ => .logical op
  | .binary op _ _ => .binary op.level
  | .unary _ _ => .unary
  | .incDec op _ => if op.yieldsNew then .unary else .suffixed
  | .index _ _ | .member _ _ _ | .call _ _ | .methodCall _ _ _ => .suffixed
  | .name _ | .int _ _ => .primary

theorem rank_level (tree : ExprTree) : tree.level.rank = tree.precedence := by
  cases tree with
  | binary op | logical op | incDec op => cases op <;> rfl
  | _ => rfl

theorem proper_level (tree : ExprTree) : tree.level.Proper := by
  cases tree with
  | binary op =>
    have few : op.level ≤ 7 := by
      cases op <;> decide
    exact few
  | incDec op => cases op <;> trivial
  | _ => trivial

end ExprTree

namespace Parse

variable {rule ruleToo : Parse NodeId} {wanted : Symbol} {tokens : List TokenKind}

open ExprTree ParseState

variable {state middle next : ParseState} {written more follow : List TokenKind}
  {tree : ExprTree} {level : ExprLevel}

/-! What single tokens do. -/

section

variable {α : Type}

theorem bind_of_ok {β : Type} (read : first state = .ok (value, next)) (rest : α → Parse β) :
    (first >>= rest) state = rest value next := by
  change (first state >>= fun res => rest res.1 res.2) = _
  rw [read]
  rfl

theorem bind_location (rest : Location → Parse α) :
    (location >>= rest) state = rest state.location state := rfl

theorem bind_kind (rest : TokenKind → Parse α) :
    (kind >>= rest) state = rest state.kind state := rfl

theorem bind_advance (rest : Unit → Parse α) :
    (advance >>= rest) state = rest () state.advance := rfl

end

theorem require_of_kinds {symbol : Symbol} (here : state.kinds = .symbol symbol :: more)
    (ctx : String) : require symbol ctx state = .ok ((), state.advance) := by
  have found : state.kind = .symbol symbol := kind_of_kinds here
  have accepted : accept (.symbol symbol) state = .ok (true, state.advance) := by
    simp [accept, found]
  rw [require, expect, bind_of_ok accepted]
  rfl

theorem symbol_of_kind (found : state.kind = .symbol wanted) :
    symbol wanted state = .ok (true, state.advance) := by
  simp [symbol, accept, found]

theorem symbol_of_kind_ne (other : state.kind ≠ .symbol wanted) :
    symbol wanted state = .ok (false, state) := by
  simp [symbol, accept, other]

theorem isAtSymbol_eq (wanted : Symbol) :
    isAtSymbol wanted state = .ok (decide (state.kind = .symbol wanted), state) := rfl

/-! What a rule reads. -/

def Yields (rule : Parse NodeId) (state : ParseState) (written : List TokenKind)
    (tree : ExprTree) : Prop :=
  ∃ id next, rule state = .ok (id, next) ∧ state.Passes written next ∧ Denotes next.nodes id tree

def Reads (tree : ExprTree) (level : ExprLevel) : Prop :=
  ∀ (state : ParseState) (follow : List TokenKind) (fuel : Nat),
    state.kinds = tree.spell level.rank ++ follow → Stops level.rank follow → state.Plain tree →
    16 * (tree.spell level.rank).length + 16 ≤ fuel + level.rank →
    Yields (exprAt fuel level) state (tree.spell level.rank) tree

def continuation (fuel : Nat) (level : ExprLevel) : Nat → NodeId → Parse NodeId :=
  match level with
  | .logical op => leftAssociative (logicalOperator? op) (exprAt fuel level.operand)
  | .binary rank => leftAssociative (binaryOperator? rank) (exprAt fuel level.operand)
  | .suffixed => suffixes (exprAt fuel .assignment) fuel
  | _ => fun _ id => pure id

def ReadsOn (tree : ExprTree) (level : ExprLevel) : Prop :=
  ∀ (state : ParseState) (follow : List TokenKind) (fuel spare : Nat),
    state.kinds = tree.spell level.rank ++ follow → Stops (level.rank + 1) follow →
    state.Plain tree → 16 * (tree.spell level.rank).length + 16 ≤ fuel + level.rank + 1 →
    (tree.spell level.rank).length ≤ spare →
    ∃ id next left, spare ≤ left + (tree.spell level.rank).length ∧
      (exprAt fuel level.operand >>= continuation fuel level spare) state =
        continuation fuel level left id next ∧
      state.Passes (tree.spell level.rank) next ∧ Denotes next.nodes id tree

theorem length_spell_pos (tree : ExprTree) (ctx : Nat) : 0 < (tree.spell ctx).length := by
  have opens := tree.opens_spell ctx
  generalize tree.spell ctx = tokens at opens
  cases opens <;> exact Nat.succ_pos _

/-! The end of a level. -/

theorem leftAssociative_of_none (other : operator? next.kind = none) (operand : Parse NodeId)
    (fuel : Nat) (left : NodeId) :
    leftAssociative operator? operand (fuel + 1) left next = .ok (left, next) := by
  rw [leftAssociative, bind_kind, other]
  rfl

theorem continues?_of_binary? {symbol : Symbol}
    (found : symbol.binary? = some op) : symbol.continues? = some (op.level + 4) := by
  cases symbol <;> cases found <;> rfl

section

variable (here : state.kinds = follow)
include here

theorem kind_eq_of_kinds : state.kind = follow.headD .endOfFile := by
  rw [kind_eq, here]

theorem Stops.symbol {symbol : Symbol} (stops : Stops rank follow)
    (found : state.kind = .symbol symbol) : ∀ level, symbol.continues? = some level → level < rank := by
  intro level goesOn
  refine stops symbol level ?_ goesOn
  rw [kind_eq_of_kinds here] at found
  cases follow with
  | nil => cases found
  | cons first rest =>
    cases found
    rfl

theorem logicalOperator?_of_stops (stops : Stops (ExprLevel.logical op).rank follow) :
    logicalOperator? op state.kind = none := by
  unfold logicalOperator?
  rw [if_neg]
  intro found
  have goesOn := Stops.symbol here stops found
  cases op with
  | or => exact absurd (goesOn 2 rfl) (by decide)
  | and => exact absurd (goesOn 3 rfl) (by decide)

theorem binaryOperator?_of_stops (stops : Stops (ExprLevel.binary rank).rank follow) :
    binaryOperator? rank state.kind = none := by
  unfold binaryOperator?
  split
  · rename_i symbol found
    split
    · rename_i op known
      rw [if_neg]
      rintro rfl
      have goesOn := Stops.symbol here stops found _ (continues?_of_binary? known)
      exact Nat.lt_irrefl _ goesOn
    · rfl
  · rfl

theorem suffix?_of_stops (stops : Stops 14 follow) (expr : Parse NodeId) (fuel : Nat)
    (id : NodeId) : suffix? expr fuel id state = .ok (none, state) := by
  have other {symbol : Symbol} {level : Nat} (suffix : symbol.continues? = some level)
      (tight : 14 ≤ level) : state.kind ≠ .symbol symbol := fun found =>
    Nat.not_lt_of_le tight (Stops.symbol here stops found level suffix)
  rw [suffix?, bind_location, bind_kind]
  cases found : state.kind with
  | symbol symbol =>
    cases symbol with
    | plusPlus | minusMinus | leftBracket | dot | arrow | leftParen =>
      exact absurd found (other rfl (by decide))
    | _ => rfl
  | _ => rfl

end

section

variable (loops : level.loops = true)
include loops

theorem exprAt_of_loops (fuel : Nat) :
    exprAt (fuel + 1) level = exprAt fuel level.operand >>= continuation fuel level fuel := by
  cases level with
  | logical | binary | suffixed => rfl
  | assignment | conditional | cast | unary | primary => cases loops

theorem continuation_of_stops (here : state.kinds = follow) (stops : Stops level.rank follow)
    (fuel left : Nat) (id : NodeId) :
    continuation fuel level (left + 1) id state = .ok (id, state) := by
  cases level with
  | logical op => exact leftAssociative_of_none (logicalOperator?_of_stops here stops) _ _ _
  | binary rank => exact leftAssociative_of_none (binaryOperator?_of_stops here stops) _ _ _
  | suffixed =>
    rw [continuation, suffixes, bind_of_ok (suffix?_of_stops here stops _ _ _)]
    rfl
  | assignment | conditional | cast | unary | primary => cases loops

variable (proper : level.Proper)
include proper

theorem rank_operand_of_loops : level.operand.rank = level.rank + 1 := by
  refine proper.rank_operand ?_
  rintro rfl
  cases loops

theorem reads_of_readsOn (readsOn : ReadsOn tree level) : Reads tree level := by
  intro state follow fuel here stops plain enough
  have rank := proper.rank_le
  have filled := length_spell_pos tree level.rank
  obtain _ | fuel := fuel
  · omega
  obtain ⟨id, next, left, room, same, passes, denotes⟩ :=
    readsOn state follow fuel fuel here (stops.mono (Nat.le_succ _)) plain (by omega) (by omega)
  obtain _ | left := left
  · omega
  refine ⟨id, next, ?_, passes, denotes⟩
  rw [exprAt_of_loops loops, same]
  exact continuation_of_stops loops (passes.kinds_of here) stops fuel left id

/-! Levels that a tree passes through. -/

theorem readsOn_of_operand (other : tree.precedence ≠ level.rank)
    (reads : Reads tree level.operand) : ReadsOn tree level := by
  intro state follow fuel spare here stops plain enough room
  unfold Reads at reads
  rw [rank_operand_of_loops loops proper, spell_succ other] at reads
  obtain ⟨id, next, read, passes, denotes⟩ := reads state follow fuel here stops plain enough
  exact ⟨id, next, spare, Nat.le_add_right _ _, bind_of_ok read _, passes, denotes⟩

end

theorem typeFollows_of_opens {words : List String} (opens : Opens words tokens)
    (here : state.kinds = tokens) (plain : ∀ word ∈ words, state.isTypeName word = false)
    (paren : state.kind = .symbol .leftParen) : state.typeFollows = false := by
  have second : state.kindAt 1 = tokens[1]? := by
    rw [← here, ParseState.kinds, List.getElem?_map]
    rfl
  rw [kind_eq_of_kinds here] at paren
  unfold ParseState.typeFollows
  rw [second]
  cases opens with
  | name | int => cases paren
  | @unary op | @incDec op => cases op <;> cases paren
  | paren inner =>
    cases inner with
    | name among => exact plain _ among
    | int | unary | incDec | paren => rfl

theorem cast_of_operand (plain : state.kind = .symbol .leftParen → state.typeFollows = false) :
    cast rule operand state = operand state := by
  have none : (decide (state.kind = .symbol .leftParen) && state.typeFollows) = false := by
    by_cases paren : state.kind = .symbol .leftParen
    · rw [plain paren, Bool.and_false]
    · rw [decide_eq_false paren, Bool.false_and]
  rw [cast, bind_of_ok (isAtSymbol_eq _), bind_of_ok (rfl : Parse.typeFollows state = _), none]
  rfl

theorem unary_of_operand (starts : StartsTight tokens) (here : state.kinds = tokens) (fuel : Nat) :
    unary rule ruleToo operand fuel state = operand state := by
  rw [unary, bind_location, bind_kind, kind_eq_of_kinds here]
  cases starts <;> rfl

theorem assignment_of_operand {id : NodeId} (read : operand state = .ok (id, next))
    (here : next.kinds = follow) (stops : Stops 0 follow) :
    assignment rule operand state = .ok (id, next) := by
  rw [assignment, bind_of_ok read, bind_location, bind_kind]
  cases found : next.kind with
  | symbol symbol =>
    have none : symbol.continues? ≠ some 0 := fun goesOn =>
      Nat.not_lt_zero _ (Stops.symbol here stops found 0 goesOn)
    cases symbol with
    | assign | plusAssign | minusAssign | starAssign | slashAssign | percentAssign | ampAssign
    | pipeAssign | caretAssign | shiftLeftAssign | shiftRightAssign => exact absurd rfl none
    | _ => rfl
  | _ => rfl

theorem conditional_of_operand {id : NodeId} (read : operand state = .ok (id, next))
    (here : next.kinds = follow) (stops : Stops 1 follow) :
    conditional rule ruleToo operand state = .ok (id, next) := by
  have other : next.kind ≠ .symbol .question := fun found =>
    Nat.lt_irrefl _ (Stops.symbol here stops found 1 rfl)
  rw [conditional, bind_of_ok read, bind_location, bind_of_ok (symbol_of_kind_ne other)]
  rfl

/-- A level other than its own reads a tree as the next tighter one does. -/
theorem reads_of_operand (proper : level.Proper) (looser : level ≠ .primary)
    (other : tree.precedence ≠ level.rank) (reads : Reads tree level.operand) :
    Reads tree level := by
  by_cases loops : level.loops = true
  · exact reads_of_readsOn loops proper (readsOn_of_operand loops proper other reads)
  · intro state follow fuel here stops plain enough
    have rank := proper.rank_operand looser
    have most := proper.rank_le
    have filled := length_spell_pos tree level.rank
    have opens := (tree.opens_spell level.rank).append (List.Subset.refl _) follow
    have tight := (tree.startsTight_spell).append follow
    obtain _ | fuel := fuel
    · omega
    unfold Reads at reads
    rw [rank, spell_succ other] at reads
    obtain ⟨id, next, read, passes, denotes⟩ :=
      reads state follow fuel here (stops.mono (Nat.le_succ _)) plain (by omega)
    refine ⟨id, next, ?_, passes, denotes⟩
    cases level with
    | assignment => exact assignment_of_operand read (passes.kinds_of here) stops
    | conditional => exact conditional_of_operand read (passes.kinds_of here) stops
    | cast =>
      refine Eq.trans (cast_of_operand ?_) read
      exact typeFollows_of_opens opens here plain
    | unary =>
      refine Eq.trans (unary_of_operand tight ?_ fuel) read
      rw [here, ← spell_succ other]
      rfl
    | logical | binary | suffixed => exact absurd rfl loops
    | primary => exact absurd rfl looser

theorem reads_primary_of_loose (loose : tree.precedence < 15) (reads : Reads tree .assignment) :
    Reads tree .primary := by
  intro state follow fuel here stops plain enough
  have spelled : tree.spell 15 = .symbol .leftParen :: (tree.spell 0 ++ [.symbol .rightParen]) := by
    rw [spell_of_lt loose, spell_of_le (Nat.zero_le _)]
  simp only [ExprLevel.rank, spelled, length_cons, length_append, length_nil]
    at enough
  obtain _ | fuel := fuel
  · omega
  have start : state.kinds =
      .symbol .leftParen :: (tree.spell 0 ++ .symbol .rightParen :: follow) := by
    rw [here]
    simp [ExprLevel.rank, spelled]
  obtain ⟨opened, inside⟩ := passes_advance start (by simp)
  obtain ⟨id, middle, read, passes, denotes⟩ :=
    reads state.advance (.symbol .rightParen :: follow) fuel inside (stops_of_none rfl _ _)
      (plain.passed opened) (by simp only [ExprLevel.rank]; omega)
  have close := passes.kinds_of inside
  obtain ⟨closed, -⟩ := passes_advance close (by simp)
  refine ⟨id, middle.advance, ?_, ?_, denotes.mono closed.grows⟩
  · change primary _ state = _
    rw [primary, bind_location, bind_kind, kind_of_kinds start]
    change (advance >>= fun _ => _) state = _
    rw [bind_advance, bind_of_ok read, bind_of_ok (require_of_kinds close _)]
    rfl
  · have whole := (opened.trans passes).trans closed
    simpa [ExprLevel.rank, spelled] using whole

/-! Trees at all levels. -/

/-- All levels read a tree, and the loops of those that have one read on from its left. -/
structure Readable (tree : ExprTree) : Prop where
  reads : ∀ level, level.Proper → Reads tree level
  readsOn : ∀ level, level.Proper → level.loops = true → ReadsOn tree level

theorem reads_of_rank_le (own : Reads tree tree.level) (proper : level.Proper)
    (fits : level.rank ≤ tree.precedence) : Reads tree level := by
  induction distance : tree.precedence - level.rank generalizing level with
  | zero =>
    have same : level.rank = tree.level.rank := by
      rw [tree.rank_level]
      omega
    rwa [proper.eq_of_rank_eq tree.proper_level same]
  | succ distance ih =>
    have most := tree.proper_level.rank_le
    rw [tree.rank_level] at most
    have looser : level ≠ .primary := by
      rintro rfl
      simp only [ExprLevel.rank] at distance fits
      omega
    have rank := proper.rank_operand looser
    exact reads_of_operand proper looser (by omega) (ih proper.operand (by omega) (by omega))

theorem reads_of_lt_rank (own : Reads tree tree.level) (proper : level.Proper)
    (loose : tree.precedence < level.rank) : Reads tree level := by
  have most := proper.rank_le
  induction distance : 15 - level.rank generalizing level with
  | zero =>
    have tightest : level.rank = 15 := by omega
    have isPrimary : level = .primary :=
      proper.eq_of_rank_eq (show ExprLevel.primary.Proper from trivial) tightest
    rw [isPrimary]
    exact reads_primary_of_loose (by omega) (reads_of_rank_le own trivial (Nat.zero_le _))
  | succ distance ih =>
    have looser : level ≠ .primary := by
      rintro rfl
      cases distance
    have rank := proper.rank_operand looser
    exact reads_of_operand proper looser (by omega)
      (ih proper.operand (by omega) (by omega) (by omega))

theorem readable_of_own (own : Reads tree tree.level)
    (ownLoop : tree.level.loops = true → ReadsOn tree tree.level) : Readable tree := by
  have reads (level : ExprLevel) (proper : level.Proper) : Reads tree level := by
    by_cases fits : level.rank ≤ tree.precedence
    · exact reads_of_rank_le own proper fits
    · exact reads_of_lt_rank own proper (Nat.lt_of_not_le fits)
  refine ⟨reads, ?_⟩
  intro level proper loops
  by_cases same : tree.precedence = level.rank
  · rw [← tree.rank_level] at same
    rw [← tree.proper_level.eq_of_rank_eq proper same] at loops ⊢
    exact ownLoop loops
  · exact readsOn_of_operand loops proper same (reads _ proper.operand)

theorem spell_rank (isAt : tree.level = level) : tree.spell level.rank = tree.written := by
  rw [← isAt, rank_level, spell_of_le (Nat.le_refl _)]

theorem readable_of_readsOn (isAt : tree.level = level) (loops : level.loops = true)
    (own : ReadsOn tree level) : Readable tree := by
  subst isAt
  exact readable_of_own (reads_of_readsOn loops tree.proper_level own) fun _ => own

theorem readable_of_rule (isAt : tree.level = level) (single : level.loops = false)
    (own : Reads tree level) : Readable tree := by
  subst isAt
  refine readable_of_own own ?_
  intro loops
  cases single.symm.trans loops

end Parse

end Breadboard
