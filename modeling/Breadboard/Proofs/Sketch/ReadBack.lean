import Breadboard.Proofs.Sketch.Levels

/-!
Reading back what was written. Each kind of tree is read by its own level if its parts are read by
all levels. The loop of a left-associative level comes to the same point whether it has read the
left operand or begins there, so the operands to the left of an operator may be as long as they
like.
-/

open List

namespace Breadboard.Parse

open ExprLevel ExprTree

variable {target left right value : ExprTree} {args : List ExprTree} (token : Symbol)
  (op : BinaryOp) {first : TokenKind} {word : String} {operand : ExprTree}

open ExprTree ParseState

attribute [local simp] parts

variable {state middle next : ParseState} {written more follow : List TokenKind}
  {tree : ExprTree} {level : ExprLevel}

/-! Names and literals. -/

/-- A token that is an expression of its own is read whatever follows. -/
theorem yields_leaf {kind : NodeKind} (here : state.kinds = first :: follow)
    (goesOn : first ≠ .endOfFile) (rule : ∀ expression state, ParseState.kind state = first →
      primary expression state = literal kind state.location state)
    (denotes : ∀ nodes id place, nodes[id]? = some ⟨kind, place⟩ → Denotes nodes id tree)
    (fuel : Nat) : Yields (exprAt (fuel + 1) .primary) state [first] tree := by
  obtain ⟨passes, -⟩ := passes_advance here goesOn
  refine ⟨state.advance.nodes.size, state.advance.add ⟨kind, state.location⟩, ?_, ?_, ?_⟩
  · exact rule _ state (kind_of_kinds here)
  · exact passes.trans (passes_add _ _)
  · exact denotes _ _ _ (getElem?_add _ _)

theorem yields_name (here : state.kinds = .name word :: follow) (fuel : Nat) :
    Yields (exprAt (fuel + 1) .primary) state [.name word] (.name word) := by
  refine yields_leaf here (by simp) ?_ (fun _ _ _ => .name) fuel
  intro expression state found
  rw [primary, bind_location, bind_kind, found]

theorem yields_int {value : Int64} (here : state.kinds = .int value unsigned :: follow)
    (fuel : Nat) :
    Yields (exprAt (fuel + 1) .primary) state [.int value unsigned] (.int value unsigned) := by
  refine yields_leaf here (by simp) ?_ (fun _ _ _ => .int) fuel
  intro expression state found
  rw [primary, bind_location, bind_kind, found]

theorem readable_leaf (isLeaf : tree.level = .primary) (spelled : tree.spell 15 = [first])
    (yields : ∀ (state : ParseState) follow fuel, state.kinds = first :: follow →
      Yields (exprAt (fuel + 1) .primary) state [first] tree) : Readable tree := by
  refine readable_of_rule isLeaf rfl ?_
  intro state follow fuel here stops plain enough
  simp only [rank, spelled, length_singleton] at here enough ⊢
  obtain _ | fuel := fuel
  · omega
  exact yields state follow fuel here

theorem readable_name (word : String) : Readable (.name word) :=
  readable_leaf rfl rfl fun _ _ fuel here => yields_name here fuel

theorem readable_int (value : Int64) (unsigned : Bool) : Readable (.int value unsigned) :=
  readable_leaf rfl rfl fun _ _ fuel here => yields_int here fuel

/-! Operators between two operands. -/

theorem leftAssociative_of_some {operand : Parse NodeId} {left right : NodeId}
    (known : operator? state.kind = some build) (read : operand state.advance = .ok (right, next))
    (fuel : Nat) : leftAssociative operator? operand (fuel + 1) left state =
      leftAssociative operator? operand fuel next.nodes.size
        (next.add ⟨build left right, state.location⟩) := by
  rw [leftAssociative, bind_kind, known]
  change (location >>= fun place => advance >>= fun _ => operand >>= fun right =>
    node (build left right) place >>= leftAssociative operator? operand fuel) state = _
  rw [bind_location, bind_advance, bind_of_ok read]
  rfl

theorem readable_operator (build : NodeId → NodeId → NodeKind) (loops : tree.level.loops = true)
    (loop : ∀ fuel, continuation fuel tree.level =
      leftAssociative operator? (exprAt fuel tree.level.operand))
    (known : operator? (.symbol token) = some build)
    (goesOn : token.continues? = some tree.precedence)
    (spelled : tree.written =
      left.spell tree.precedence ++ .symbol token :: right.spell (tree.precedence + 1))
    (isLeft : left ∈ tree.parts) (isRight : right ∈ tree.parts)
    (denotes : ∀ nodes id place leftId rightId, nodes[id]? = some ⟨build leftId rightId, place⟩ →
      Denotes nodes leftId left → Denotes nodes rightId right → Denotes nodes id tree)
    (readsLeft : Readable left) (readsRight : Readable right) : Readable tree := by
  refine readable_of_readsOn rfl loops ?_
  intro state follow fuel spare here stops plain enough room
  have proper := tree.proper_level
  have readsRight := readsRight.reads _ proper.operand
  unfold Reads at readsRight
  rw [rank_operand_of_loops loops proper] at readsRight
  rw [← tree.rank_level] at goesOn spelled
  rw [(spell_rank rfl).trans spelled] at here enough room ⊢
  rw [append_assoc, cons_append] at here
  simp only [length_append, length_cons] at enough room ⊢
  obtain ⟨leftId, middle, spareLeft, roomLeft, same, passesLeft, denotesLeft⟩ :=
    readsLeft.readsOn _ proper loops state _ fuel spare here
      (stops_cons goesOn (Nat.lt_succ_self _)) (plain.part isLeft) (by omega) (by omega)
  have here := passesLeft.kinds_of here
  obtain ⟨advances, behind⟩ := passes_advance here (by simp)
  obtain ⟨rightId, next, read, passesRight, denotesRight⟩ :=
    readsRight middle.advance follow fuel behind stops
      (((plain.part isRight).passed passesLeft).passed advances) (by omega)
  obtain _ | spareLeft := spareLeft
  · omega
  have adds := next.passes_add ⟨build leftId rightId, middle.location⟩
  refine ⟨next.nodes.size, next.add ⟨build leftId rightId, middle.location⟩, spareLeft, by omega,
    ?_, ?_, ?_⟩
  · rw [same, loop]
    apply leftAssociative_of_some _ read
    rw [kind_of_kinds here, known]
  · have whole := ((passesLeft.trans advances).trans passesRight).trans adds
    simpa using whole
  · refine denotes _ _ _ _ _ (getElem?_add _ _) ?_ (denotesRight.mono adds.grows)
    exact denotesLeft.mono (advances.grows.trans (passesRight.grows.trans adds.grows))

theorem readable_binary (readsLeft : Readable left) (readsRight : Readable right) :
    Readable (.binary op left right) := by
  refine readable_operator op.token (.binary op) rfl (fun _ => rfl) ?_ ?_ rfl (by simp) (by simp)
    (fun _ _ _ _ _ => .binary) readsLeft readsRight <;> cases op <;> rfl

theorem readable_logical (op : LogicalOp) (readsLeft : Readable left)
    (readsRight : Readable right) : Readable (.logical op left right) := by
  refine readable_operator op.token (.logical op) rfl (fun _ => rfl) ?_ ?_ rfl (by simp) (by simp)
    (fun _ _ _ _ _ => .logical) readsLeft readsRight <;> cases op <;> rfl

/-! Suffixes. -/

theorem readable_suffix (base : ExprTree) (tail : List TokenKind)
    (isSuffixed : tree.level = .suffixed)
    (spelled : tree.written = base.spell 14 ++ tail) (among : base.words ⊆ tree.words)
    (goesOn : ∀ more, Stops 15 (tail ++ more)) (filled : tail ≠ [])
    (step : ∀ (state : ParseState) (follow : List TokenKind) (fuel : Nat) (id : NodeId),
      state.kinds = tail ++ follow → Stops 15 follow → state.Plain tree →
      16 * tail.length + 16 ≤ fuel → Denotes state.nodes id base →
      ∃ longer next, suffix? (exprAt fuel .assignment) fuel id state = .ok (some longer, next) ∧
        state.Passes tail next ∧ Denotes next.nodes longer tree)
    (readable : Readable base) : Readable tree := by
  refine readable_of_readsOn isSuffixed rfl ?_
  intro state follow fuel spare here stops plain enough room
  have longer := length_pos_iff.mpr filled
  have first := length_spell_pos base 14
  rw [(spell_rank isSuffixed).trans spelled] at here enough room ⊢
  simp only [rank] at here stops enough room ⊢
  rw [append_assoc] at here
  rw [length_append] at enough room ⊢
  have plainBase : state.Plain base := fun word inside => plain word (among inside)
  obtain ⟨id, middle, left, roomLeft, same, passes, denotes⟩ :=
    readable.readsOn .suffixed trivial rfl state (tail ++ follow) fuel spare here
      (goesOn follow) plainBase (by simp only [rank]; omega) (by simp only [rank]; omega)
  obtain ⟨id', next, read, passesToo, denotesToo⟩ :=
    step middle follow fuel id (passes.kinds_of here) stops (plain.passed passes) (by omega)
      denotes
  simp only [rank] at roomLeft same passes
  obtain _ | left := left
  · omega
  refine ⟨id', next, left, by omega, ?_, passes.trans passesToo, denotesToo⟩
  rw [same, continuation, suffixes, bind_of_ok read]

theorem readable_incDec_behind (op : IncDecOp) (old : op.yieldsNew = false)
    (readable : Readable target) : Readable (.incDec op target) := by
  have isSuffixed : (incDec op target).level = .suffixed := by
    simp [level, old]
  have spelled : (incDec op target).written = target.spell 14 ++ [.symbol op.token] := by
    rw [written, if_neg (by simp [old])]
    rfl
  have goesOn : op.token.continues? = some 14 := by
    cases op <;> rfl
  refine readable_suffix target _ isSuffixed spelled (List.Subset.refl _)
    (fun more => stops_cons goesOn (by decide)) (by simp) ?_ readable
  intro state follow fuel id here _ _ _ denotes
  obtain ⟨passes, -⟩ := passes_advance here (by simp)
  have adds := state.advance.passes_add ⟨.incDec op id, state.location⟩
  refine ⟨state.advance.nodes.size, state.advance.add ⟨.incDec op id, state.location⟩, ?_,
    passes.trans adds, .incDec (getElem?_add _ _) (denotes.mono (passes.grows.trans adds.grows))⟩
  rw [suffix?, bind_location, bind_kind, kind_of_kinds here]
  cases op with
  | preInc | preDec => cases old
  | postInc | postDec => rfl

theorem readable_index (readsArray : Readable array)
    (readsPosition : Readable pos) : Readable (.index array pos) := by
  refine readable_suffix array
    (.symbol .leftBracket :: (pos.spell 0 ++ [.symbol .rightBracket])) rfl rfl
    (by simp [words]) (fun more => stops_cons rfl (by decide)) (by simp) ?_ readsArray
  intro state follow fuel id here stops plain enough denotes
  simp only [length_cons, length_append, length_nil] at enough
  rw [cons_append, append_assoc] at here
  obtain ⟨opens, inside⟩ := passes_advance here (by simp)
  obtain ⟨positionId, middle, read, passes, denotesToo⟩ :=
    readsPosition.reads .assignment trivial state.advance _ fuel inside (stops_of_none rfl _ _)
      ((plain.part (by simp)).passed opens) (by simp only [rank]; omega)
  have close := passes.kinds_of inside
  obtain ⟨closes, -⟩ := passes_advance close (by simp)
  have adds := middle.advance.passes_add ⟨.index id positionId, state.location⟩
  have whole := ((opens.trans passes).trans closes).trans adds
  refine ⟨middle.advance.nodes.size, middle.advance.add ⟨.index id positionId, state.location⟩, ?_,
    ?_, .index (getElem?_add _ _) (denotes.mono whole.grows)
      (denotesToo.mono (closes.grows.trans adds.grows))⟩
  · rw [suffix?, bind_location, bind_kind, kind_of_kinds here]
    change (advance >>= fun _ => exprAt fuel .assignment >>= fun pos => _) state = _
    rw [bind_advance, bind_of_ok read, bind_of_ok (require_of_kinds close _)]
    rfl
  · simpa [rank] using whole

/-! Fields, methods and calls. -/

theorem map_of_ok {rule : Parse α} {value : α} (read : rule state = .ok (value, next))
    (f : α → β) : (f <$> rule) state = .ok (f value, next) := by
  change (rule state >>= fun res => pure (f res.1, res.2)) = _
  rw [read]
  rfl

theorem name_of_kinds (here : state.kinds = .name word :: more) :
    name state = .ok (word, state.advance) := by
  rw [name, bind_kind, kind_of_kinds here]
  rfl

theorem selection_of_field (named : state.advance.kinds = .name field :: more)
    (noCall : state.advance.advance.kind ≠ .symbol .leftParen) (expression : Parse NodeId)
    (fuel : Nat) (throughPointer : Bool) (id : NodeId) (place : Location) :
    selection expression fuel throughPointer id place state = .ok (state.advance.advance.nodes.size,
        state.advance.advance.add ⟨.member id field throughPointer, place⟩) := by
  rw [selection, bind_advance, bind_of_ok (name_of_kinds named),
    bind_of_ok (isAtSymbol_eq _), decide_eq_false noCall, Bool.and_false]
  rfl

theorem readable_member (field : String) (throughPointer : Bool)
    (readable : Readable object) : Readable (.member object field throughPointer) := by
  refine readable_suffix object [.symbol (if throughPointer then .arrow else .dot), .name field]
    rfl rfl (List.Subset.refl _) ?_ (by simp) ?_ readable
  · intro more
    cases throughPointer <;> exact stops_cons rfl (by decide)
  · intro state follow fuel id here stops _ _ denotes
    obtain ⟨passes, named⟩ := passes_advance here (by simp)
    obtain ⟨passesName, behind⟩ := passes_advance named (by simp)
    -- a parenthesis would make it a call of a method
    have noCall : state.advance.advance.kind ≠ .symbol .leftParen := fun found =>
      Nat.lt_irrefl _ (Stops.symbol behind stops found 15 rfl)
    have adds := state.advance.advance.passes_add ⟨.member id field throughPointer, state.location⟩
    have whole := (passes.trans passesName).trans adds
    refine ⟨_, _, ?_, whole, .member (getElem?_add _ _) (denotes.mono whole.grows)⟩
    rw [suffix?, bind_location, bind_kind, kind_of_kinds here]
    cases throughPointer <;> exact map_of_ok (selection_of_field named noCall _ _ _ _ _) some

theorem stops_writtenMore (rank : Nat) (args : List ExprTree) (follow : List TokenKind) :
    Stops rank (writtenMore args ++ .symbol .rightParen :: follow) := by
  cases args <;> exact stops_of_none rfl _ _

theorem moreItems_reads (readable : ∀ arg ∈ args, Readable arg) (fuel bound : Nat)
    (state : ParseState) (here : state.kinds = writtenMore args ++ .symbol .rightParen :: follow)
    (plain : ∀ arg ∈ args, state.Plain arg) (enough : 16 * (writtenMore args).length ≤ fuel)
    (room : (writtenMore args).length < bound) :
    ∃ ids next, moreItems (exprAt fuel .assignment) bound state = .ok (ids, next) ∧
      state.Passes (writtenMore args) next ∧ DenotesAll next.nodes ids args := by
  obtain _ | bound := bound
  · omega
  induction args generalizing state bound with
  | nil =>
    have other : state.kind ≠ .symbol .comma := by
      simp [kind_of_kinds here]
    refine ⟨[], state, ?_, .refl _, .nil⟩
    rw [moreItems, bind_of_ok (symbol_of_kind_ne other)]
    rfl
  | cons arg args ih =>
    have spelled : writtenMore (arg :: args) =
        .symbol .comma :: (arg.spell 0 ++ writtenMore args) := rfl
    simp only [spelled, length_cons, length_append] at enough room
    rw [spelled, cons_append, append_assoc] at here
    obtain ⟨comma, inside⟩ := passes_advance here (by simp)
    obtain ⟨reads, readable⟩ := forall_mem_cons.mp readable
    obtain ⟨plainArg, plain⟩ := forall_mem_cons.mp plain
    obtain ⟨id, middle, read, passes, denotes⟩ :=
      reads.reads .assignment trivial state.advance _ fuel inside
        (stops_writtenMore _ _ _) (plainArg.passed comma) (by simp only [rank]; omega)
    obtain _ | bound := bound
    · omega
    obtain ⟨ids, next, readMore, passesMore, denotesMore⟩ :=
      ih readable middle (passes.kinds_of inside)
        (fun other among => ((plain other among).passed comma).passed passes) (by omega) bound
        (by omega)
    refine ⟨id :: ids, next, ?_, (comma.trans passes).trans passesMore,
      .cons (denotes.mono passesMore.grows) denotesMore⟩
    rw [moreItems, bind_of_ok (symbol_of_kind (kind_of_kinds here))]
    change (exprAt fuel .assignment >>= fun first => _) state.advance = _
    rw [bind_of_ok read, bind_of_ok readMore]
    rfl

theorem arguments_reads (readable : ∀ arg ∈ args, Readable arg) (fuel : Nat) (state : ParseState)
    (here : state.kinds = writtenArgs args ++ .symbol .rightParen :: follow)
    (plain : ∀ arg ∈ args, state.Plain arg) (enough : 16 * (writtenArgs args).length + 16 ≤ fuel) :
    ∃ ids next, arguments (exprAt fuel .assignment) fuel state = .ok (ids, next) ∧
      state.Passes (writtenArgs args) next ∧ DenotesAll next.nodes ids args := by
  rw [arguments, bind_of_ok (isAtSymbol_eq _)]
  cases args with
  | nil =>
    refine ⟨[], state, ?_, .refl _, .nil⟩
    rw [decide_eq_true (kind_of_kinds here)]
    rfl
  | cons arg args =>
    have spelled : writtenArgs (arg :: args) = arg.spell 0 ++ writtenMore args := rfl
    rw [spelled, length_append] at enough
    rw [spelled, append_assoc] at here
    have filled : state.kind ≠ .symbol .rightParen := by
      rw [kind_eq, here]
      exact ((arg.opens_spell 0).append (List.Subset.refl _) _).headD_ne_rightParen
    obtain ⟨reads, readable⟩ := forall_mem_cons.mp readable
    obtain ⟨plainArg, plain⟩ := forall_mem_cons.mp plain
    obtain ⟨id, middle, read, passes, denotes⟩ :=
      reads.reads .assignment trivial state _ fuel here (stops_writtenMore _ _ _) plainArg
        (by simp only [rank]; omega)
    obtain ⟨ids, next, readMore, passesMore, denotesMore⟩ :=
      moreItems_reads readable fuel fuel middle (passes.kinds_of here)
        (fun other among => (plain other among).passed passes) (by omega) (by omega)
    refine ⟨id :: ids, next, ?_, passes.trans passesMore,
      .cons (denotes.mono passesMore.grows) denotesMore⟩
    rw [decide_eq_false filled]
    change commaSeparated _ _ _ = _
    rw [commaSeparated, bind_of_ok read, bind_of_ok readMore]
    rfl

theorem readable_methodCall (method : String) (readsReceiver : Readable receiver)
    (readsArgs : ∀ arg ∈ args, Readable arg) : Readable (.methodCall receiver method args) := by
  refine readable_suffix receiver (.symbol .dot :: .name method :: .symbol .leftParen ::
    (writtenArgs args ++ [.symbol .rightParen])) rfl rfl (by simp [words])
    (fun more => stops_cons rfl (by decide)) (by simp) ?_ readsReceiver
  intro state follow fuel id here _ plain enough denotes
  simp only [length_cons, length_append, length_nil] at enough
  simp only [cons_append, append_assoc, nil_append] at here
  obtain ⟨passesDot, named⟩ := passes_advance here (by simp)
  obtain ⟨passesName, opened⟩ := passes_advance named (by simp)
  obtain ⟨passesOpen, inside⟩ := passes_advance opened (by simp)
  have before := (passesDot.trans passesName).trans passesOpen
  obtain ⟨argIds, middle, read, passes, denotesArgs⟩ := arguments_reads readsArgs fuel _ inside
      (fun arg among => (plain.part (mem_cons_of_mem _ among)).passed before) (by omega)
  have close := passes.kinds_of inside
  obtain ⟨closes, -⟩ := passes_advance close (by simp)
  have adds := middle.advance.passes_add ⟨.methodCall id method argIds, state.location⟩
  have whole := ((before.trans passes).trans closes).trans adds
  refine ⟨_, middle.advance.add ⟨.methodCall id method argIds, state.location⟩, ?_, ?_,
    .methodCall (getElem?_add _ _) (denotes.mono whole.grows)
      (denotesArgs.mono (closes.grows.trans adds.grows))⟩
  · rw [suffix?, bind_location, bind_kind, kind_of_kinds here]
    refine map_of_ok ?_ some
    rw [selection, bind_advance, bind_of_ok (name_of_kinds named),
      bind_of_ok (isAtSymbol_eq _), decide_eq_true (kind_of_kinds opened)]
    change (advance >>= fun _ => arguments _ fuel >>= fun args => _) state.advance.advance = _
    rw [bind_advance, bind_of_ok read, bind_of_ok (require_of_kinds close _)]
    rfl
  · simpa using whole

theorem suffix?_of_call {callee : String} {place : Location} {id : NodeId} {argIds : List NodeId}
    {expression : Parse NodeId} {fuel : Nat} (noType : BaseType.ofAlias? callee = none)
    (found : state.nodes[id]? = some ⟨.identifier callee, place⟩)
    (opened : state.kinds = .symbol .leftParen :: more)
    (read : arguments expression fuel state.advance = .ok (argIds, next))
    (close : next.kinds = .symbol .rightParen :: follow) :
    suffix? expression fuel id state =
      .ok (some next.advance.nodes.size, next.advance.add ⟨.call callee argIds, place⟩) := by
  have noCast : callNode callee argIds = .call callee argIds := by
    simp [callNode, noType]
  rw [suffix?, bind_location, bind_kind, kind_of_kinds opened]
  change ((get : Parse ParseState) >>= fun current => _) state = _
  rw [bind_of_ok (rfl : (get : Parse ParseState) state = .ok (state, state)), found]
  change (advance >>= fun _ => arguments expression fuel >>= fun args => _) state = _
  rw [bind_advance, bind_of_ok read, bind_of_ok (require_of_kinds close _), noCast]
  rfl

theorem readable_call (callee : String) (readable : ∀ arg ∈ args, Readable arg) :
    Readable (.call callee args) := by
  refine readable_of_readsOn rfl rfl ?_
  intro state follow fuel spare here stops plain enough room
  have spelled : (call callee args).spell 14 =
      .name callee :: .symbol .leftParen :: (writtenArgs args ++ [.symbol .rightParen]) := rfl
  simp only [level, rank, spelled, length_cons, length_append, length_nil,
    cons_append, append_assoc, nil_append] at here enough room ⊢
  have noType : BaseType.ofAlias? callee = none := by
    have other := plain callee mem_cons_self
    rw [isTypeName, Bool.or_eq_false_iff, Option.isSome_eq_false_iff, Option.isNone_iff_eq_none]
      at other
    exact other.1
  obtain _ | fuel := fuel
  · omega
  obtain _ | spare := spare
  · omega
  obtain ⟨nameId, named, readName, passesName, denotesName⟩ := yields_name here fuel
  have opened := passesName.kinds_of here
  obtain ⟨passesOpen, inside⟩ := passes_advance opened (by simp)
  have before := passesName.trans passesOpen
  obtain ⟨argIds, middle, read, passes, denotesArgs⟩ := arguments_reads readable (fuel + 1) _ inside
      (fun arg among => (plain.part among).passed before) (by omega)
  have close := passes.kinds_of inside
  obtain ⟨closes, -⟩ := passes_advance close (by simp)
  cases denotesName with
  | @name _ place _ found =>
    have adds := middle.advance.passes_add ⟨.call callee argIds, place⟩
    have whole := ((before.trans passes).trans closes).trans adds
    refine ⟨_, middle.advance.add ⟨.call callee argIds, place⟩, spare, by omega, ?_, ?_,
      .call (getElem?_add _ _) (denotesArgs.mono (closes.grows.trans adds.grows))⟩
    · change (exprAt (fuel + 1) .primary >>= suffixes _ (fuel + 1) (spare + 1)) state = _
      rw [bind_of_ok readName, suffixes]
      rw [bind_of_ok (suffix?_of_call noType found opened read close)]
      rfl
    · simpa using whole

/-! Operators in front. -/

theorem readable_in_front (build : NodeId → NodeKind) (inner : ExprLevel) (proper : inner.Proper)
    (tight : inner.rank = 12 ∨ inner.rank = 13) (isUnary : tree.level = .unary)
    (spelled : tree.written = .symbol token :: operand.spell 13) (isOperand : operand ∈ tree.parts)
    (rule : ∀ (fuel : Nat) (state : ParseState), state.kind = .symbol token →
      exprAt (fuel + 1) .unary state =
        (advance >>= fun _ => exprAt fuel inner >>= fun id => node (build id) state.location) state)
    (denotes : ∀ nodes id place operandId, nodes[id]? = some ⟨build operandId, place⟩ →
      Denotes nodes operandId operand → Denotes nodes id tree)
    (readable : Readable operand) : Readable tree := by
  have same : operand.spell inner.rank = operand.spell 13 := by
    rcases tight with loose | exact
    · rw [loose, spell_succ operand.precedence_ne_cast]
    · rw [exact]
  refine readable_of_rule isUnary rfl ?_
  intro state follow fuel here stops plain enough
  rw [(spell_rank isUnary).trans spelled] at here enough ⊢
  simp only [ExprLevel.rank, length_cons, cons_append] at here stops enough ⊢
  obtain _ | fuel := fuel
  · omega
  obtain ⟨passesToken, behind⟩ := passes_advance here (by simp)
  have reads := readable.reads inner proper state.advance follow fuel
  rw [same] at reads
  have stopsInner : Stops inner.rank follow := by
    rcases tight with loose | exact
    · rw [loose]
      exact stops.of_unary
    · rwa [exact]
  obtain ⟨operandId, next, read, passes, denotesOperand⟩ :=
    reads behind stopsInner ((plain.part isOperand).passed passesToken) (by omega)
  have adds := next.passes_add ⟨build operandId, state.location⟩
  refine ⟨_, next.add ⟨build operandId, state.location⟩, ?_, ?_,
    denotes _ _ _ _ (getElem?_add _ _) (denotesOperand.mono adds.grows)⟩
  · rw [rule fuel state (kind_of_kinds here), bind_advance, bind_of_ok read]
    rfl
  · simpa using (passesToken.trans passes).trans adds

theorem readable_unary (op : UnaryOp) (readable : Readable operand) :
    Readable (.unary op operand) := by
  refine readable_in_front op.token (.unary op) .cast trivial (.inl rfl) rfl rfl (by simp)
    ?_ (fun _ _ _ _ => .unary) readable
  intro fuel state found
  change unary _ _ _ fuel state = _
  rw [unary, bind_location, bind_kind, found]
  cases op <;> rfl

theorem readable_incDec (op : IncDecOp) (readable : Readable target) :
    Readable (.incDec op target) := by
  by_cases new : op.yieldsNew = true
  · refine readable_in_front op.token (.incDec op) .unary trivial (.inr rfl) ?_ ?_ (by simp)
      ?_ (fun _ _ _ _ => .incDec) readable
    · rw [level, if_pos new]
    · rw [written, if_pos new]
      rfl
    · intro fuel state found
      change unary _ _ _ fuel state = _
      rw [unary, bind_location, bind_kind, found]
      cases op with
      | preInc | preDec => rfl
      | postInc | postDec => cases new
  · exact readable_incDec_behind op (Bool.eq_false_iff.mpr new) readable

/-! The conditional operator and assignments. -/

theorem readable_ternary {cond thenExpr elseExpr : ExprTree}
    (readsCondition : Readable cond) (readsThen : Readable thenExpr)
    (readsElse : Readable elseExpr) : Readable (.ternary cond thenExpr elseExpr) := by
  refine readable_of_rule rfl rfl ?_
  intro state follow fuel here stops plain enough
  have spelled : (ternary cond thenExpr elseExpr).spell 1 =
      cond.spell 2 ++ .symbol .question ::
        (thenExpr.spell 0 ++ .symbol .colon :: elseExpr.spell 1) := rfl
  simp only [level, rank, spelled, length_cons, length_append, cons_append,
    append_assoc] at here stops enough ⊢
  obtain _ | fuel := fuel
  · omega
  obtain ⟨conditionId, asked, readCondition, passesCondition, denotesCondition⟩ :=
    readsCondition.reads (.logical .or) trivial state _ fuel here (stops_cons rfl (by decide))
      (plain.part (by simp)) (by simp only [rank]; omega)
  have question := passesCondition.kinds_of here
  obtain ⟨passesQuestion, thenHere⟩ := passes_advance question (by simp)
  have before := passesCondition.trans passesQuestion
  obtain ⟨thenId, between, readThen, passesThen, denotesThen⟩ :=
    readsThen.reads .assignment trivial asked.advance _ fuel thenHere (stops_of_none rfl _ _)
      ((plain.part (by simp)).passed before) (by simp only [rank]; omega)
  have colon := passesThen.kinds_of thenHere
  obtain ⟨passesColon, elseHere⟩ := passes_advance colon (by simp)
  obtain ⟨elseId, next, readElse, passesElse, denotesElse⟩ :=
    readsElse.reads .conditional trivial between.advance follow fuel elseHere stops
      ((plain.part (by simp)).passed ((before.trans passesThen).trans passesColon))
      (by simp only [rank]; omega)
  have adds := next.passes_add ⟨.ternary conditionId thenId elseId, asked.location⟩
  have afterThen := (passesColon.trans passesElse).trans adds
  have afterCondition := (passesQuestion.trans passesThen).trans afterThen
  refine ⟨_, next.add ⟨.ternary conditionId thenId elseId, asked.location⟩, ?_, ?_,
    .ternary (getElem?_add _ _) (denotesCondition.mono afterCondition.grows)
      (denotesThen.mono afterThen.grows) (denotesElse.mono adds.grows)⟩
  · change conditional _ _ (exprAt fuel (.logical .or)) state = _
    rw [conditional, bind_of_ok readCondition, bind_location,
      bind_of_ok (symbol_of_kind (kind_of_kinds question))]
    change (exprAt fuel .assignment >>= fun thenExpr => _) asked.advance = _
    rw [bind_of_ok readThen, bind_of_ok (require_of_kinds colon _), bind_of_ok readElse]
    rfl
  · simpa [rank] using passesCondition.trans afterCondition

theorem readable_assigning (build : NodeId → NodeId → NodeKind)
    (isAssignment : tree.level = .assignment) (assigns : token.continues? = some 0)
    (spelled : tree.written = target.spell 1 ++ .symbol token :: value.spell 0)
    (isTarget : target ∈ tree.parts) (isValue : value ∈ tree.parts)
    (rule : ∀ (expression operand : Parse NodeId) (state next : ParseState) (id : NodeId),
      operand state = .ok (id, next) → next.kind = .symbol token →
      assignment expression operand state = (advance >>= fun _ => expression >>= fun value =>
          node (build id value) next.location) next) (denotes : ∀ nodes id place targetId valueId,
      nodes[id]? = some ⟨build targetId valueId, place⟩ → Denotes nodes targetId target →
      Denotes nodes valueId value → Denotes nodes id tree) (readsTarget : Readable target)
    (readsValue : Readable value) : Readable tree := by
  refine readable_of_rule isAssignment rfl ?_
  intro state follow fuel here stops plain enough
  rw [(spell_rank isAssignment).trans spelled] at here enough ⊢
  simp only [rank, length_cons, length_append, cons_append,
    append_assoc] at here stops enough ⊢
  obtain _ | fuel := fuel
  · omega
  obtain ⟨targetId, middle, readTarget, passesTarget, denotesTarget⟩ :=
    readsTarget.reads .conditional trivial state _ fuel here (stops_cons assigns (by decide))
      (plain.part isTarget) (by simp only [rank]; omega)
  have sign := passesTarget.kinds_of here
  obtain ⟨passesSign, behind⟩ := passes_advance sign (by simp)
  obtain ⟨valueId, next, readValue, passesValue, denotesValue⟩ :=
    readsValue.reads .assignment trivial middle.advance follow fuel behind stops
      ((plain.part isValue).passed (passesTarget.trans passesSign))
      (by simp only [rank]; omega)
  have adds := next.passes_add ⟨build targetId valueId, middle.location⟩
  have afterTarget := (passesSign.trans passesValue).trans adds
  refine ⟨_, next.add ⟨build targetId valueId, middle.location⟩, ?_, ?_,
    denotes _ _ _ _ _ (getElem?_add _ _) (denotesTarget.mono afterTarget.grows)
      (denotesValue.mono adds.grows)⟩
  · change assignment _ (exprAt fuel .conditional) state = _
    rw [rule _ _ _ _ _ readTarget (kind_of_kinds sign), bind_advance, bind_of_ok readValue]
    rfl
  · simpa [rank] using passesTarget.trans afterTarget

theorem readable_assign (readsTarget : Readable target) (readsValue : Readable value) :
    Readable (.assign target value) := by
  refine readable_assigning .assign .assign rfl rfl rfl (by simp) (by simp) ?_
    (fun _ _ _ _ _ => .assign) readsTarget readsValue
  intro expression operand state next id read found
  rw [assignment, bind_of_ok read, bind_location, bind_kind, found]

theorem readable_compoundAssign (assigns : op.assignToken?.isSome = true)
    (readsTarget : Readable target) (readsValue : Readable value) :
    Readable (.compoundAssign op assigns target value) := by
  refine readable_assigning (op.assignToken?.get assigns) (.compoundAssign op) rfl ?_ rfl
    (by simp) (by simp) ?_ (fun _ _ _ _ _ => .compoundAssign) readsTarget readsValue
  · cases op with
    | eq | ne | lt | le | gt | ge => cases assigns
    | _ => rfl
  · intro expression operand state next id read found
    rw [assignment, bind_of_ok read, bind_location, bind_kind, found]
    cases op with
    | eq | ne | lt | le | gt | ge => cases assigns
    | _ => rfl

theorem readable (tree : ExprTree) : Readable tree := by
  induction tree using inductionOnParts with
  | _ tree ih =>
    cases tree with
    | name word => exact readable_name word
    | int value unsigned => exact readable_int value unsigned
    | binary op left right =>
      exact readable_binary op (ih left (by simp)) (ih right (by simp))
    | logical op left right =>
      exact readable_logical op (ih left (by simp)) (ih right (by simp))
    | ternary cond thenExpr elseExpr =>
      exact readable_ternary (ih cond (by simp)) (ih thenExpr (by simp))
        (ih elseExpr (by simp))
    | assign target value =>
      exact readable_assign (ih target (by simp)) (ih value (by simp))
    | compoundAssign op assigns target value =>
      exact readable_compoundAssign op assigns (ih target (by simp))
        (ih value (by simp))
    | unary op operand => exact readable_unary op (ih operand (by simp))
    | incDec op target => exact readable_incDec op (ih target (by simp))
    | index array pos =>
      exact readable_index (ih array (by simp)) (ih pos (by simp))
    | member object field throughPointer =>
      exact readable_member field throughPointer (ih object (by simp))
    | call callee args => exact readable_call callee ih
    | methodCall receiver method args =>
      exact readable_methodCall method (ih receiver mem_cons_self)
        fun arg among => ih arg (mem_cons_of_mem _ among)

theorem expression_yields (here : state.kinds = tree.written ++ .symbol .semicolon :: follow)
    (plain : state.Plain tree) : Yields expression state tree.written tree := by
  have whole : tree.spell 0 = tree.written := spell_of_le (Nat.zero_le _)
  have length : state.tokens.length = tree.written.length + 1 + follow.length := by
    have kinds := congrArg List.length here
    simp only [ParseState.kinds, length_map, length_append, length_cons] at kinds
    omega
  rw [← whole] at here length ⊢
  obtain ⟨id, next, read, passes, denotes⟩ := (readable tree).reads .assignment trivial state _
      (exprLevels * state.tokens.length + exprLevels) here (stops_of_none rfl _ _) plain
      (by simp only [rank, exprLevels]; omega)
  refine ⟨id, next, ?_, passes, denotes⟩
  rw [expression, expressionAt, bind_of_ok (rfl : remaining state = _), read]

/-- An expression written with no more parentheses than it needs is read back: up to the semicolon
behind it and no further, as a node that stands for the tree and for no other. -/
theorem expression_reads_written (tree : ExprTree) (state : ParseState) (tokens rest : List Token)
    (semicolon : Token) (here : state.tokens = tokens ++ semicolon :: rest)
    (spelled : tokens.map Token.kind = tree.written) (ends : semicolon.kind = .symbol .semicolon)
    (plain : state.Plain tree) :
    ∃ id next, expression state = .ok (id, next) ∧ next.tokens = semicolon :: rest ∧
      ∀ other, Denotes next.nodes id other ↔ other = tree := by
  have kinds : state.kinds = tree.written ++ .symbol .semicolon :: rest.map Token.kind := by
    rw [ParseState.kinds, here, map_append, map_cons, spelled, ends]
  obtain ⟨id, next, read, passes, denotes⟩ := expression_yields kinds plain
  obtain ⟨taken, consumed, kindsTaken⟩ := passes.consumed
  have sameLength : tokens.length = taken.length := by
    rw [← length_map, spelled, ← kindsTaken, length_map]
  refine ⟨id, next, read, ?_, ?_⟩
  · exact (append_inj (here.symm.trans consumed) sameLength).2.symm
  · intro other
    constructor
    · exact fun denotesOther => denotesOther.unique denotes
    · rintro rfl
      exact denotes

/-- The tree of
`x = y[0] <<= a < 1 || !b ? *p++ = 2 : - --q - (r->s.t(u(), (c = d) & e) - (v + 3) * ~w)`. -/
def convoluted : ExprTree :=
  .assign (.name "x") (.compoundAssign .shl rfl (.index (.name "y") (.int 0 false)) (.ternary
      (.logical .or (.binary .lt (.name "a") (.int 1 false)) (.unary .not (.name "b")))
      (.assign (.unary .deref (.incDec .postInc (.name "p"))) (.int 2 false))
      (.binary .sub (.unary .neg (.incDec .preDec (.name "q"))) (.binary .sub
          (.methodCall (.member (.name "r") "s" true) "t"
            [.call "u" [], .binary .bitAnd (.assign (.name "c") (.name "d")) (.name "e")])
          (.binary .mul (.binary .add (.name "v") (.int 3 false)) (.unary .bitNot (.name "w")))))))

def convolutedKinds : List TokenKind :=
  [.name "x", .symbol .assign, .name "y", .symbol .leftBracket, .int 0 false, .symbol .rightBracket,
    .symbol .shiftLeftAssign, .name "a", .symbol .less, .int 1 false, .symbol .orOr, .symbol .bang,
    .name "b", .symbol .question, .symbol .star, .name "p", .symbol .plusPlus, .symbol .assign,
    .int 2 false, .symbol .colon, .symbol .minus, .symbol .minusMinus, .name "q", .symbol .minus,
    .symbol .leftParen, .name "r", .symbol .arrow, .name "s", .symbol .dot, .name "t",
    .symbol .leftParen, .name "u", .symbol .leftParen, .symbol .rightParen, .symbol .comma,
    .symbol .leftParen, .name "c", .symbol .assign, .name "d", .symbol .rightParen, .symbol .amp,
    .name "e", .symbol .rightParen, .symbol .minus, .symbol .leftParen, .name "v", .symbol .plus,
    .int 3 false, .symbol .rightParen, .symbol .star, .symbol .tilde, .name "w",
    .symbol .rightParen]

theorem convoluted_reads_back :
    convoluted.written = convolutedKinds ∧
    ∃ id next,
      expression
        { tokens := convolutedKinds.map (Token.mk · .start) ++
            [⟨.symbol .semicolon, .start⟩, ⟨.endOfFile, .start⟩],
          structNames := ["Point"] } = .ok (id, next) ∧
      next.tokens = [⟨.symbol .semicolon, .start⟩, ⟨.endOfFile, .start⟩] ∧
      ∀ other, Denotes next.nodes id other ↔ other = convoluted := by
  have spelled : convoluted.written = convolutedKinds := rfl
  refine ⟨spelled, expression_reads_written convoluted _ _ _ _ rfl ?_ rfl ?_⟩
  · rw [map_map, spelled]
    exact map_id _
  · unfold ParseState.Plain
    decide

end Breadboard.Parse
