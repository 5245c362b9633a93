import Breadboard.Proofs.Machine.Answer
import Breadboard.Proofs.Sketch.Grown
import Breadboard.Proofs.Sketch.Levels
import Breadboard.Sketch

/-!
A sketch that can be parsed is a forest. Every rule of the grammar builds one tree from the
trees of the rules inside it, and leaves the rest of the arena alone.
-/

open List

namespace Breadboard.Parse

variable {operand : Parse NodeId} {state last next : ParseState} {spec : Specifiers}
  {place : Location} {type base : DataType} {token : TokenKind} {word : String} {decl : NodeId}
  {res : Program} {fuel : Nat} {wanted : TokenKind} (className : String)

def BuildsTree (rule : Parse NodeId) (n : Nat) : Prop :=
  rule.Builds none n 1 [] fun id => [id]

variable {α β : Type} {given : List NodeId} {n m k : Nat} {seen : Option TokenKind}
  {final : β → List NodeId}

/-! Tokens. -/

theorem moves_advance (state : ParseState) :
    state.Moves state.advance ∧ state.advance.nodes = state.nodes := by
  unfold ParseState.advance
  split
  · exact ⟨.refl _, rfl⟩
  · rename_i token rest found
    split
    · exact ⟨.refl _, rfl⟩
    · exact ⟨⟨found ▸ suffix_cons token rest, suffix_rfl, prefix_rfl⟩, rfl⟩

theorem within_advance (within : state.Within seen n) : state.advance.Within none n ∧
    (state.kind ≠ .endOfFile → state.advance.Within none (n - 1)) := by
  obtain ⟨tokens, _, _, _⟩ := state
  obtain ⟨-, few, front, place, rfl⟩ := within
  cases front with
  | nil => exact ⟨⟨nofun, few, [], place, rfl⟩, fun other => absurd rfl other⟩
  | cons first front =>
    rw [ParseState.advance]
    dsimp only [cons_append]
    split
    · rename_i last
      exact ⟨⟨nofun, few, first :: front, place, rfl⟩, fun other => absurd last other⟩
    · have behind := Nat.le_sub_one_of_lt few
      exact ⟨⟨nofun, behind.trans (Nat.sub_le _ _), front, place, rfl⟩,
        fun _ => ⟨nofun, behind, front, place, rfl⟩⟩

theorem Builds.advanced {next : Parse β} (second : next.Builds none (n - 1) (k - 1) given final)
    (le : m ≤ n) (within : state.Within seen m) (other : state.kind ≠ .endOfFile) :
    Lands (m - k) (next state.advance) :=
  (second.lands _ _ (Nat.sub_le_sub_right le 1) ((within_advance within).2 other)).mono (by omega)

theorem leads_reading {read : ParseState → α} {next : α → Parse β}
    (second : ∀ value, (next value).Leads seen n k) :
    ((fun state => .ok (read state, state) : Parse α) >>= next).Leads seen n k :=
  ⟨fun state => (second (read state)).lands state⟩

theorem reading_bind {read : ParseState → α} {next : α → Parse β}
    (second : ∀ value, (next value).Builds seen n k given final) :
    ((fun state => .ok (read state, state) : Parse α) >>= next).Builds seen n k given final :=
  ⟨leads_reading fun value => (second value).toLeads, fun state => (second (read state)).grows state⟩

theorem kind_bind {next : TokenKind → Parse β}
    (second : ∀ current, (next current).Builds (some current) n k given final) :
    (kind >>= next).Builds seen n k given final where
  grows state := (second state.kind).grows state
  lands state few le within := (second state.kind).lands state few le
    ⟨by rintro _ ⟨⟩; rfl, within.few, within.ends⟩

/-- What is left is a bound for what follows. -/
theorem leads_remaining {next : Nat → Parse β} (second : ∀ left, (next left).Leads seen left k) :
    (remaining >>= next).Leads seen n k where
  lands state _ _ within := ((second state.tokens.length).lands state _ le_rfl
    ⟨within.current, le_rfl, within.ends⟩).mono (Nat.sub_le_sub_right within.few _)

theorem remaining_bind {next : Nat → Parse β}
    (second : ∀ left, (next left).Builds seen left k given final) :
    (remaining >>= next).Builds seen n k given final :=
  ⟨leads_remaining fun left => (second left).toLeads,
    fun state => (second state.tokens.length).grows state⟩

theorem quiet_modify (same : ∀ state, state.Moves (change state) ∧
      (change state).nodes = state.nodes ∧ (change state).tokens = state.tokens) :
    (modify change : Parse Unit).Quiet n 0 := by
  refine quiet_of_nodes_eq (fun state res next done => ?_) fun state few within => ?_
  · cases done
    exact ⟨(same state).1, (same state).2.1⟩
  · refine ⟨nofun, ?_, ?_⟩ <;> rw [(same state).2.2]
    · exact within.few
    · exact within.ends

theorem takeWhile_lands (stops : property .endOfFile = false)
    (within : state.Within seen n) : Lands n (takeWhile property state) := by
  obtain ⟨tokens, _, _, _⟩ := state
  obtain ⟨-, few, front, place, rfl⟩ := within
  refine ⟨nofun, (dropWhile_suffix _).length_le.trans few,
    front.dropWhile fun token => property token.kind, place, ?_⟩
  dsimp only
  rw [dropWhile_append]
  split <;> simp_all

theorem quiet_takeWhile (stops : property .endOfFile = false) : (takeWhile property).Quiet n 0 := by
  refine quiet_of_nodes_eq (fun state res next done => ?_) fun _ _ => takeWhile_lands stops
  cases done
  exact ⟨⟨dropWhile_suffix _, suffix_rfl, prefix_rfl⟩, rfl⟩

theorem quiet_advance : advance.Quiet n 0 :=
  quiet_of_nodes_eq (fun state _ _ done => by cases done; exact moves_advance state)
    fun _ _ within => (within_advance within).1

theorem advance_bind {next : Parse β} (other : token ≠ .endOfFile)
    (second : next.Builds none (n - 1) (k - 1) given final) :
    (do advance; next).Builds (some token) n k given final where
  grows state res last run := by
    obtain ⟨moves, same⟩ := moves_advance state
    exact (Growth.of_nodes_eq moves same).trans (second.grows _ _ _ run)
  lands state few le within := second.advanced le within (within.current token rfl ▸ other)

theorem quiet_accept : (accept wanted).Quiet n 0 := by
  refine quiet_of_nodes_eq (fun state res next done => ?_) fun state few within => ?_
  · unfold accept at done
    split at done <;> cases done
    · exact moves_advance state
    · exact ⟨.refl _, rfl⟩
  · unfold accept
    split
    · exact (within_advance within).1
    · exact within

theorem accept_ite {yes no : Parse β} (other : wanted ≠ .endOfFile)
    (found : yes.Builds none (n - 1) (k - 1) given final) (missed : no.Builds seen n k given final) :
    (do if ← accept wanted then yes else no).Builds seen n k given final := by
  have run (state : ParseState) : (do if ← accept wanted then yes else no) state =
      if state.kind = wanted then yes state.advance else no state := by
    simp only [bind, StateT.bind, accept]
    split <;> rfl
  refine ⟨⟨fun state few le within => ?_⟩, fun state res next done => ?_⟩
  · rw [run]
    split
    · rename_i here
      exact found.advanced le within (here ▸ other)
    · exact missed.lands _ _ le within
  · rw [run] at done
    split at done
    · obtain ⟨moves, same⟩ := moves_advance state
      exact (Growth.of_nodes_eq moves same).trans (found.grows _ _ _ done)
    · exact missed.grows _ _ _ done

theorem quiet_expect (wanted : TokenKind) (other : wanted ≠ .endOfFile) (what : String) :
    (expect wanted what).Quiet n 1 :=
  accept_ite other (builds_pure rfl) builds_missing

theorem quiet_require (wanted : Symbol) (ctx : String) : (require wanted ctx).Quiet n 1 :=
  quiet_expect (.symbol wanted) nofun _

theorem require_bind {next : Parse β} (second : next.Builds none (n - 1) (k - 1) given final) :
    (require mark ctx >>= fun _ => next).Builds seen n k given final :=
  quiet_bind (quiet_require mark ctx) fun _ => second

theorem quiet_name : name.Quiet n 1 := by
  refine kind_bind fun current => ?_
  split
  · exact advance_bind nofun (builds_pure rfl)
  · exact builds_missing

/-! Lists of items, and types. -/

theorem builds_moreItems (builds : item.Builds none n k [] yields) (enough : n ≤ fuel) :
    (moreItems item fuel).Builds none n 0 [] fun items => items.flatMap yields := by
  induction fuel generalizing n with
  | zero => exact builds_exhausted enough
  | succ fuel ih =>
    refine accept_ite nofun ?_ (builds_pure rfl)
    refine builds_bind (builds.weaken (by omega)).fewer fun first => ?_
    exact builds_bind (ih (builds.weaken (by omega)) (by omega)) fun rest => builds_pure rfl

theorem builds_commaSeparated (builds : item.Builds none n k [] yields) (enough : n ≤ fuel) :
    (commaSeparated item fuel).Builds none n 0 [] fun items => items.flatMap yields :=
  builds_bind builds.fewer fun _ => builds_bind (builds_moreItems builds enough) fun _ =>
    builds_pure rfl

theorem builds_itemsUntil (stop : TokenKind → Bool)
    (builds : item.Builds none n 1 [] yields) (enough : n ≤ fuel) :
    (itemsUntil stop item fuel).Builds none n 0 []
      fun items => items.flatMap yields := by
  induction fuel generalizing n with
  | zero => exact builds_exhausted enough
  | succ fuel ih =>
    refine kind_bind fun current => ?_
    split
    · exact builds_pure rfl
    · refine builds_bind builds fun first => ?_
      exact builds_bind (ih (builds.weaken (by omega)) (by omega)) fun rest => builds_pure rfl

theorem flatMap_singletons (ids : List NodeId) : ids.flatMap (fun id => [id]) = ids := by
  simp

theorem quiet_integerWidth : integerWidth.Quiet n 0 := by
  refine accept_ite nofun (builds_pure rfl) ?_
  refine accept_ite nofun (quiet_bind quiet_accept fun _ => builds_pure rfl) ?_
  refine accept_ite nofun ?_ (accept_ite nofun (builds_pure rfl) (builds_pure rfl))
  exact quiet_bind quiet_accept fun _ => quiet_bind quiet_accept fun _ => builds_pure rfl

theorem quiet_baseType : baseType.Quiet n 0 := by
  have width {base : Option BaseType → BaseType} :
      (do pure (base (← integerWidth)) : Parse BaseType).Quiet n 0 :=
    quiet_bind quiet_integerWidth fun _ => builds_pure rfl
  have word {base : BaseType} : (do advance; pure base : Parse BaseType).Quiet n 0 :=
    quiet_bind quiet_advance fun _ => builds_pure rfl
  refine reading_bind fun current => ?_
  split
  · exact quiet_bind quiet_advance fun _ => width
  · exact quiet_bind quiet_advance fun _ => width
  · exact width
  · exact width
  · exact width
  · exact width
  · exact word
  · exact word
  · exact word
  · exact word
  · exact quiet_bind quiet_advance fun _ => quiet_bind quiet_name fun _ => builds_pure rfl
  · split
    · exact word
    · refine reading_bind fun state => ?_
      split
      · exact word
      · exact builds_fail nofun
  · exact builds_missing

theorem quiet_specifiers : specifiers.Quiet n 0 :=
  quiet_bind (quiet_takeWhile rfl) fun _ => quiet_bind quiet_baseType fun _ =>
    quiet_bind quiet_accept fun _ => builds_pure rfl

theorem quiet_pointers (type : DataType) : (pointers type).Quiet n 0 :=
  quiet_bind (quiet_takeWhile rfl) fun _ => builds_pure rfl

theorem specifiers_dims : specifiers.Ensures fun spec => spec.type.dims = [] := by
  intro state spec next read
  obtain ⟨_, _, _, read⟩ := bind_ok read
  obtain ⟨_, _, _, read⟩ := bind_ok read
  obtain ⟨_, _, _, read⟩ := bind_ok read
  cases read
  rfl

theorem pointers_dims (plain : type.dims = []) :
    (pointers type).Ensures fun starred => starred.dims = [] := by
  intro state starred next read
  obtain ⟨stars, _, -, read⟩ := bind_ok read
  cases read
  clear read
  induction stars generalizing type with
  | nil => exact plain
  | cons star stars ih => exact ih plain

theorem quiet_plainType :
    plainType.Quiet n 0 := quiet_bind quiet_specifiers fun _ => quiet_pointers _

theorem quiet_sizeofDims (type : DataType) (enough : n ≤ fuel) :
    (sizeofDims fuel type).Quiet n 0 := by
  induction fuel generalizing type n with
  | zero => exact builds_exhausted enough
  | succ fuel ih =>
    refine accept_ite nofun ?_ (builds_pure rfl)
    refine kind_bind fun current => ?_
    split
    · split
      · exact builds_fail nofun
      · exact advance_bind nofun <| require_bind <| ih _ (by omega)
    · exact builds_fail nofun

/-! Expressions, given the rules of the other levels. -/

theorem builds_arguments {expression : Parse NodeId} (builds : expression.BuildsTree n)
    (enough : n ≤ fuel) : (arguments expression fuel).Builds none n 0 [] id := by
  refine reading_bind fun found => ?_
  split
  · exact builds_pure rfl
  · have items := builds_commaSeparated builds enough
    simp only [flatMap_singletons] at items
    exact items

def Joins (build : NodeId → NodeId → NodeKind) : Prop :=
  ∀ left right,
    (build left right).children = [left, right] ∧ (build left right).declares = false

theorem builds_leftAssociative (joins : ∀ token build, operator? token = some build → Joins build)
    (builds : operand.BuildsTree n) (enough : n ≤ fuel) (left : NodeId) :
    (leftAssociative operator? operand fuel left).Builds none n 0 [left]
      fun id => [id] := by
  induction fuel generalizing left n with
  | zero => exact builds_exhausted enough
  | succ fuel ih =>
    refine kind_bind fun current => ?_
    split
    · exact builds_pure rfl
    · rename_i build found
      refine reading_bind fun place => quiet_bind quiet_advance fun _ => ?_
      refine builds_bind builds fun right => ?_
      obtain ⟨children, plain⟩ := joins current build found left right
      exact (builds_node children plain).bind (ih (builds.weaken (by omega)) (by omega))

theorem builds_sizeof (builds : operand.BuildsTree n) (enough : n ≤ fuel) :
    (sizeof operand fuel place).Builds none n 0 [] fun id => [id] := by
  refine reading_bind fun opens => reading_bind fun isType => ?_
  split
  · exact quiet_bind quiet_advance fun _ => quiet_bind quiet_plainType fun type =>
      quiet_bind (quiet_sizeofDims _ (by omega)) fun full => require_bind <|
        builds_node rfl rfl
  · exact builds_bind builds fun expr => builds_node rfl rfl

theorem children_callNode (name : String) (args : List NodeId) :
    (callNode name args).children = args ∧ (callNode name args).declares = false := by
  unfold callNode
  split
  · split <;> exact ⟨rfl, rfl⟩
  · exact ⟨rfl, rfl⟩

theorem builds_literal {kind : NodeKind} (other : token ≠ .endOfFile) (leaf : kind.children = [])
    (plain : kind.declares = false) :
    (literal kind place).Builds (some token) n 1 [] fun id => [id] :=
  advance_bind other (builds_node leaf plain)

theorem builds_takeText : (takeWhile isText).Builds (some (.text str)) n 1 [] fun _ => [] where
  grows := (quiet_takeWhile (n := 0) rfl).grows
  lands state m _ within := by
    obtain ⟨tokens, nodes, names, values⟩ := state
    obtain ⟨here, few, front, place, rfl⟩ := within
    cases front with
    | nil => cases here _ rfl
    | cons first front =>
      have text : isText first.kind = true := congrArg isText (here _ rfl)
      have behind : ParseState.Within ⟨front ++ [⟨.endOfFile, place⟩], nodes, names, values⟩ none
          (m - 1) := ⟨nofun, Nat.le_sub_one_of_lt few, front, place, rfl⟩
      have landed : Lands (m - 1) (takeWhile isText _) := takeWhile_lands rfl behind
      simpa [takeWhile, Lands, text] using landed

section Inner

variable {inner other : Parse NodeId} (builds : inner.BuildsTree (n - 1))
include builds

section Operand

variable (buildsOperand : operand.BuildsTree n)
include buildsOperand

theorem builds_assignment : (assignment inner operand).BuildsTree n := by
  refine builds_bind buildsOperand fun target => reading_bind fun place => ?_
  refine kind_bind fun current => ?_
  split
  · exact quiet_bind quiet_advance fun _ => builds_bind builds fun value => builds_node rfl rfl
  · split
    · exact quiet_bind quiet_advance fun _ => builds_bind builds fun value => builds_node rfl rfl
    · exact builds_pure rfl
  · exact builds_pure rfl

theorem builds_conditional (buildsElse : other.BuildsTree (n - 1)) :
    (conditional inner other operand).BuildsTree n := by
  refine builds_bind buildsOperand fun cond => reading_bind fun place => ?_
  refine accept_ite nofun ?_ (builds_pure rfl)
  exact builds_bind (builds.weaken (by omega)) fun thenExpr => require_bind <|
    builds_bind (buildsElse.weaken (by omega)) fun elseExpr => builds_node rfl rfl

theorem builds_cast : (cast inner operand).BuildsTree n := by
  refine reading_bind fun opens => reading_bind fun isType => ?_
  split
  · exact reading_bind fun place => quiet_bind quiet_advance fun _ =>
      quiet_bind quiet_plainType fun type => require_bind <|
        builds_bind (builds.weaken (by omega)) fun expr => builds_node rfl rfl
  · exact buildsOperand

theorem builds_unary (buildsCast : other.BuildsTree (n - 1)) (enough : n - 1 ≤ fuel) :
    (unary other inner operand fuel).BuildsTree n := by
  refine reading_bind fun place => kind_bind fun current => ?_
  split
  · exact advance_bind nofun <| builds_bind builds fun target => builds_node rfl rfl
  · exact advance_bind nofun <| builds_bind builds fun target => builds_node rfl rfl
  · exact advance_bind nofun (builds_sizeof builds enough)
  · split
    · exact advance_bind nofun <| builds_bind buildsCast fun expr => builds_node rfl rfl
    · exact buildsOperand.weaken le_rfl
  · exact buildsOperand.weaken le_rfl

end Operand

theorem builds_selection (enough : n - 1 ≤ fuel) (throughPointer : Bool) (expr : NodeId) :
    (selection inner fuel throughPointer expr place).Builds none n 1 [expr] fun id => [id] := by
  refine quiet_bind quiet_advance fun _ => quiet_bind quiet_name fun field => ?_
  refine reading_bind fun opens => ?_
  split
  · exact quiet_bind quiet_advance fun _ => builds_bind (builds_arguments builds enough) fun args =>
      require_bind <| builds_node rfl rfl
  · exact builds_node rfl rfl

/-- What follows is read behind a longer expression, or where none of the steps stands. -/
theorem suffix?_bind (enough : n - 1 ≤ fuel) {next : Option NodeId → Parse NodeId}
    (selected : ∀ id, (next (some id)).Builds none (n - 1) 0 [id] fun id => [id])
    (ends : (next none).Builds none n 0 [expr] fun id => [id]) :
    (suffix? inner fuel expr >>= next).Builds none n 0 [expr] fun id => [id] := by
  have longer {kind : NodeKind} {place : Location} {given : List NodeId} {m : Nat} (less : m ≤ n - 1)
      (leaves : kind.children = given) (plain : kind.declares = false) :
      (node kind place >>= fun id => next (some id)).Builds none m 0 given fun id => [id] :=
    (builds_node leaves plain).bind fun id => (selected id).weaken less
  unfold suffix?
  simp only [bind_assoc]
  refine reading_bind fun place => kind_bind fun current => ?_
  split <;> simp only [bind_assoc, bind_map_left, pure_bind]
  · exact advance_bind nofun (longer le_rfl rfl rfl)
  · exact advance_bind nofun (longer le_rfl rfl rfl)
  · exact advance_bind nofun <| builds_bind builds fun pos =>
      require_bind <| longer (by omega) rfl rfl
  · exact ((builds_selection builds enough _ expr).bind selected).weaken le_rfl
  · exact ((builds_selection builds enough _ expr).bind selected).weaken le_rfl
  · refine reading_bind fun state => ?_
    split
    · simp only [bind_assoc, bind_map_left]
      refine advance_bind nofun <| Builds.dropAll <| builds_bind (builds_arguments builds enough)
        fun args => require_bind ?_
      obtain ⟨children, plain⟩ := children_callNode _ args
      exact longer (by omega) children plain
    · exact builds_fail nofun
  · exact ends.weaken le_rfl

theorem builds_suffixes (bounded : n - 1 ≤ bound) (enough : n ≤ fuel) (expr : NodeId) :
    (suffixes inner bound fuel expr).Builds none n 0 [expr] fun id => [id] := by
  induction fuel generalizing expr n with
  | zero => exact builds_exhausted enough
  | succ fuel ih =>
    exact suffix?_bind builds bounded (ih (builds.weaken (by omega)) (by omega) (by omega))
      (builds_pure rfl)

theorem builds_primary : (primary inner).BuildsTree n := by
  refine reading_bind fun place => kind_bind fun current => ?_
  cases current with
  | int | float | char | name => exact builds_literal nofun rfl rfl
  | text => exact builds_takeText.bind fun _ => builds_node rfl rfl
  | keyword keyword =>
    cases keyword with
    | trueKw | falseKw | nullKw => exact builds_literal nofun rfl rfl
    | _ =>
      dsimp only
      split
      · exact quiet_bind quiet_plainType fun type => require_bind <|
          builds_bind (builds.weaken (by omega)) fun expr => require_bind <|
            builds_node rfl rfl
      · exact builds_unexpected
  | symbol symbol =>
    cases symbol with
    | leftParen =>
      exact advance_bind nofun <| builds_bind builds fun expr =>
        require_bind <| builds_pure rfl
    | _ => exact builds_unexpected
  | _ => exact builds_unexpected

end Inner

theorem joins_of_logicalOperator? (found : logicalOperator? op token = some build) :
    Joins build := by
  unfold logicalOperator? at found
  split at found <;> cases found
  exact fun _ _ => ⟨rfl, rfl⟩

theorem joins_of_binaryOperator? (found : binaryOperator? level token = some build) :
    Joins build := by
  unfold binaryOperator? at found
  split at found
  · split at found
    · split at found <;> cases found
      exact fun _ _ => ⟨rfl, rfl⟩
    · cases found
  · cases found

/-- Every cycle of levels takes a token, so the bound is enough for the tokens and the tighter
levels. -/
theorem builds_exprAt (proper : level.Proper) (enough : 16 * n ≤ fuel + level.rank) :
    (exprAt fuel level).BuildsTree n := by
  have tightest := proper.rank_le
  induction fuel generalizing level n with
  | zero => exact builds_exhausted (by omega)
  | succ fuel ih =>
    have inner {level : ExprLevel} (proper : level.Proper) :
        (exprAt fuel level).BuildsTree (n - 1) := ih proper (by omega) proper.rank_le
    have operand (looser : level ≠ .primary) : (exprAt fuel level.operand).BuildsTree n :=
      have next := proper.rank_operand looser
      ih proper.operand (by omega) proper.operand.rank_le
    cases level with
    | assignment => exact builds_assignment (inner trivial) (operand nofun)
    | conditional => exact builds_conditional (inner trivial) (operand nofun) (inner trivial)
    | logical op =>
      exact (operand nofun).bind (builds_leftAssociative (fun _ _ => joins_of_logicalOperator?)
        ((operand nofun).weaken (by omega)) (by omega))
    | binary level =>
      exact (operand nofun).bind (builds_leftAssociative (fun _ _ => joins_of_binaryOperator?)
        ((operand nofun).weaken (by omega)) (by omega))
    | cast => exact builds_cast (inner trivial) (operand nofun)
    | unary => exact builds_unary (inner trivial) (operand nofun) (inner trivial) (by omega)
    | suffixed =>
      have expression : (exprAt fuel .assignment).BuildsTree (n - 1) := inner trivial
      exact (operand nofun).bind (builds_suffixes (expression.weaken (by omega)) (by omega)
        (by omega))
    | primary => exact builds_primary (inner trivial)

theorem builds_expressionAt (proper : level.Proper) : (expressionAt level).BuildsTree n :=
  remaining_bind fun left => builds_exprAt proper (by rw [exprLevels]; omega)

theorem builds_expression : expression.BuildsTree n := builds_expressionAt trivial

/-! Declarations. -/

theorem quiet_arrays (type : DataType) (enough : n ≤ fuel) : (arrays fuel type).Quiet n 0 := by
  induction fuel generalizing type n with
  | zero => exact builds_exhausted enough
  | succ fuel ih =>
    refine accept_ite nofun ?_ (builds_pure rfl)
    refine accept_ite nofun (ih _ (by omega)) ?_
    -- The nodes of a size stay in the arena, but the type needs only its value.
    refine builds_bind builds_expression fun size => Builds.dropAll ?_
    refine reading_bind fun value => ?_
    split
    · split
      · exact builds_fail nofun
      · exact require_bind <| ih _ (by omega)
    · exact builds_fail nofun

theorem quiet_arraySuffix (type : DataType) : (arraySuffix type).Quiet n 0 :=
  remaining_bind fun left => quiet_arrays type (Nat.le_succ left)

theorem builds_initializers {initializer : Parse NodeId} (builds : initializer.BuildsTree n)
    (enough : n ≤ fuel) : (initializers initializer fuel).Builds none n 0 [] id := by
  induction fuel generalizing n with
  | zero => exact builds_exhausted enough
  | succ fuel ih =>
    refine reading_bind fun found => ?_
    split
    · exact builds_pure rfl
    refine builds_bind builds fun first => accept_ite nofun ?_ (builds_pure rfl)
    exact builds_bind (ih (builds.weaken (by omega)) (by omega)) fun rest => builds_pure rfl

theorem builds_initializerAt (enough : n ≤ fuel) : (initializerAt fuel).BuildsTree n := by
  induction fuel generalizing n with
  | zero => exact builds_exhausted enough
  | succ fuel ih =>
    refine reading_bind fun place => accept_ite nofun ?_ builds_expression
    exact builds_bind (builds_initializers (ih (by omega)) (by omega)) fun items =>
      require_bind <| builds_node rfl rfl

theorem builds_initializer : initializer.BuildsTree n :=
  remaining_bind fun left => builds_initializerAt (Nat.le_succ left)

theorem quiet_recordConstant (name : String) (type : DataType) (init : NodeId) :
    (recordConstant name type init).Quiet n 0 := by
  unfold recordConstant
  split
  · refine reading_bind fun value => ?_
    split
    · exact quiet_modify fun state => ⟨⟨suffix_rfl, suffix_cons _ _, prefix_rfl⟩, rfl, rfl⟩
    · exact builds_pure rfl
  · exact builds_pure rfl

/-- A variable has the type that the brackets behind its name make of the type before it. -/
theorem variableAfterName_ok
    (run : variableAfterName spec base word place state = .ok (decl, next)) :
    ∃ type init sized between, arraySuffix base state = .ok (type, sized) ∧
      Growth sized between [] init.toList ∧
      node (.varDecl word type init spec.isStatic spec.isVolatile) place between =
        .ok (decl, next) := by
  obtain ⟨type, sized, suffix, run⟩ := bind_ok run
  obtain ⟨initialized, assigned, found, run⟩ := bind_ok run
  have assigns := quiet_accept.grown found
  split at run
  · obtain ⟨init, initial, value, run⟩ := bind_ok run
    obtain ⟨_, recorded, constant, run⟩ := bind_ok run
    have records := ((quiet_recordConstant _ _ _).grown constant).frame [init]
    exact ⟨type, some init, sized, recorded, suffix,
      (assigns.trans (builds_initializer.grown value)).trans records, run⟩
  · exact ⟨type, none, sized, assigned, suffix, assigns, run⟩

theorem builds_variableAfterName (plain : base.dims = []) :
    (variableAfterName spec base word place).Builds none n 0 [] fun id => [id] where
  grows state decl next run := by
    obtain ⟨type, init, sized, between, suffix, growth, built⟩ := variableAfterName_ok run
    exact (((quiet_arraySuffix base).grown suffix).trans growth).push built
      fun _ => ⟨_, .ofVariable plain, run⟩
  toLeads := by
    refine (quiet_arraySuffix base).toLeads.bind fun type => quiet_accept.toLeads.bind fun found => ?_
    split
    · exact builds_initializer.fewer.toLeads.bind fun init =>
        (quiet_recordConstant _ _ _).toLeads.bind fun _ => leads_node
    · exact leads_node

theorem builds_nextVariable (plain : spec.type.dims = []) : (nextVariable spec).BuildsTree n :=
  quiet_bind_of (quiet_pointers _) (pointers_dims plain) fun _ plain =>
    reading_bind fun _ => quiet_bind quiet_name fun _ => builds_variableAfterName plain

theorem builds_group (decls : List NodeId) :
    (group decls place).Builds none n 0 decls fun id => [id] := by
  unfold group
  split
  · exact builds_pure rfl
  · exact builds_node rfl rfl

theorem builds_variableDeclarations (first : String) (plain : spec.type.dims = [])
    (plainFirst : type.dims = []) : (variableDeclarations spec type first place).BuildsTree n := by
  refine builds_bind (builds_variableAfterName plainFirst) fun decl => remaining_bind fun left => ?_
  refine builds_bind (builds_moreItems (builds_nextVariable plain) le_rfl) fun others => ?_
  rw [flatMap_singletons]
  exact require_bind <| builds_group (decl :: others)

theorem builds_constructorArguments : (constructorArguments className).Builds none n 0 [] id := by
  have inParens {n : Nat} {ctx : String} : (do
      let args ← arguments expression (← remaining)
      require .rightParen ctx
      pure args : Parse (List NodeId)).Builds none n 0 [] id :=
    remaining_bind fun left => builds_bind (builds_arguments builds_expression le_rfl) fun args =>
      require_bind <| builds_pure rfl
  refine accept_ite nofun inParens (accept_ite nofun ?_ (builds_pure rfl))
  refine quiet_bind quiet_name fun found => ?_
  split
  · exact require_bind inParens
  · exact builds_fail nofun

theorem builds_object : (object className).BuildsTree n :=
  reading_bind fun _ => quiet_bind quiet_name fun _ =>
    builds_bind (builds_constructorArguments className) fun _ => builds_node rfl rfl

theorem builds_objects : objects.BuildsTree n := by
  refine reading_bind fun place => quiet_bind quiet_name fun className => ?_
  refine remaining_bind fun left => ?_
  refine builds_bind (builds_commaSeparated (builds_object className) le_rfl) fun decls => ?_
  rw [flatMap_singletons]
  exact require_bind <| builds_group decls

theorem builds_localDeclaration : localDeclaration.BuildsTree n := by
  refine reading_bind fun isObject => ?_
  split
  · exact builds_objects
  · refine reading_bind fun place => ?_
    refine quiet_bind_of quiet_specifiers specifiers_dims fun spec plain => ?_
    refine quiet_bind_of (quiet_pointers _) (pointers_dims plain) fun type plainFirst => ?_
    exact quiet_bind quiet_name fun first =>
      (builds_variableDeclarations first plain plainFirst).fewer

/-! Structures and parameters, which yield no nodes. -/

theorem flatMap_nothing (items : List α) : items.flatMap (fun _ => ([] : List NodeId)) = [] := by
  simp

theorem quiet_commaSeparated (quiet : item.Quiet n k) (enough : n ≤ fuel) :
    (commaSeparated item fuel).Quiet n 0 := by
  have items := builds_commaSeparated quiet enough
  simp only [flatMap_nothing] at items
  exact items

theorem quiet_structField (spec : Specifiers) : (structField spec).Quiet n 1 :=
  quiet_bind (quiet_pointers _) fun type => quiet_bind quiet_name fun _ =>
    quiet_bind (quiet_arraySuffix type) fun _ => builds_pure rfl

theorem quiet_structFields : structFields.Quiet n 1 :=
  quiet_bind quiet_specifiers fun spec => remaining_bind fun _ =>
    quiet_bind (quiet_commaSeparated (quiet_structField spec) le_rfl) fun _ =>
      require_bind <| builds_pure rfl

theorem quiet_structLines (enough : n ≤ fuel) :
    (itemsUntil isRightBrace structFields fuel).Quiet n 0 := by
  have items := builds_itemsUntil isRightBrace quiet_structFields enough
  simp only [flatMap_nothing] at items
  exact items

theorem quiet_structName (word : String) : (modify fun state =>
      { state with structNames := word :: state.structNames } : Parse Unit).Quiet n 0 :=
  quiet_modify fun _ => ⟨⟨suffix_rfl, suffix_rfl, prefix_rfl⟩, rfl, rfl⟩

theorem structDefinition_ok (run : structDefinition state = .ok (decl, next)) :
    ∃ word lines place fuel opened listed between, Growth state opened [] [] ∧
      itemsUntil isRightBrace structFields fuel opened = .ok (lines, listed) ∧
      Growth listed between [] [] ∧
      node (.structDef word lines.flatten) place between = .ok (decl, next) := by
  obtain ⟨place, _, found, run⟩ := bind_ok run
  cases found
  obtain ⟨_, advanced, moved, run⟩ := bind_ok run
  obtain ⟨word, named, read, run⟩ := bind_ok run
  obtain ⟨_, known, changed, run⟩ := bind_ok run
  obtain ⟨_, opened, opens, run⟩ := bind_ok run
  obtain ⟨fuel, _, counted, run⟩ := bind_ok run
  cases counted
  obtain ⟨lines, listed, members, run⟩ := bind_ok run
  obtain ⟨_, closed, closes, run⟩ := bind_ok run
  obtain ⟨_, ended, ends, run⟩ := bind_ok run
  have names := (quiet_advance.grown moved).trans (quiet_name.grown read)
  have knows := names.trans ((quiet_structName word).grown changed)
  exact ⟨word, lines, _, _, opened, listed, ended,
    knows.trans ((quiet_require _ _).grown opens), members,
    ((quiet_require _ _).grown closes).trans ((quiet_require _ _).grown ends), run⟩

theorem builds_structDefinition : structDefinition.BuildsTree n where
  grows state decl next run := by
    obtain ⟨word, lines, place, fuel, opened, listed, between, opens, members, closes, built⟩ :=
      structDefinition_ok run
    exact ((opens.trans ((quiet_structLines (Nat.zero_le _)).grown members)).trans closes).push
      built fun _ => ⟨_, .ofStructure, run⟩
  toLeads := by
    refine leads_reading fun place => quiet_advance.toLeads.bind fun _ => ?_
    refine quiet_name.toLeads.bind fun word => (quiet_structName word).toLeads.bind fun _ => ?_
    refine (quiet_require _ _).toLeads.bind fun _ => leads_remaining fun left => ?_
    exact (quiet_structLines le_rfl).toLeads.bind fun fields => (quiet_require _ _).toLeads.bind fun _ =>
      (quiet_require _ _).toLeads.bind fun _ => leads_node

theorem quiet_parameter : parameter.Quiet n 0 := by
  refine quiet_bind quiet_specifiers fun spec => quiet_bind (quiet_pointers _) fun type => ?_
  refine reading_bind fun isReference => ?_
  split
  · exact builds_fail nofun
  · refine kind_bind fun current => ?_
    split
    · exact quiet_bind quiet_name fun word => quiet_bind (quiet_arraySuffix type) fun _ =>
        builds_pure rfl
    · exact quiet_bind (builds_pure rfl) fun word => quiet_bind (quiet_arraySuffix type) fun _ =>
        builds_pure rfl

theorem quiet_parameters : parameters.Quiet n 0 := by
  refine reading_bind fun none => ?_
  split
  · exact builds_pure rfl
  · refine reading_bind fun isVoid => reading_bind fun state => ?_
    split
    · exact quiet_bind quiet_advance fun _ => builds_pure rfl
    · exact remaining_bind fun left => quiet_commaSeparated quiet_parameter le_rfl

/-! Statements, given the rule for the statements inside them. -/

theorem builds_expressionStatement : expressionStatement.BuildsTree n :=
  reading_bind fun _ => builds_bind builds_expression fun _ =>
    require_bind <| builds_node rfl rfl

theorem builds_expressionUnless (stop : Symbol) :
    (expressionUnless stop).Builds none n 0 [] Option.toList := by
  refine reading_bind fun found => ?_
  split
  · exact builds_pure rfl
  · exact builds_map builds_expression.fewer

theorem builds_forInit : forInit.Builds none n 1 [] Option.toList := by
  refine accept_ite nofun (builds_pure rfl) (reading_bind fun declares => ?_)
  split
  · exact builds_map builds_localDeclaration
  · exact builds_map builds_expressionStatement

def armNodes (arms : List SwitchCase) : List NodeId :=
  arms.reverse.flatMap fun arm => arm.label.toList ++ arm.body

theorem armNodes_cons (arm : SwitchCase) (arms : List SwitchCase) :
    armNodes (arm :: arms) = armNodes arms ++ (arm.label.toList ++ arm.body) := by
  simp [armNodes]

theorem armNodes_extendArm (extended : extendArm arms statement = some longer) :
    armNodes longer = armNodes arms ++ [statement] := by
  unfold extendArm at extended
  split at extended <;> cases extended
  simp [armNodes_cons]

theorem builds_returnStatement : (returnStatement place).BuildsTree n :=
  builds_bind (builds_expressionUnless _) fun _ => require_bind <|
    builds_node rfl rfl

theorem builds_jumpStatement {kind : NodeKind} (leaf : kind.children = [])
    (plain : kind.declares = false) (word : String) :
    (jumpStatement kind word place).BuildsTree n :=
  require_bind <| builds_node leaf plain

section Statements

variable {statement : Parse NodeId} (builds : statement.BuildsTree n) (enough : n ≤ fuel)

include builds

theorem builds_ifStatement : (ifStatement statement place).BuildsTree n := by
  refine require_bind <| builds_bind builds_expression fun cond => ?_
  refine require_bind ?_
  refine builds_bind (builds.weaken (by omega)) fun thenBranch => ?_
  refine accept_ite nofun ?_ (builds_node rfl rfl)
  exact builds_bind (builds.weaken (by omega)) fun elseBranch => builds_node rfl rfl

theorem builds_whileStatement : (whileStatement statement place).BuildsTree n :=
  require_bind <| builds_bind builds_expression fun _ =>
    require_bind <| builds_bind (builds.weaken (by omega)) fun _ =>
      builds_node rfl rfl

theorem builds_doStatement : (doStatement statement place).BuildsTree n :=
  builds_bind builds fun _ => quiet_bind (quiet_expect (.keyword .whileKw) nofun _) fun _ =>
    require_bind <| builds_bind builds_expression fun _ =>
      require_bind <| require_bind <|
        builds_node rfl rfl

theorem builds_forStatement : (forStatement statement place).BuildsTree n :=
  require_bind <| builds_bind builds_forInit fun _ =>
    builds_bind (builds_expressionUnless _) fun _ => require_bind <|
      builds_bind (builds_expressionUnless _) fun _ => require_bind <|
        builds_bind (builds.weaken (by omega)) fun _ => builds_node rfl rfl

include enough

theorem builds_block : (block statement fuel).BuildsTree (n + 1) := by
  refine reading_bind fun place => require_bind ?_
  refine builds_bind (builds_itemsUntil isRightBrace builds enough) fun statements => ?_
  rw [flatMap_singletons]
  exact require_bind <| builds_node rfl rfl

theorem builds_switchArms (arms : List SwitchCase) :
    (switchArms statement fuel arms).Builds none n 0 (armNodes arms)
      fun arms => arms.flatMap fun arm => arm.label.toList ++ arm.body := by
  induction fuel generalizing arms n with
  | zero => exact builds_exhausted enough
  | succ fuel ih =>
    refine kind_bind fun current => ?_
    split
    · exact builds_pure rfl
    refine accept_ite nofun ?_ (accept_ite nofun ?_ ?_)
    · refine builds_bind (builds_expressionAt trivial) fun label => ?_
      refine require_bind ?_
      have opened := ih (n := n - 1 - 1 - 1) (builds.weaken (by omega)) (by omega)
        (⟨some label, []⟩ :: arms)
      rwa [armNodes_cons] at opened
    · refine require_bind ?_
      have opened := ih (n := n - 1 - 1) (builds.weaken (by omega)) (by omega) (⟨none, []⟩ :: arms)
      rwa [armNodes_cons, Option.toList_none, append_nil, append_nil] at opened
    · refine builds_bind builds fun body => ?_
      split
      · rename_i longer extended
        rw [← armNodes_extendArm extended]
        exact ih (builds.weaken (by omega)) (by omega) longer
      · exact builds_fail nofun

theorem builds_switchStatement : (switchStatement statement fuel place).BuildsTree n := by
  refine require_bind <| builds_bind builds_expression fun expr => ?_
  refine require_bind <| require_bind ?_
  refine builds_bind (builds_switchArms (builds.weaken (by omega)) (by omega) []) fun arms => ?_
  exact require_bind <| builds_node rfl rfl

theorem builds_statementRule : (statementRule statement fuel).BuildsTree (n + 1) := by
  refine reading_bind fun place => kind_bind fun current => ?_
  split
  · exact (builds_block builds enough).weaken le_rfl
  · exact advance_bind nofun (builds_ifStatement builds).fewer
  · exact advance_bind nofun (builds_whileStatement builds).fewer
  · exact advance_bind nofun (builds_doStatement builds).fewer
  · exact advance_bind nofun (builds_forStatement builds).fewer
  · exact advance_bind nofun (builds_switchStatement builds enough).fewer
  · exact advance_bind nofun builds_returnStatement.fewer
  · exact advance_bind nofun (builds_jumpStatement rfl rfl "break").fewer
  · exact advance_bind nofun (builds_jumpStatement rfl rfl "continue").fewer
  · exact advance_bind nofun (builds_node rfl rfl)
  · refine reading_bind fun declares => ?_
    split
    · exact builds_localDeclaration.weaken le_rfl
    · exact builds_expressionStatement.weaken le_rfl

end Statements

theorem builds_statementAt (enough : n ≤ fuel) : (statementAt fuel).BuildsTree n := by
  induction fuel generalizing n with
  | zero => exact builds_exhausted enough
  | succ fuel ih => exact (builds_statementRule (ih le_rfl) le_rfl).weaken enough

/-! Items and programs. -/

theorem builds_functionAfterName (word : String) :
    (functionAfterName word type place).Builds none n 1 [] Option.toList := by
  refine require_bind <| quiet_bind quiet_parameters fun params => ?_
  refine require_bind <| accept_ite nofun (builds_pure rfl) ?_
  refine remaining_bind fun left => ?_
  have body := builds_block (builds_statementAt (Nat.le_succ left)) (Nat.le_succ left)
  exact builds_bind (body.weaken (by omega)) fun body => builds_map (builds_node rfl rfl)

theorem builds_topLevel : topLevel.Builds none n 1 [] Option.toList := by
  refine accept_ite nofun (builds_pure rfl) (reading_bind fun state => ?_)
  split
  · exact builds_map builds_structDefinition
  refine reading_bind fun isObject => ?_
  split
  · exact builds_map builds_objects
  · refine reading_bind fun place => ?_
    refine quiet_bind_of quiet_specifiers specifiers_dims fun spec plain => ?_
    refine quiet_bind_of (quiet_pointers _) (pointers_dims plain) fun type plainFirst => ?_
    refine reading_bind fun namePlace => ?_
    refine quiet_bind quiet_name fun word => reading_bind fun isFunction => ?_
    split
    · exact (builds_functionAfterName word).fewer
    · exact builds_map (builds_variableDeclarations word plain plainFirst).fewer

theorem itemsUntil_increasing (builds : item.Builds none 0 1 [] Option.toList)
    (grown : Grown state.nodes []) (read : itemsUntil stop item fuel state = .ok (items, last)) :
    (items.flatMap Option.toList).Pairwise (· < ·) := by
  induction fuel generalizing state items with
  | zero => cases read
  | succ fuel ih =>
    obtain ⟨current, _, found, read⟩ := bind_ok read
    cases found
    split at read
    · cases read
      exact List.Pairwise.nil
    · obtain ⟨first, between, built, read⟩ := bind_ok read
      obtain ⟨rest, _, builtRest, read⟩ := bind_ok read
      cases read
      have grownFirst := (builds.grown built).grown [] grown
      have later := (builds_itemsUntil stop builds (Nat.zero_le _)).grown builtRest
      have ordered := ih (grownFirst.drop (nil_sublist _)) builtRest
      refine pairwise_append.mpr ⟨?_, ordered, ?_⟩
      · cases first <;> simp
      · intro id among other amongRest
        have before : id < between.nodes.size := grownFirst.inside id among
        rcases later.given_or_new other amongRest with nothing | isNew
        · cases nothing
        · exact Nat.lt_of_lt_of_le before isNew

theorem program_ok (parsed : Parse.program state = .ok (res, last)) :
    ∃ fuel items, itemsUntil (fun _ => false) topLevel fuel state = .ok (items, last) ∧
      res = ⟨last.nodes, items.filterMap id⟩ := by
  obtain ⟨fuel, _, counted, parsed⟩ := bind_ok parsed
  cases counted
  obtain ⟨items, _, read, parsed⟩ := bind_ok parsed
  obtain ⟨_, _, found, parsed⟩ := bind_ok parsed
  cases found
  cases parsed
  exact ⟨_, items, read, rfl⟩

theorem grown_of_program (fresh : state.nodes = #[])
    (parsed : Parse.program state = .ok (res, last)) :
    Grown res.nodes res.items ∧ res.items.Pairwise (· < ·) := by
  obtain ⟨fuel, items, read, rfl⟩ := program_ok parsed
  have started : Grown state.nodes [] := by
    rw [fresh]
    exact .empty
  have growth := (builds_itemsUntil _ builds_topLevel (Nat.zero_le _)).grown read
  rw [filterMap_eq_flatMap_toList]
  exact ⟨growth.grown [] started, itemsUntil_increasing builds_topLevel started read⟩

end Breadboard.Parse

namespace Breadboard

variable {source : String} {program : Program} {sketch : Sketch}

theorem tokens_of_parseProgram (parsed : parseProgram source = .ok program) :
    ∃ tokens last, tokenize source = .ok tokens ∧
      Parse.program { tokens } = .ok (program, last) := by
  unfold parseProgram at parsed
  split at parsed
  · rename_i tokens read
    cases out : StateT.run Parse.program { tokens } with rw [out] at parsed
    | error error => cases parsed
    | ok res =>
      cases parsed
      exact ⟨tokens, res.2, read, out⟩
  · cases parsed

theorem grown_of_parseProgram (parsed : parseProgram source = .ok program) :
    Grown program.nodes program.items ∧ program.items.Pairwise (· < ·) := by
  obtain ⟨tokens, last, -, built⟩ := tokens_of_parseProgram parsed
  exact Parse.grown_of_program rfl built

theorem grown_of_parseSketch (parsed : parseSketch source = .ok sketch) :
    Grown sketch.program.nodes sketch.program.items := by
  obtain ⟨text, -, parsed⟩ := bind_eq_ok.mp parsed
  obtain ⟨program, built, parsed⟩ := bind_eq_ok.mp parsed
  cases parsed
  exact (grown_of_parseProgram built).1

theorem isForest_of_parseSketch (parsed : parseSketch source = .ok sketch) :
    sketch.program.IsForest :=
  (grown_of_parseSketch parsed).isForest

/-- Children come before their parents, no node is a child twice, and the items are nodes that
are nobody's children, in the order of the arena. -/
structure Program.ChildrenFirst (program : Program) : Prop where
  child_lt : ∀ child parent, program.Child child parent → child < parent
  unshared : program.references.Nodup
  increasing : program.items.Pairwise (· < ·)
  roots : ∀ item ∈ program.items, item < program.nodes.size ∧ item ∉ program.references

/-- Every program that can be parsed lists its nodes with children first. -/
theorem childrenFirst_of_parseProgram {source : String} {program : Program}
    (parsed : parseProgram source = .ok program) : program.ChildrenFirst := by
  obtain ⟨grown, increasing⟩ := grown_of_parseProgram parsed
  have unshared : program.references.Nodup := grown.distinct.of_append_left
  refine ⟨fun child parent isChild => grown.child_lt isChild, unshared, increasing, ?_⟩
  intro item among
  refine ⟨grown.inside item among, ?_⟩
  intro isReferred
  exact disjoint_of_nodup_append grown.distinct isReferred among

/-- The rules that leave nodes behind or yield those of others: a prototype, computed sizes, names
that are called or cast with, parentheses, a single declarator and several. -/
def leftoversText : String :=
  "int f(int n);\nint t[1 + 1], k = byte((2));\n" ++
  "int f(int n) \x7b switch (n) \x7b case 1: return f((n)); \x7d return (n); \x7d"

theorem leftovers_childrenFirst :
    ∃ program, parseProgram leftoversText = .ok program ∧ program.ChildrenFirst := by
  have accepted : (parseProgram leftoversText).toOption.isSome = true := by
    decide +kernel
  cases parsed : parseProgram leftoversText with
  | error =>
      rw [parsed] at accepted
      cases accepted
  | ok program => exact ⟨program, rfl, childrenFirst_of_parseProgram parsed⟩

end Breadboard
