import Mathlib.Data.List.Forall2
import Breadboard.Proofs.Machine.Balance
import Breadboard.Proofs.Machine.Discipline

/-!
Contexts between which steps can not tell. A bridge leads from contexts under a discipline to
others, and says in what these may differ: they may lie on stacks of frames and operands, and frames
may stand for nodes that are copies of each other, at other places in the text. Acts are twins if
they do the same on both sides of a bridge and keep its discipline, unless the first lacks an
operand that the second finds below.
-/

open List

namespace Breadboard

open Act

def Frame.raise (height : Nat) : Frame → Frame
  | .callReturn retType own returned loc =>
    .callReturn retType (own + height) returned loc
  | frame => frame

theorem Frame.raise_zero (frame : Frame) : frame.raise 0 = frame := by cases frame <;> rfl

def Context.on (ctx : Context) (frames : List Frame) (values : List Value) : Context :=
  { ctx with
    frames := ctx.frames.map (Frame.raise values.length) ++ frames
    values := ctx.values ++ values }

theorem Context.on_nil (ctx : Context) (frames : List Frame) :
    ctx.on frames [] = { ctx with frames := ctx.frames ++ frames } := by
  have same : ctx.frames.map (Frame.raise 0) = ctx.frames := map_id'' Frame.raise_zero _
  simp only [Context.on, length_nil, same, append_nil]

/-! Expressions that are written down twice. -/

def NodeKind.isComposite : NodeKind → Bool
  | .binary .. | .logical .. | .unary .. | .incDec .. | .ternary .. | .assign ..
  | .compoundAssign .. | .call .. | .methodCall .. | .index .. | .member .. | .cast ..
  | .sizeofExpr _ | .initList _ => true
  | _ => false

/-- The kinds of two nodes are the same but for the parts of an expression, which are related in
order. -/
inductive NodeKind.Copied (related : NodeId → NodeId → Prop) : NodeKind → NodeKind → Prop where
  | binary (op : BinaryOp) {left right left' right'} : related left left' → related right right' →
      Copied related (.binary op left right) (.binary op left' right')
  | logical (op : LogicalOp) {left right left' right'} : related left left' → related right right' →
      Copied related (.logical op left right) (.logical op left' right')
  | unary (op : UnaryOp) {operand operand'} :
      related operand operand' → Copied related (.unary op operand) (.unary op operand')
  | incDec (op : IncDecOp) {target target'} :
      related target target' → Copied related (.incDec op target) (.incDec op target')
  | ternary {cond thenExpr elseExpr condition' thenExpr' elseExpr'} :
      related cond condition' → related thenExpr thenExpr' → related elseExpr elseExpr' →
      Copied related (.ternary cond thenExpr elseExpr) (.ternary condition' thenExpr' elseExpr')
  | assign {target value target' value'} : related target target' → related value value' →
      Copied related (.assign target value) (.assign target' value')
  | compoundAssign (op : BinaryOp) {target value target' value'} :
      related target target' → related value value' →
      Copied related (.compoundAssign op target value) (.compoundAssign op target' value')
  | call (callee : String) {args args'} :
      List.Forall₂ related args args' → Copied related (.call callee args) (.call callee args')
  | methodCall (method : String) {receiver receiver' args args'} :
      related receiver receiver' → List.Forall₂ related args args' →
      Copied related (.methodCall receiver method args) (.methodCall receiver' method args')
  | index {array pos array' position'} : related array array' → related pos position' →
      Copied related (.index array pos) (.index array' position')
  | member (field : String) (throughPointer : Bool) {object object'} : related object object' →
      Copied related (.member object field throughPointer) (.member object' field throughPointer)
  | cast (type : DataType) {expr expr'} :
      related expr expr' → Copied related (.cast type expr) (.cast type expr')
  | sizeofExpr :
      related expr expr' → Copied related (.sizeofExpr expr) (.sizeofExpr expr')
  | initList :
      List.Forall₂ related items items' → Copied related (.initList items) (.initList items')
  | plain : kind.isComposite = false → Copied related kind kind

namespace NodeKind.Copied

variable {related wider : NodeId → NodeId → Prop}

theorem refl (same : ∀ node, related node node) (kind : NodeKind) : kind.Copied related kind := by
  cases kind <;> constructor <;> first
    | rfl
    | exact same _
    | exact forall₂_same.mpr fun _ _ => same _

theorem mono {kind copy : NodeKind} (copied : kind.Copied related copy)
    (weaker : ∀ one two, related one two → wider one two) : kind.Copied wider copy := by
  cases copied <;> constructor <;> first
    | assumption
    | exact weaker _ _ (by assumption)
    | exact List.Forall₂.imp weaker (by assumption)

end NodeKind.Copied

namespace Program

/-- Related nodes are copies of each other, and so are their children. -/
def Copying (prog : Program) (related : NodeId → NodeId → Prop) : Prop :=
  ∀ node copy, related node copy → (prog.kind node).Copied related (prog.kind copy)

/-- Two nodes are one expression, written down in two places. -/
def Copies (prog : Program) (node copy : NodeId) : Prop :=
  ∃ related, prog.Copying related ∧ related node copy

variable {prog : Program} {node copy : NodeId}

theorem Copies.leaf (same : prog.kind copy = prog.kind node)
    (simple : (prog.kind node).isComposite = false) : prog.Copies node copy := by
  refine ⟨fun one two => one = node ∧ two = copy, ?_, rfl, rfl⟩
  rintro _ _ ⟨rfl, rfl⟩
  rw [same]
  exact .plain simple

theorem Copies.binary (kind : prog.kind node = .binary op left right)
    (kind' : prog.kind copy = .binary op left' right') (first : prog.Copies left left')
    (second : prog.Copies right right') : prog.Copies node copy := by
  obtain ⟨one, oneCopies, pair⟩ := first
  obtain ⟨two, twoCopies, pair'⟩ := second
  refine ⟨fun a b => a = node ∧ b = copy ∨ one a b ∨ two a b, ?_, .inl ⟨rfl, rfl⟩⟩
  rintro a b (⟨rfl, rfl⟩ | related | related)
  · rw [kind, kind']
    exact .binary op (.inr (.inl pair)) (.inr (.inr pair'))
  · exact (oneCopies a b related).mono fun _ _ related => .inr (.inl related)
  · exact (twoCopies a b related).mono fun _ _ related => .inr (.inr related)

end Program

/-! Bridges. -/

/-- What is asked of a context, and what another may differ in: nodes that are copies of each other,
locations, and the stacks on which the other one lies. -/
structure Bridge (fw : Firmware) where
  discipline : Discipline fw
  related : NodeId → NodeId → Prop
  near : Location → Location → Prop
  frames : List Frame
  values : List Value
  related_refl (node : NodeId) : related node node
  near_refl (loc : Location) : near loc loc
  copied {node copy : NodeId} : related node copy →
    (fw.program.kind node).Copied related (fw.program.kind copy)
  placed {node copy : NodeId} : related node copy →
    near (fw.program.location node) (fw.program.location copy)

namespace Bridge

variable {fw : Firmware} {α β : Type}

theorem kinds (br : Bridge fw) (one : br.related node copy) :
    br.near (fw.program.location node) (fw.program.location copy) ∧
      ∃ kind kind', fw.program.kind node = kind ∧ fw.program.kind copy = kind' ∧
        kind.Copied br.related kind' :=
  ⟨br.placed one, _, _, rfl, rfl, br.copied one⟩

def below (disc : Discipline fw) (frames : List Frame) (values : List Value) :
    Bridge fw where
  discipline := disc
  related := Eq
  near := Eq
  frames := frames
  values := values
  related_refl _ := rfl
  near_refl _ := rfl
  copied same := same ▸ .refl (fun _ => rfl) _
  placed same := same ▸ rfl

def copying {related : NodeId → NodeId → Prop} (copying : fw.program.Copying related) :
    Bridge fw where
  discipline := .free fw
  related node copy := node = copy ∨ related node copy
  near _ _ := True
  frames := []
  values := []
  related_refl _ := .inl rfl
  near_refl _ := trivial
  copied := by
    rintro node copy (rfl | one)
    · exact .refl (fun _ => .inl rfl) _
    · exact (copying node copy one).mono fun _ _ => .inr
  placed _ := trivial

variable (br : Bridge fw)

inductive Matches : Frame → Frame → Prop where
  | program (phase : ProgramPhase) : Matches (.program phase) (.program phase)
  | collect (count : Nat) : Matches (.collect count) (.collect count)
  | call (fn : NodeId) (argc : Nat) {loc loc'} : br.near loc loc' →
      Matches (.call fn argc loc) (.call fn argc loc')
  | callReturn (retType : DataType) (height : Nat) (returned : Bool) {loc loc'} : br.near loc loc' →
      Matches (.callReturn retType height returned loc)
        (.callReturn retType (height + br.values.length) returned loc')
  | builtin : br.related node copy → Matches (.builtin node) (.builtin copy)
  | method : br.related node copy → Matches (.method node) (.method copy)
  | eval : br.related node copy → Matches (.eval node) (.eval copy)
  | evalPlace : br.related node copy → Matches (.evalPlace node) (.evalPlace copy)
  | load : br.related node copy → Matches (.load node) (.load copy)
  | binary : br.related node copy → Matches (.binary node) (.binary copy)
  | logical (isRight : Bool) :
      br.related node copy → Matches (.logical node isRight) (.logical copy isRight)
  | unary : br.related node copy → Matches (.unary node) (.unary copy)
  | incDec : br.related node copy → Matches (.incDec node) (.incDec copy)
  | select : br.related node copy → Matches (.select node) (.select copy)
  | assign : br.related node copy → Matches (.assign node) (.assign copy)
  | compoundAssign :
      br.related node copy → Matches (.compoundAssign node) (.compoundAssign copy)
  | cast : br.related node copy → Matches (.cast node) (.cast copy)
  | indexPlace (fromPlace : Bool) :
      br.related node copy → Matches (.indexPlace node fromPlace) (.indexPlace copy fromPlace)
  | fieldPlace : br.related node copy → Matches (.fieldPlace node) (.fieldPlace copy)
  | derefPlace (fromPlace : Bool) :
      br.related node copy → Matches (.derefPlace node fromPlace) (.derefPlace copy fromPlace)
  | statement : frame.isStatement = true → Matches frame frame

structure Joins (partway : Bool) (ctx copy : Context) : Prop where
  holds : br.discipline.Holds partway ctx
  env : copy.env = ctx.env
  random : copy.random = ctx.random
  values : copy.values = ctx.values ++ br.values
  frames : ∃ above, List.Forall₂ br.Matches ctx.frames above ∧
    copy.frames = above ++ br.frames

variable {br} {frame twin : Frame} {ctx copy : Context} {partway before : Bool}

theorem matches_raise (frame : Frame) : br.Matches frame (frame.raise br.values.length) := by
  cases frame <;> constructor <;> first
    | rfl
    | exact br.related_refl _
    | exact br.near_refl _

theorem matches_self (none : br.values = []) (frame : Frame) : br.Matches frame frame := by
  have raised : br.Matches frame _ := matches_raise frame
  rwa [none, length_nil, Frame.raise_zero] at raised

namespace Matches

variable (matched : br.Matches frame twin)
include matched

theorem ownsScope_eq : twin.ownsScope = frame.ownsScope := by
  cases matched <;> rfl

theorem isBarrier_eq : twin.isBarrier = frame.isBarrier := by
  cases matched <;> rfl

theorem stopsBreak_eq : twin.stopsBreak = frame.stopsBreak := by
  cases matched <;> rfl

theorem stopsContinue_eq : twin.stopsContinue = frame.stopsContinue := by
  cases matched <;> rfl

end Matches

theorem Joins.weaken (joins : br.Joins true ctx copy) : br.Joins partway ctx copy :=
  { joins with holds := joins.holds.weaken }

section Below

variable {disc : Discipline fw} {frames : List Frame} {values : List Value}

theorem joins_on (holds : disc.Holds partway ctx) :
    (below disc frames values).Joins partway ctx (ctx.on frames values) where
  holds := holds
  env := rfl
  random := rfl
  values := rfl
  frames := ⟨_, forall₂_map_right_iff.mpr (forall₂_same.mpr fun frame _ =>
    matches_raise frame), rfl⟩

theorem joins_self (holds : disc.Holds partway ctx) : (below disc [] []).Joins partway ctx ctx :=
  ⟨holds, rfl, rfl, (append_nil _).symm, _,
    forall₂_same.mpr fun frame _ => matches_self rfl frame, (append_nil _).symm⟩

theorem eq_on_of_joins (joins : (below disc frames values).Joins partway ctx copy) :
    copy = ctx.on frames values := by
  obtain ⟨-, env, random, opds, above, matched, stack⟩ := joins
  have raised : List.Forall₂ (fun frame twin => frame.raise values.length = twin)
      ctx.frames above := by
    refine matched.imp fun frame twin matched => ?_
    cases matched with
    | statement isStatement => cases frame <;> first | rfl | cases isStatement
    | call _ _ same | callReturn _ _ _ same
    | builtin same | method same | eval same | evalPlace same | load same | binary same
    | logical _ same | unary same | incDec same | select same | assign same | compoundAssign same
    | cast same | indexPlace _ same | fieldPlace same | derefPlace _ same => cases same; rfl
    | program | collect => rfl
  rw [← forall₂_map_left_iff, forall₂_eq_eq_eq] at raised
  obtain ⟨_, _, _, _⟩ := copy
  cases env
  cases random
  cases opds
  cases stack
  rw [Context.on, raised]
  rfl

end Below

end Bridge

/-! Acts on the two sides. -/

def Act.Underflows {α : Type} : EStateM.Result Fault Context α → Prop
  | .ok _ _ => False
  | .error fault _ => fault.cause = .unsupported .operandUnderflow

namespace Bridge

variable {fw : Firmware} {α β : Type} (br : Bridge fw) {frames : List Frame}

def Pairs (partway : Bool) (fits : α → Prop) :
    EStateM.Result Fault Context α → EStateM.Result Fault Context α → Prop
  | .ok value ctx, .ok value' copy =>
    value' = value ∧ fits value ∧ br.Joins partway ctx copy
  | .error fault ctx, .error fault' copy =>
    fault'.cause = fault.cause ∧ br.near fault.location fault'.location ∧
      br.Joins true ctx copy
  | _, _ => False

def TwinsAt (partway : Bool) (fits : α → Prop) (ctx copy : Context) (act twin : Act α) : Prop :=
  (br.values ≠ [] → ¬ Act.Underflows (act ctx)) →
    br.Pairs partway fits (act ctx) (twin copy)

def Twins (partway : Bool) (fits : α → Prop) (act twin : Act α) : Prop :=
  ∀ ctx copy, br.Joins true ctx copy →
    br.TwinsAt partway fits ctx copy act twin

abbrev Alike (partway : Bool) (act twin : Act α) : Prop :=
  br.Twins partway (fun _ => True) act twin

variable {br} {partway before : Bool} {ctx copy : Context} {fits : α → Prop}
  {middle : β → Prop} {loc loc' : Location}

theorem TwinsAt.bindAt {next} (first : br.TwinsAt before middle ctx copy act twin)
    (rest : ∀ value reached reached', act ctx = .ok value reached → middle value →
      br.Joins before reached reached' →
      br.TwinsAt partway fits reached reached' (next value) (next' value)) :
    br.TwinsAt partway fits ctx copy (act >>= next) (twin >>= next') := by
  unfold TwinsAt at first
  intro enough
  simp only [Bind.bind, EStateM.bind] at enough ⊢
  cases out : act ctx with rw [out] at first enough
  | ok value reached =>
    cases out' : twin copy with rw [out'] at first
    | ok value' reached' =>
      obtain ⟨rfl, fitting, joins⟩ := first fun _ => id
      exact rest _ _ _ out fitting joins enough
    | error => exact (first fun _ => id).elim
  | error fault reached =>
    cases out' : twin copy with rw [out'] at first
    | ok => exact (first enough).elim
    | error => exact first enough

theorem TwinsAt.bind {next} (first : br.TwinsAt true middle ctx copy act twin)
    (rest : ∀ value, middle value → br.Twins partway fits (next value) (next' value)) :
    br.TwinsAt partway fits ctx copy (act >>= next) (twin >>= next') :=
  first.bindAt fun value _ _ _ fitting joins => rest value fitting _ _ joins

theorem Twins.bind {next} (first : br.Twins true middle act twin)
    (rest : ∀ value, middle value → br.Twins partway fits (next value) (next' value)) :
    br.Twins partway fits (act >>= next) (twin >>= next') :=
  fun ctx copy joins => (first ctx copy joins).bind rest

theorem twins_pure (fitting : fits value) :
    br.Twins partway fits (pure value : Act α) (pure value) :=
  fun _ _ joins _ => ⟨rfl, fitting, joins.weaken⟩

theorem TwinsAt.returning (twins : br.TwinsAt partway middle ctx copy act twin)
    (fitting : fits value) :
    br.TwinsAt partway fits ctx copy (act >>= fun _ => pure value) (twin >>= fun _ => pure value) :=
  twins.bindAt fun _ _ _ _ _ joins _ => ⟨rfl, fitting, joins⟩

theorem Twins.returning (twins : br.Twins partway middle act twin) (fitting : fits value) :
    br.Twins partway fits (act >>= fun _ => pure value) (twin >>= fun _ => pure value) :=
  fun ctx copy joins => (twins ctx copy joins).returning fitting

theorem twins_throw (same : fault'.cause = fault.cause)
    (close : br.near fault.location fault'.location) :
    br.Twins partway fits (throw fault : Act α) (throw fault') :=
  fun _ _ joins _ => ⟨same, close, joins⟩

theorem alike_modify
    (kept : ∀ ctx copy, br.Joins true ctx copy → br.Joins partway (change ctx) (change' copy)) :
    br.Alike partway (modify change : Act PUnit) (modify change') :=
  fun ctx copy joins _ => ⟨rfl, trivial, kept ctx copy joins⟩

section Located

variable (close : br.near loc loc')
include close

theorem twins_raise : br.Twins partway fits (raise cause loc : Act α) (raise cause loc') :=
  twins_throw rfl close

theorem twins_attempt (answers : ∀ value, res = .ok value → fits value) :
    br.Twins partway fits (attempt res loc) (attempt res loc') := by
  cases res with
  | ok value => exact twins_pure (answers value rfl)
  | error cause => exact twins_raise close

theorem alike_attempt : br.Alike partway (attempt res loc) (attempt res loc') :=
  twins_attempt close fun _ _ => trivial

theorem twins_attemptMemory (answers : ∀ value, res = .ok value → fits value) :
    br.Twins partway fits (attemptMemory res loc) (attemptMemory res loc') := by
  cases res with
  | ok value => exact twins_pure (answers value rfl)
  | error error => exact twins_raise close

theorem alike_truth : br.Alike partway (truth value loc) (truth value loc') := by
  unfold truth
  split
  · exact twins_pure trivial
  · exact twins_raise close

variable {next next' : β → Act α} (joins : br.Joins true ctx copy)
include joins

/-- An answer that was found changes nothing, so what is known of the context stays known. -/
theorem TwinsAt.attempt (rest : ∀ value, res = .ok value →
      br.TwinsAt partway fits ctx copy (next value) (next' value)) :
    br.TwinsAt partway fits ctx copy (attempt res loc >>= next)
      (attempt res loc' >>= next') := by
  cases res with
  | ok value => exact rest value rfl
  | error cause => exact fun _ => ⟨rfl, close, joins⟩

theorem TwinsAt.attemptMemory (rest : ∀ value, res = .ok value →
      br.TwinsAt partway fits ctx copy (next value) (next' value)) :
    br.TwinsAt partway fits ctx copy (attemptMemory res loc >>= next)
      (attemptMemory res loc' >>= next') := by
  cases res with
  | ok value => exact rest value rfl
  | error error => exact fun _ => ⟨rfl, close, joins⟩

end Located

theorem twins_environment : br.Twins partway br.discipline.memory environment environment :=
  fun _ _ joins _ => ⟨joins.env, joins.holds.memory, joins.weaken⟩

theorem TwinsAt.environment {next} (joins : br.Joins true ctx copy)
    (rest : br.TwinsAt partway fits ctx copy (next ctx.env) (next' ctx.env)) :
    br.TwinsAt partway fits ctx copy (environment >>= next) (environment >>= next') := by
  intro enough
  have same : (Act.environment >>= next') copy = next' ctx.env copy := by
    rw [← joins.env]
    rfl
  rw [same]
  exact rest enough

theorem alike_setEnvironment (memory : br.discipline.memory env) :
    br.Alike partway (setEnvironment env) (setEnvironment env) :=
  alike_modify fun _ _ ⟨holds, _, random, values, frames⟩ =>
    ⟨⟨memory, holds.operands, fun _ => holds.frames rfl⟩, rfl, random, values, frames⟩

theorem alike_openScope (opens : br.discipline.Opens) :
    br.Alike partway (openScope kind) (openScope kind) :=
  alike_modify fun _ _ ⟨holds, env, random, values, frames⟩ =>
    ⟨⟨opens.openScope kind holds.memory, holds.operands, fun _ => holds.frames rfl⟩,
      congrArg (·.pushScope kind) env, random, values, frames⟩

theorem alike_closeScope (closes : br.discipline.Closes) : br.Alike partway closeScope closeScope :=
  alike_modify fun _ _ ⟨holds, env, random, values, frames⟩ =>
    ⟨⟨closes _ holds.memory, holds.operands, fun _ => holds.frames rfl⟩,
      congrArg (·.popScope) env, random, values, frames⟩

theorem alike_push (operand : br.discipline.operand value) :
    br.Alike partway (push value) (push value) :=
  alike_modify fun _ _ ⟨holds, env, random, values, frames⟩ =>
    ⟨⟨holds.memory, forall_mem_cons.mpr ⟨operand, holds.operands⟩,
      fun _ => holds.frames rfl⟩, env, random, congrArg (value :: ·) values, frames⟩

theorem Joins.drop (joins : br.Joins true ctx copy) {count count' : Nat}
    (same : copy.values.drop count' = ctx.values.drop count ++ br.values) :
    br.Joins partway { ctx with values := ctx.values.drop count }
      { copy with values := copy.values.drop count' } :=
  ⟨⟨joins.holds.memory, fun value among => joins.holds.operands value (mem_of_mem_drop among),
    fun _ => joins.holds.frames rfl⟩, joins.env, joins.random, same, joins.frames⟩

/-- The second context has as many operands more as lie below. -/
theorem alike_truncate (height : Nat) :
    br.Alike partway (truncate height) (truncate (height + br.values.length)) := by
  refine alike_modify fun ctx copy joins => joins.drop ?_
  rw [joins.values, length_append, Nat.add_sub_add_right,
    drop_append_of_le_length (Nat.sub_le _ _)]

theorem twinsAt_drop (joins : br.Joins true ctx copy)
    (enough : br.values ≠ [] → 1 ≤ ctx.values.length) :
    br.TwinsAt partway (fun _ => True) ctx copy drop drop := by
  refine fun _ => ⟨rfl, trivial, joins.drop ?_⟩
  rw [joins.values]
  by_cases none : br.values = []
  · simp [none]
  · rw [drop_append_of_le_length (enough none)]

theorem alike_schedule (matched : List.Forall₂ br.Matches frames copies) :
    br.Alike false (schedule frames) (schedule copies) := by
  refine alike_modify fun _ _ joins =>
    ⟨⟨joins.holds.memory, joins.holds.operands, nofun⟩, joins.env, joins.random, joins.values, ?_⟩
  obtain ⟨above, below, stack⟩ := joins.frames
  exact ⟨copies ++ above, rel_append matched below, by simp [stack]⟩

theorem alike_scheduleNodeless (nodeless : frame.node? = none) (matched : br.Matches frame twin) :
    br.Alike partway (schedule [frame]) (schedule [twin]) :=
  alike_modify fun _ _ ⟨holds, env, random, values, above, below, stack⟩ =>
    ⟨⟨holds.memory, holds.operands, fun _ => forall_mem_cons.mpr
      ⟨br.discipline.nodeless nodeless, holds.frames rfl⟩⟩, env, random, values, _,
      .cons matched below, by simp [stack]⟩

theorem alike_scheduleSame (plain : frames.map (Frame.raise br.values.length) = frames) :
    br.Alike false (schedule frames) (schedule frames) := by
  refine alike_schedule ?_
  have matched : List.Forall₂ br.Matches frames (frames.map (Frame.raise br.values.length)) :=
    forall₂_map_right_iff.mpr (forall₂_same.mpr fun frame _ => matches_raise frame)
  rwa [plain] at matched

end Bridge

namespace Act

variable {ctx : Context} {count : Nat}

theorem get_bind (next : Context → Act α) : (get >>= next) ctx = next ctx ctx := rfl

theorem pop_cons (opds : ctx.values = value :: below) (loc : Location) :
    pop loc ctx = .ok value { ctx with values := below } := by
  rw [pop, get_bind, opds]
  rfl

theorem pop_nil (none : ctx.values = []) (loc : Location) :
    pop loc ctx = .error ⟨.unsupported .operandUnderflow, loc⟩ ctx := by
  rw [pop, get_bind, none]
  rfl

theorem popMany_of_le (enough : count ≤ ctx.values.length) (loc : Location) :
    popMany count loc ctx = .ok (ctx.values.take count).reverse
        { ctx with values := ctx.values.drop count } := by
  rw [popMany, get_bind, if_pos enough]
  rfl

theorem popMany_of_lt (short : ctx.values.length < count) (loc : Location) :
    popMany count loc ctx = .error ⟨.unsupported .operandUnderflow, loc⟩ ctx := by
  rw [popMany, get_bind, if_neg (Nat.not_le.mpr short)]
  rfl

theorem unwindTo_eq (unwound : unwind stop ctx.env ctx.frames = (env, frames)) :
    unwindTo stop ctx = .ok frames.head? { ctx with env, frames } := by
  rw [unwindTo, get_bind, unwound]
  rfl

theorem release_eq (top : ctx.frames = frame :: rest) :
    release ctx = .ok () { ctx with
      frames := rest
      env := if frame.ownsScope then ctx.env.popScope else ctx.env } := by
  rw [release, get_bind, top]
  rfl

end Act

namespace Bridge

variable {fw : Firmware} {br : Bridge fw} {partway : Bool} {ctx copy : Context}
  {loc loc' : Location} (close : br.near loc loc') {value : Value}
  {place : Place}
include close

theorem twins_pop : br.Twins partway br.discipline.operand (pop loc) (pop loc') := by
  intro ctx copy joins enough
  cases opds : ctx.values with
  | nil =>
    rw [pop_nil opds] at enough ⊢
    by_cases none : br.values = []
    · rw [pop_nil (by rw [joins.values, opds, none]; rfl)]
      exact ⟨rfl, close, joins⟩
    · exact absurd rfl (enough none)
  | cons value below =>
    have above : copy.values = value :: (below ++ br.values) := by
      rw [joins.values, opds, cons_append]
    have sound := joins.holds.operands
    rw [opds, forall_mem_cons] at sound
    rw [pop_cons opds, pop_cons above]
    exact ⟨rfl, sound.1, ⟨joins.holds.memory, sound.2, fun _ => joins.holds.frames rfl⟩, joins.env,
      joins.random, rfl, joins.frames⟩

theorem twins_popMany {count : Nat} :
    br.Twins partway (fun values => ∀ value ∈ values, br.discipline.operand value)
      (popMany count loc) (popMany count loc') := by
  intro ctx copy joins enough
  have above := congrArg List.length joins.values
  rw [length_append] at above
  rcases Nat.lt_or_ge ctx.values.length count with short | holds
  · rw [popMany_of_lt short] at enough ⊢
    by_cases none : br.values = []
    · rw [popMany_of_lt (by simp [above, none, short])]
      exact ⟨rfl, close, joins⟩
    · exact absurd rfl (enough none)
  · rw [popMany_of_le holds, popMany_of_le (by omega)]
    refine ⟨?_, fun value among => ?_, joins.drop ?_⟩
    · rw [joins.values, take_append_of_le_length holds]
    · exact joins.holds.operands value (mem_of_mem_take (mem_reverse.mp among))
    · rw [joins.values, drop_append_of_le_length holds]

theorem twins_popPlace : br.Twins partway (fun place => br.discipline.operand (.pointer place))
      (popPlace loc) (popPlace loc') := by
  refine (twins_pop close).bind fun value operand => ?_
  split
  · exact twins_pure operand
  · exact twins_raise close
  · exact twins_raise close

theorem twins_convert (operand : br.discipline.operand value) :
    br.Twins partway (br.discipline.stored type) (convert fw value type loc)
      (convert fw value type loc') := by
  refine twins_environment.bind fun env _ => ?_
  refine twins_attempt close fun res => br.discipline.convert ?_
  split
  · exact br.discipline.textOf operand env
  · exact operand

omit close in
theorem twins_varSet : br.Twins partway Effect.Reports (varSet place value) (varSet place value) :=
  twins_environment.bind fun _ _ => twins_pure rfl

/-- A store goes to a place that has been checked, with a value of the type of the place. -/
theorem twinsAt_store (writes : br.discipline.Writes) (joins : br.Joins true ctx copy)
    (placed : br.discipline.operand (.pointer place))
    (writable : ctx.env.checkWritable place = .ok ()) (operand : br.discipline.operand value) :
    br.TwinsAt partway (fun res => br.discipline.operand res.1 ∧ res.2.Reports)
      ctx copy (store fw place value loc)
      (store fw place value loc') := by
  refine .environment joins (.attemptMemory close joins fun type typed => ?_)
  refine (twins_convert close operand ctx copy joins).bind fun stored fitting => ?_
  refine (twins_attemptMemory close fun next written =>
    writes.write joins.holds.memory placed writable typed fitting written).bind fun next kept => ?_
  refine (alike_setEnvironment kept).bind fun _ _ => twins_varSet.bind fun _ reports => ?_
  exact twins_pure ⟨br.discipline.operand_of_stored fitting, reports⟩

end Bridge

end Breadboard
