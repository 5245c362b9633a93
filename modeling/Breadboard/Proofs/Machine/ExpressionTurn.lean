import Breadboard.Proofs.Machine.BuiltinAnswer
import Breadboard.Proofs.Machine.Outcome
import Breadboard.Proofs.Machine.Turn

/-!
Every handler takes a turn of its frame. A handler that finds a node of the kind it
wants and the operands it takes ends in a turn, or fails for a cause that is no defect.
-/

namespace Breadboard

open Firmware Environment

namespace Effect

variable {effect : Effect}

theorem owed_of_isPlain (plain : effect.isPlain = true) : effect.owed = 0 := by
  cases effect <;> first | rfl | cases plain

theorem ne_loopLimit_of_isPlain (plain : effect.isPlain = true) (iters : Nat) :
    effect ≠ .loopLimit iters := by
  rintro rfl
  cases plain

end Effect

namespace Turned

variable {fw : Firmware} {frame : Frame} {ctx : Context} {effect : Effect}
  {move : ScopeMove} {env : Environment} {below : List Value} {scheduled : List Frame}

/-- The operands taken off give way to others, and the frame to others, without a request. -/
theorem plainly (pushed : List Value)
    (turn : Turn fw (ctx.values.length - fw.pops frame) frame pushed.length
      scheduled move) (plain : effect.isPlain = true)
    (frames : next.frames = scheduled ++ ctx.frames)
    (values : next.values = pushed ++ ctx.values.drop (fw.pops frame))
    (relates : move.Relates ctx.env next.env) : Turned fw frame ctx effect next :=
  ⟨pushed, scheduled, move, by simpa [Effect.owed_of_isPlain plain] using turn, frames, values,
    relates, fun iters limit => absurd limit (Effect.ne_loopLimit_of_isPlain plain iters)⟩

section

variable (turn : Turn fw (ctx.values.length - fw.pops frame) frame 1 [] .keep)
include turn

theorem value {value : Value}
    (plain : effect.isPlain = true) (opds : ctx.values.drop (fw.pops frame) = below) :
    Turned fw frame ctx effect { ctx with values := value :: below } :=
  .plainly [value] turn plain rfl (by simp [opds]) ⟨rfl, rfl, rfl⟩

theorem stored {value : Value} (opds : ctx.values.drop (fw.pops frame) = below)
    (kept : ScopeMove.keep.Relates ctx.env env) : Turned fw frame ctx (.emit cmd)
      { ctx with env, values := value :: below } :=
  .plainly [value] turn rfl rfl (by simp [opds]) kept

theorem request {request : Request} (opds : ctx.values.drop (fw.pops frame) = below) :
    Turned fw frame ctx (.request request) { ctx with values := below } :=
  ⟨[], [], .keep, turn, rfl, by simp [opds], ⟨rfl, rfl, rfl⟩, nofun⟩

end

/-- The operands are taken off, frames take the place of a frame, and the scopes change. -/
theorem moved (turn : Turn fw (ctx.values.length - fw.pops frame) frame 0 scheduled move)
    (plain : effect.isPlain = true) (opds : ctx.values.drop (fw.pops frame) = below)
    (relates : move.Relates ctx.env env) : Turned fw frame ctx effect
      { ctx with env, frames := scheduled ++ ctx.frames, values := below } :=
  .plainly [] turn plain rfl (by simp [opds]) relates

theorem frames (turn : Turn fw (ctx.values.length - fw.pops frame) frame 0 scheduled .keep)
    (plain : effect.isPlain = true) (opds : ctx.values.drop (fw.pops frame) = below) :
    Turned fw frame ctx effect { ctx with frames := scheduled ++ ctx.frames, values := below } :=
  .moved turn plain opds ⟨rfl, rfl, rfl⟩

end Turned

namespace Environment

variable {env : Environment}

theorem setValue_keeps (env : Environment) (cell : Cell) (value : Value) :
    ScopeMove.keep.Relates env (env.setValue cell value) := by
  cases cell <;> simp [ScopeMove.Relates, setValue]

theorem write_keeps (out : env.write place value = .ok written) :
    ScopeMove.keep.Relates env written := by
  obtain ⟨decl, -, updated⟩ := bind_eq_ok.mp out
  obtain ⟨res, -, stored⟩ := bind_eq_ok.mp updated
  cases stored
  exact env.setValue_keeps place.cell res

theorem outline_eq_nil : env.outline = [] ↔ env.scopes = [] := by
  simp [outline]

namespace Extends

variable {before after : Environment} {cell : Cell}

theorem refl (env : Environment) : env.Extends env :=
  ⟨rfl, rfl, fun _ => rfl, Nat.le_refl _, fun _ => rfl⟩

theorem scopes_eq_nil (first : before.Extends after) : after.scopes = [] ↔ before.scopes = [] := by
  rw [← outline_eq_nil, first.outline, outline_eq_nil]

theorem trans (first : before.Extends middle) (second : middle.Extends after) :
    before.Extends after where
  outline := second.outline.trans first.outline
  outer := second.outer.trans first.outer
  base inside :=
    (second.base fun none => inside (first.scopes_eq_nil.mp none)).trans (first.base inside)
  grows := Nat.le_trans first.grows second.grows
  outside none := (second.outside (first.scopes_eq_nil.mpr none)).trans (first.outside none)

theorem addBinding (env : Environment) (name : String) (cell : Cell) :
    env.Extends (env.addBinding name cell) := by
  unfold Environment.addBinding
  cases opened : env.scopes with
  | nil =>
    refine ⟨?_, ?_, absurd opened, Nat.le_refl _, fun _ => rfl⟩
    · simp [Environment.outline, opened]
    · simp [opened]
  | cons scope outer =>
    refine ⟨?_, ?_, fun _ => rfl, Nat.le_refl _, fun _ => rfl⟩
    · simp [Environment.outline, opened]
    · simp [opened]

theorem bind (out : env.bind name cell = .ok bound) : env.Extends bound := by
  unfold Environment.bind at out
  split at out <;> cases out
  exact addBinding env name cell

theorem allocateGlobal (env : Environment) (decl : Variable) :
    env.Extends (env.allocateGlobal decl).2 :=
  ⟨rfl, rfl, fun _ => rfl, Nat.le_refl _, fun _ => rfl⟩

theorem allocateLocal (decl : Variable) (inside : env.scopes ≠ []) :
    env.Extends (env.allocateLocal decl).2 :=
  ⟨rfl, rfl, fun _ => rfl, by simp [Environment.allocateLocal], fun none => absurd none inside⟩

theorem declare (out : env.declare decl = .ok (cell, final)) : env.Extends final := by
  unfold Environment.declare at out
  split at out
  · cases out
  · dsimp only at out
    split at out
    · cases out
      exact (allocateGlobal env decl).trans (addBinding _ _ _)
    · rename_i isLocal
      cases out
      have inside : env.scopes ≠ [] := fun none => isLocal (by simp [isGlobal, none])
      exact (allocateLocal decl inside).trans (addBinding _ _ _)

theorem declareStatic (env : Environment) (site : NodeId) (decl : Variable) :
    env.Extends (env.declareStatic site decl).2 := by
  unfold Environment.declareStatic
  split
  · split
    · exact bind ‹_›
    · exact refl env
  · dsimp only
    split
    · have bound := (allocateGlobal env decl).trans (bind ‹_›)
      exact ⟨bound.outline, bound.outer, bound.base, bound.grows, bound.outside⟩
    · exact allocateGlobal env decl

end Extends

theorem pushScope_enters (env : Environment) (kind : ScopeKind) :
    (ScopeMove.enter kind).Relates env (env.pushScope kind) := .refl _

end Environment

namespace Act

variable {α : Type} {fw : Firmware} {ctx : Context} (loc : Location)
  {fromPlace : Bool} {node : NodeId} {value : Value}

def FromData (fault : Fault) (_ : Context) : Prop := fault.cause.isOwn = false

/-- An action takes a turn of a frame without an effect. -/
abbrev Turns (act : Act Unit) (fw : Firmware) (frame : Frame) (ctx : Context) : Prop :=
  act.Meets ctx (fun _ => Turned fw frame ctx .quiet) FromData

theorem attempt_meets (answers : Answers res fun value => yields value ctx) :
    (attempt res loc).Meets ctx yields FromData :=
  (meets_attempt res loc).mpr ⟨fun _ => answers.of_ok, fun _ => answers.of_error⟩

theorem attemptMemory_meets {res : Except MemoryError α}
    (done : ∀ value, res = .ok value → yields value ctx) :
    (attemptMemory res loc).Meets ctx yields FromData :=
  (meets_attemptMemory res loc).mpr ⟨done, fun error _ => Cause.isOwn_ofMemory error⟩

theorem truth_meets (done : ∀ holds, yields holds ctx) :
    (truth value loc).Meets ctx yields FromData :=
  (meets_truth value loc).mpr ⟨fun holds _ => done holds, fun _ => rfl⟩

theorem convert_meets (done : ∀ converted, yields converted ctx) :
    (convert fw value type loc).Meets ctx yields FromData :=
  (meets_convert fw value type loc).mpr ⟨fun converted _ => done converted,
    fun _ => (Value.convert_answers fw.structs _ type).of_error⟩

theorem pop_meets (enough : 1 ≤ ctx.values.length)
    (done : ∀ value, yields value { ctx with values := ctx.values.drop 1 }) :
    (pop loc).Meets ctx yields FromData := by
  cases opds : ctx.values with
  | nil => simp [opds] at enough
  | cons value below =>
    rw [meets_pop loc opds]
    simpa [opds] using done value

theorem popMany_meets (enough : count ≤ ctx.values.length)
    (done : ∀ values, values.length = count →
      yields values { ctx with values := ctx.values.drop count }) :
    (popMany count loc).Meets ctx yields FromData :=
  (meets_popMany loc enough).mpr (done _ (by simp [enough]))

theorem popPlace_meets (enough : 1 ≤ ctx.values.length)
    (done : ∀ place, yields place { ctx with values := ctx.values.drop 1 }) :
    (popPlace loc).Meets ctx yields FromData := by
  unfold popPlace
  rw [meets_bind]
  refine pop_meets loc enough fun value => ?_
  split
  · exact done _
  · rfl
  · rfl

/-! Expressions. -/

theorem evalName_turns (name : String) : (evalName fw name loc).Turns fw (.eval node) ctx := by
  simp only [evalName, meets_bind, meets_environment]
  split
  · rw [meets_bind]
    exact attemptMemory_meets loc fun value _ => .value .value rfl rfl
  · rw [meets_bind]
    exact attempt_meets loc ((fw.resolve_answers name).weaken fun value _ => .value .value rfl rfl)

theorem evalCall_turns (kind : fw.program.kind node = .call callee args) :
    (evalCall fw node callee args (fw.program.location node)).Turns fw (.eval node) ctx := by
  unfold evalCall
  dsimp only
  split
  · exact .frames (.evalCall kind ‹_›) rfl rfl
  · split
    · exact .frames (.evalBuiltin kind) rfl rfl
    · rfl

theorem eval_turns (node : NodeId) : (eval fw node).Turns fw (.eval node) ctx := by
  unfold eval
  cases kind : fw.program.kind node with
  | intLiteral | floatLiteral | charLiteral | stringLiteral | boolLiteral | nullLiteral
  | sizeofType => exact .value .value rfl rfl
  | identifier => exact evalName_turns _ _
  | binary => exact .frames (.evalBinary kind) rfl rfl
  | logical => exact .frames (.evalLogical kind) rfl rfl
  | unary op operand =>
    cases op with
    | addressOf => exact .frames (.evalAddress kind) rfl rfl
    | deref => exact .frames .evalLoad rfl rfl
    | neg | plus | not | bitNot => exact .frames (.evalUnary kind nofun nofun) rfl rfl
  | index | member => exact .frames .evalLoad rfl rfl
  | incDec => exact .frames (.evalIncDec kind) rfl rfl
  | ternary => exact .frames (.evalTernary kind) rfl rfl
  | assign => exact .frames (.evalAssign kind) rfl rfl
  | compoundAssign => exact .frames (.evalCompoundAssign kind) rfl rfl
  | call => exact evalCall_turns kind
  | methodCall => exact .frames (.evalMethod kind) rfl rfl
  | cast => exact .frames (.evalCast kind) rfl rfl
  | sizeofExpr expr =>
    simp only [meets_bind, meets_environment]
    split
    · exact .value .value rfl rfl
    · rename_i failed
      exact (fw.typeAt_answers _ _ _).of_fault failed
  | initList => exact .frames (.evalInitList kind) rfl rfl
  | _ => rfl

theorem operand_base (env : Environment) (id : NodeId) :
    (fw.operand env id).1 = .eval id ∨ (fw.operand env id).1 = .evalPlace id := by
  unfold operand
  split
  · exact .inr rfl
  · exact .inl rfl

theorem evalPlace_turns (node : NodeId) : (evalPlace fw node).Turns fw (.evalPlace node) ctx := by
  simp only [evalPlace, meets_bind, meets_environment]
  split
  · split
    · exact .value .place rfl rfl
    · rw [meets_bind]
      exact attempt_meets _ ((fw.resolve_answers _).weaken fun _ _ => rfl)
  · exact .frames (.placeIndex ‹_› (operand_base _ _)) rfl rfl
  · split
    · exact .frames (.placeMember ‹_› (.inl rfl)) rfl rfl
    · exact .frames (.placeMember ‹_› (.inr rfl)) rfl rfl
  · exact .frames (.placeDeref ‹_› (operand_base _ _)) rfl rfl
  · rfl

theorem store_meets (done : ∀ stored cmd env, ScopeMove.keep.Relates ctx.env env →
      yields (stored, .emit cmd) { ctx with env }) :
    (store fw place value loc).Meets ctx yields FromData := by
  simp only [store, meets_bind, meets_environment, meets_setEnvironment, meets_varSet, meets_pure]
  refine attemptMemory_meets loc fun type _ => convert_meets loc fun stored => ?_
  exact attemptMemory_meets loc fun env written =>
    done stored _ env (write_keeps written)

section

variable (enough : 1 ≤ ctx.values.length)
include enough

theorem runLoad_turns : (runLoad fw node).Turns fw (.load node) ctx := by
  simp only [runLoad, meets_bind]
  refine popPlace_meets _ enough fun place => ?_
  rw [meets_environment]
  exact attemptMemory_meets _ fun value _ => .value .load rfl rfl

theorem runLogical_turns (suits : fw.Suits (.logical node isRight)) :
    (runLogical fw node isRight).Turns fw (.logical node isRight) ctx := by
  obtain ⟨op, left, right, kind⟩ := suits
  simp only [runLogical, kind, meets_bind]
  refine pop_meets _ enough fun value => truth_meets _ fun decided => ?_
  cases isRight with
  | true => exact .value .decided rfl rfl
  | false =>
    simp only [Bool.false_eq_true, if_false]
    split
    · exact .value .decided rfl rfl
    · exact .value .decided rfl rfl
    · exact .frames (.undecided kind) rfl rfl

theorem runUnary_turns (suits : fw.Suits (.unary node)) :
    (runUnary fw node).Turns fw (.unary node) ctx := by
  obtain ⟨op, operand, kind, notDeref, notAddress⟩ := suits
  simp only [runUnary, kind, meets_bind]
  exact pop_meets _ enough fun value => attempt_meets _
    ((UnaryOp.apply_answers value notDeref notAddress).weaken fun _ _ => .value .unary rfl rfl)

theorem runIncDec_turns (suits : fw.Suits (.incDec node)) :
    (runIncDec fw node).Meets ctx (Turned fw (.incDec node) ctx) FromData := by
  obtain ⟨op, target, kind⟩ := suits
  simp only [runIncDec, kind, meets_bind]
  refine popPlace_meets _ enough fun place => ?_
  rw [meets_environment]
  refine attempt_meets _ ((checkWritable_answers _ _).weaken fun _ _ => ?_)
  refine attemptMemory_meets _ fun old _ => ?_
  refine attempt_meets _ ((stepped_answers _ _ _).weaken fun new _ => ?_)
  exact store_meets _ fun stored cmd env kept => .stored .incDec rfl kept

theorem runSelect_turns (suits : fw.Suits (.select node)) :
    (runSelect fw node).Turns fw (.select node) ctx := by
  obtain ⟨cond, thenExpr, elseExpr, kind⟩ := suits
  simp only [runSelect, kind, meets_bind]
  refine pop_meets _ enough fun value => truth_meets _ fun holds => ?_
  refine .frames (.select kind ?_) rfl rfl
  cases holds
  · exact .inr rfl
  · exact .inl rfl

theorem runCast_turns (suits : fw.Suits (.cast node)) :
    (runCast fw node).Turns fw (.cast node) ctx := by
  obtain ⟨type, expr, kind⟩ := suits
  simp only [runCast, kind, meets_bind]
  exact pop_meets _ enough fun value => convert_meets _ fun converted => .value .cast rfl rfl

theorem runFieldPlace_turns (suits : fw.Suits (.fieldPlace node)) :
    (runFieldPlace fw node).Turns fw (.fieldPlace node) ctx := by
  obtain ⟨object, field, throughPointer, kind⟩ := suits
  simp only [runFieldPlace, kind, meets_bind]
  exact popPlace_meets _ enough fun place => .value .fieldPlace rfl rfl

theorem runDerefPlace_turns :
    (runDerefPlace fw node fromPlace).Turns fw (.derefPlace node fromPlace) ctx := by
  simp only [runDerefPlace, meets_bind]
  refine pop_meets _ enough fun base => ?_
  split
  · split
    · simp only [meets_bind, meets_environment]
      exact attempt_meets _ ((pointeeOf_answers _ _).weaken fun place _ =>
        .value .derefPlace rfl rfl)
    · exact .value .derefPlace rfl rfl
  · rfl
  · rfl

end

section

variable (enough : 2 ≤ ctx.values.length)
include enough

theorem runBinary_turns (suits : fw.Suits (.binary node)) :
    (runBinary fw node).Turns fw (.binary node) ctx := by
  obtain ⟨op, left, right, kind⟩ := suits
  simp only [runBinary, kind, meets_bind]
  refine pop_meets _ (by omega) fun right => pop_meets _ (by simp; omega) fun left => ?_
  rw [meets_environment]
  exact attempt_meets _ ((operate_answers _ _ _ _).weaken fun value _ =>
    .value .binary rfl (by simp [pops]))

theorem runAssign_turns :
    (runAssign fw node).Meets ctx (Turned fw (.assign node) ctx) FromData := by
  simp only [runAssign, meets_bind]
  refine pop_meets _ (by omega) fun value => popPlace_meets _ (by simp; omega) fun place => ?_
  rw [meets_environment]
  refine attempt_meets _ ((checkWritable_answers _ _).weaken fun _ _ => ?_)
  exact store_meets _ fun stored cmd env kept =>
    .stored .assign (by simp [pops]) kept

theorem runCompoundAssign_turns (suits : fw.Suits (.compoundAssign node)) :
    (runCompoundAssign fw node).Meets ctx (Turned fw (.compoundAssign node) ctx) FromData := by
  obtain ⟨op, target, value, kind⟩ := suits
  simp only [runCompoundAssign, kind, meets_bind]
  refine pop_meets _ (by omega) fun right => popPlace_meets _ (by simp; omega) fun place => ?_
  rw [meets_environment]
  refine attempt_meets _ ((checkWritable_answers _ _).weaken fun _ _ => ?_)
  refine attemptMemory_meets _ fun current _ => ?_
  refine attempt_meets _ ((operate_answers _ _ _ _).weaken fun res _ => ?_)
  exact store_meets _ fun stored cmd env kept =>
    .stored .compoundAssign (by simp [pops]) kept

theorem runIndexPlace_turns :
    (runIndexPlace fw node fromPlace).Turns fw (.indexPlace node fromPlace) ctx := by
  simp only [runIndexPlace, meets_bind]
  refine pop_meets _ (by omega) fun pos => ?_
  split
  · rfl
  · rw [meets_bind]
    refine pop_meets _ (by simp; omega) fun base => ?_
    rw [meets_bind, meets_environment]
    split
    · rw [meets_bind]
      have element {res : Except Cause Place} {fits : Place → Prop} (answers : Answers res fits) :
          (attempt res (fw.program.location node)).Meets
            { ctx with values := (ctx.values.drop 1).drop 1 }
            (fun place final => (push (.pointer place)).Meets final
              (fun _ => Turned fw (.indexPlace node fromPlace) ctx .quiet) FromData)
            FromData :=
        attempt_meets _ (answers.weaken fun place _ =>
          .value .indexPlace rfl (by simp [pops]))
      split
      · exact element (elementOf_answers _ _ _)
      · exact element (offsetPlace_answers _ _ _)
    · rfl
    · rfl

end

end Act

end Breadboard
