import Breadboard.Proofs.Machine.Mirror

/-!
What rests below the scopes of a run. Scopes that were open before frames were put on the stack
are not touched as long as these frames run, and the locals are as many as before when the frames
are gone. Only a call, not the driver, has statements above it that declare something. And no
step takes the end of a call off the stack but its own.
-/

open List

namespace Breadboard

variable {fw : Firmware} {frame : Frame}

def Rooted (root : Nat) : Nat → List Scope → Prop
  | size, [] => size = root
  | size, scope :: outer => scope.localsBase ≤ size ∧ Rooted root scope.localsBase outer

namespace Environment

/-- The scopes are those of `outer` with scopes of the given kinds above them. When these have
closed, the locals are as many as those of `outer`. -/
structure Rests (outer : Environment) (kinds : List ScopeKind) (env : Environment) : Prop where
  scopes : ∃ own, env.scopes = own ++ outer.scopes ∧ own.map Scope.kind = kinds ∧
    Rooted outer.locals.size env.locals.size own
  base : env.base = outer.base

namespace Rests

variable {outer env : Environment} {kinds : List ScopeKind} {kind : ScopeKind} {after : Environment}

theorem refl (env : Environment) : env.Rests [] env := ⟨⟨[], rfl, rfl, rfl⟩, rfl⟩

theorem pushScope (rests : outer.Rests kinds env) (kind : ScopeKind) :
    outer.Rests (kind :: kinds) (env.pushScope kind) := by
  obtain ⟨⟨own, scopes, above, rooted⟩, base⟩ := rests
  refine ⟨⟨{ kind, localsBase := env.locals.size } :: own, ?_, ?_, Nat.le_refl _, rooted⟩, base⟩
  · rw [Environment.pushScope, scopes]
    rfl
  · rw [map_cons, above]

theorem popScope (rests : outer.Rests (kind :: kinds) env) : outer.Rests kinds env.popScope := by
  obtain ⟨⟨own, scopes, above, rooted⟩, base⟩ := rests
  cases own with
  | nil => cases above
  | cons scope own =>
    obtain ⟨within, rooted⟩ := rooted
    have popped : env.popScope = { env with
          scopes := own ++ outer.scopes
          locals := env.locals.take scope.localsBase } := by
      simp only [Environment.popScope, scopes, cons_append]
    have size : (env.locals.take scope.localsBase).size = scope.localsBase := by
      rw [Array.take, Array.size_extract, Nat.min_eq_left within, Nat.sub_zero]
    rw [popped]
    refine ⟨⟨own, rfl, (List.cons.inj above).2, ?_⟩, base⟩
    rw [size]
    exact rooted

theorem extended (rests : outer.Rests (kind :: kinds) env)
    (extended : env.Extends after) : outer.Rests (kind :: kinds) after := by
  obtain ⟨⟨own, scopes, above, rooted⟩, base⟩ := rests
  cases own with
  | nil => cases above
  | cons scope own =>
    obtain ⟨within, rooted⟩ := rooted
    have inner := extended.outline
    have others := extended.outer
    have kept := extended.base (by simp [scopes])
    rw [outline, outline, scopes] at inner
    rw [scopes] at others
    cases opened : after.scopes with
    | nil => simp [opened] at inner
    | cons changed unchanged =>
      rw [opened] at inner others
      obtain ⟨same, -⟩ := List.cons.inj inner
      obtain ⟨sameKind, sameBase⟩ := Prod.mk.inj same
      have tail : unchanged = own ++ outer.scopes := others
      refine ⟨⟨changed :: own, ?_, ?_, ?_, ?_⟩, kept.trans base⟩
      · rw [opened, tail]
        rfl
      · rw [map_cons, sameKind]
        exact above
      · exact sameBase ▸ Nat.le_trans within extended.grows
      · exact sameBase ▸ rooted

theorem moved {move : ScopeMove} (rests : outer.Rests kinds env) (relates : move.Relates env after)
    (opened : move = .declare ∨ move = .exit → kinds ≠ []) :
    outer.Rests (move.kinds kinds) after := by
  cases move with
  | keep =>
    obtain ⟨scopes, base, size⟩ := relates
    obtain ⟨own, below, above, rooted⟩ := rests.scopes
    exact ⟨⟨own, scopes.trans below, above, size ▸ rooted⟩, base.trans rests.base⟩
  | enter kind => exact (rests.pushScope kind).extended relates
  | declare =>
    cases kinds with
    | nil => exact absurd rfl (opened (.inl rfl))
    | cons kind kinds => exact rests.extended relates
  | exit =>
    cases kinds with
    | nil => exact absurd rfl (opened (.inr rfl))
    | cons kind kinds =>
      rw [show after = _ from relates]
      exact rests.popScope

/-- Frames without calls among them close just their own scopes. -/
theorem release (inside : ∀ frame ∈ frames, frame.isBarrier = false)
    (rests : outer.Rests (scopeKinds (frames ++ kept)) env) :
    outer.Rests (scopeKinds kept) (env.release frames) := by
  induction frames generalizing env with
  | nil => exact rests
  | cons frame frames ih =>
    obtain ⟨here, within⟩ := forall_mem_cons.mp inside
    rw [cons_append, scopeKinds_cons, Frame.scopeKind?_eq here] at rests
    rw [release_cons]
    refine ih within ?_
    cases owns : frame.ownsScope with rw [owns] at rests
    | true => exact rests.popScope
    | false => exact rests

end Rests

end Environment

theorem scopeKinds_ne_nil (noDriver : ∀ other ∈ frames, other.isDriver = false)
    (called : ∃ other ∈ frames, other.isBarrier = true) : scopeKinds frames ≠ [] := by
  obtain ⟨other, found, barrier⟩ := called
  have kind : other.scopeKind? = some .function := by
    cases other with
    | callReturn => rfl
    | program => cases noDriver _ found
    | _ => cases barrier
  exact ne_nil_of_mem (mem_filterMap.mpr ⟨other, found, kind⟩)

namespace Turn

variable {fw : Firmware} {height pushed : Nat} {frame : Frame} {scheduled : List Frame}

theorem isStatement_of_declare (turn : Turn fw height frame pushed scheduled .declare) :
    frame.isStatement = true := by
  cases turn <;> rfl

theorem scopeKind?_of_exit (turn : Turn fw height frame pushed scheduled .exit) :
    frame.scopeKind? ≠ none := by
  cases turn <;> simp [Frame.scopeKind?]

end Turn

theorem Jump.length_eq {frames kept : List Frame}
    (marked : frames = kept ∨ ∃ retType height returned loc below,
      kept = .callReturn retType height returned loc :: below ∧
      frames = .callReturn retType height true loc :: below) : frames.length = kept.length := by
  rcases marked with rfl | ⟨_, _, _, _, lower, rfl, rfl⟩ <;> rfl

section

variable {ctx next : Context} {effect : Effect} {outer : Environment}

/-- A step stays above the scopes of `outer` as long as it stays above the frames below. -/
theorem Stepped.rests_above {inner} (stepped : Stepped fw frame ctx effect next)
    (split : ctx.frames = within ++ below) (behind : next.frames = inner ++ below)
    (opened : frame.isStatement = true → scopeKinds (frame :: within) ≠ [])
    (rests : outer.Rests (scopeKinds (frame :: within)) ctx.env) :
    outer.Rests (scopeKinds inner) next.env := by
  rcases stepped with ⟨pushed, scheduled, move, turn, frames, -, relates, -⟩ | ⟨-, jump⟩
  · rw [behind, split, ← append_assoc] at frames
    rw [append_cancel_right frames, turn.scopeKinds_eq]
    refine rests.moved relates ?_
    rintro (rfl | rfl)
    · exact opened turn.isStatement_of_declare
    · rw [scopeKinds_cons]
      refine append_ne_nil_of_left_ne_nil ?_ _
      simpa using turn.scopeKind?_of_exit
  · have plain : frame.scopeKind? = none := by cases jump <;> rfl
    obtain ⟨discarded, kept, released, inside, env, kinds, frames⟩ := jump.releases
    obtain ⟨lower, rfl, rfl⟩ : ∃ lower, within = discarded ++ lower ∧ kept = lower ++ below := by
      have length := Jump.length_eq frames
      rw [behind, length_append] at length
      rw [split] at released
      rcases append_eq_append_iff.mp released with ⟨passed, rfl, rfl⟩ | found
      · obtain rfl : passed = [] := eq_nil_of_length_eq_zero (by simp at length; omega)
        exact ⟨[], by simp, rfl⟩
      · exact found
    rw [behind, scopeKinds_append, scopeKinds_append] at kinds
    rw [scopeKinds_cons, plain] at rests
    rw [env, append_cancel_right kinds]
    exact rests.release inside

/-- Where a statement lies above its call, a step stays above the scopes of `outer`. -/
theorem Stepped.rests (stepped : Stepped fw frame ctx effect next)
    (noDriver : ∀ other ∈ ctx.frames, other.isDriver = false)
    (called : frame.isStatement = true → ∃ other ∈ ctx.frames, other.isBarrier = true)
    (rests : outer.Rests (scopeKinds (frame :: ctx.frames)) ctx.env) :
    outer.Rests (scopeKinds next.frames) next.env := by
  refine stepped.rests_above (append_nil _).symm (append_nil _).symm ?_ rests
  intro statement
  rw [scopeKinds_cons]
  exact append_ne_nil_of_right_ne_nil _ (scopeKinds_ne_nil noDriver (called statement))

end

def Frame.isEnding : Frame → Bool
  | .discard | .callReturn .. => true
  | _ => false

theorem Turn.scheduled_of_isEnding (turn : Turn fw height frame pushed scheduled move)
    (ending : frame.isEnding = true) : scheduled = [] := by
  cases turn with
  | discard | callReturn => rfl
  | _ => cases ending

namespace Stepped

variable {fw : Firmware} {ctx next : Context} {frame middle : Frame}
  {above below : List Frame} {effect : Effect}

/-- A step leaves a frame below it where it is, or takes it off with all that lies above. Barriers
are not taken off, but a return may mark one. -/
theorem keeps (stepped : Stepped fw frame ctx effect next)
    (split : ctx.frames = above ++ middle :: below) :
    (∃ upper, next.frames = upper ++ middle :: below ∨ ∃ retType height returned loc,
        middle = .callReturn retType height returned loc ∧
        next.frames = upper ++ .callReturn retType height true loc :: below) ∨
      middle.isBarrier = false ∧ next.frames.length ≤ below.length := by
  rcases stepped with ⟨pushed, scheduled, move, turn, frames, -⟩ | ⟨-, jump⟩
  · refine .inl ⟨scheduled ++ above, .inl ?_⟩
    rw [frames, split, append_assoc]
  · obtain ⟨discarded, kept, released, inside, -, -, frames⟩ := jump.releases
    have length := Jump.length_eq frames
    have keeps (between : List Frame) (same : kept = between ++ middle :: below) :
        ∃ upper, next.frames = upper ++ middle :: below ∨ ∃ retType height returned loc,
            middle = .callReturn retType height returned loc ∧
            next.frames = upper ++ .callReturn retType height true loc :: below := by
      subst kept
      rcases frames with frames | ⟨retType, height, returned, loc, lower, top, frames⟩
      · exact ⟨between, .inl frames⟩
      · cases between with
        | nil =>
          obtain ⟨rfl, rfl⟩ := List.cons.inj top
          exact ⟨[], .inr ⟨retType, height, returned, loc, rfl, frames⟩⟩
        | cons first between =>
          obtain ⟨-, rfl⟩ := List.cons.inj top
          exact ⟨.callReturn retType height true loc :: between, .inl frames⟩
    rw [split] at released
    rcases append_eq_append_iff.mp released with ⟨between, passed, same⟩ | ⟨between, -, same⟩
    · cases between with
      | nil => exact .inl (keeps [] same.symm)
      | cons first between =>
        obtain ⟨rfl, rfl⟩ := List.cons.inj same
        refine .inr ⟨inside middle (by simp [passed]), ?_⟩
        simp [length]
    · exact .inl (keeps between same)

/-- The end of a call and a result that is dropped leave the stack as it is below them. -/
theorem frames_of_isEnding (stepped : Stepped fw frame ctx effect next)
    (ending : frame.isEnding = true) : next.frames = ctx.frames := by
  rcases stepped with ⟨pushed, scheduled, move, turn, frames, -⟩ | ⟨-, jump⟩
  · rw [turn.scheduled_of_isEnding ending] at frames
    exact frames
  · cases jump <;> cases ending

end Stepped

end Breadboard
