import Breadboard.Proofs.Machine.Balance

/-!
The open scopes mirror the stack of frames. Every frame that opened a scope is still on
the stack while the scope is open, in the same order, and whatever takes the frame off
closes the scope.
-/

open List

namespace Breadboard

open Environment Breadboard.Frame

variable {frame : Frame} {fw : Firmware} {ctx next : Context} {effect : Effect}
  (nodes : List NodeId) {height pushed : Nat} {scheduled : List Frame} {move : ScopeMove}

/-- The kind of the scope that is open as long as a frame is on the stack. -/
def Frame.scopeKind? : Frame → Option ScopeKind
  | .callReturn .. => some .function
  | .block _ _ hasScope | .loop _ _ _ hasScope => if hasScope then some .block else none
  | .switch .. => some .block
  | _ => none

theorem Frame.scopeKind?_eq (inside : frame.isBarrier = false) :
    frame.scopeKind? = if frame.ownsScope then some .block else none := by
  cases frame <;> first | rfl | cases inside

def scopeKinds (frames : List Frame) : List ScopeKind := frames.filterMap scopeKind?

@[simp] theorem scopeKinds_nil : scopeKinds [] = [] := rfl

@[simp] theorem scopeKinds_cons (frame : Frame) (frames : List Frame) :
    scopeKinds (frame :: frames) = frame.scopeKind?.toList ++ scopeKinds frames := by
  cases kind : frame.scopeKind? <;> simp [scopeKinds, kind]

@[simp] theorem scopeKinds_append (above below : List Frame) :
    scopeKinds (above ++ below) = scopeKinds above ++ scopeKinds below :=
  filterMap_append

@[simp] theorem scopeKinds_map_eval : scopeKinds (nodes.map .eval) = [] := by
  induction nodes with
  | nil => rfl
  | cons node nodes ih => simpa [scopeKind?] using ih

@[simp] theorem scopeKinds_map_exec : scopeKinds (nodes.map .exec) = [] := by
  induction nodes with
  | nil => rfl
  | cons node nodes ih => simpa [scopeKind?] using ih

def ScopeMove.kinds (before : List ScopeKind) : ScopeMove → List ScopeKind
  | .keep | .declare => before
  | .enter kind => kind :: before
  | .exit => before.tail

theorem Turn.scopeKinds_eq (turn : Turn fw height frame pushed scheduled move) :
    scopeKinds (scheduled ++ rest) = move.kinds (scopeKinds (frame :: rest)) := by
  cases turn with
  | placeIndex _ base | placeMember _ base | placeDeref _ base =>
    rcases base with rfl | rfl <;> rfl
  | _ => simp [scopeKind?, ScopeMove.kinds, entry]

namespace Environment

def floor (env : Environment) : Nat :=
  env.outline.foldl (fun _ scope => scope.2) env.locals.size

theorem popScope_scopes (env : Environment) : env.popScope.scopes = env.scopes.drop 1 := by
  unfold popScope
  cases opened : env.scopes <;> simp [opened]

theorem popScope_floor {env : Environment} (ground : env.floor = 0) : env.popScope.floor = 0 := by
  unfold popScope
  cases opened : env.scopes with
  | nil => exact ground
  | cons scope outer =>
    rw [floor, outline, opened] at ground
    cases outer with
    | nil =>
      have base : scope.localsBase = 0 := ground
      simp [floor, outline, base]
    | cons next outer => exact ground

end Environment

namespace ScopeMove

variable {before after : Environment} {move : ScopeMove}

theorem Relates.kinds_eq (relates : move.Relates before after) :
    after.scopes.map Scope.kind = move.kinds (before.scopes.map Scope.kind) := by
  have kinds (env : Environment) : env.scopes.map Scope.kind = env.outline.map Prod.fst := by
    simp [outline]
  cases move with
  | keep => rw [relates.1, ScopeMove.kinds]
  | declare => rw [kinds, relates.outline, ← kinds, ScopeMove.kinds]
  | enter kind =>
    rw [kinds, relates.outline, ← kinds]
    rfl
  | exit =>
    rw [relates, popScope_scopes, ScopeMove.kinds, map_drop, drop_one]

theorem Relates.floor_eq (relates : move.Relates before after) (ground : before.floor = 0) :
    after.floor = 0 := by
  cases move with
  | keep =>
    obtain ⟨scopes, -, size⟩ := relates
    rwa [floor, outline, scopes, size]
  | declare =>
    rw [floor] at ground ⊢
    rw [relates.outline]
    cases opened : before.outline with rw [opened] at ground
    | nil => rwa [relates.outside (outline_eq_nil.mp opened)]
    | cons scope outer => exact ground
  | enter kind =>
    rw [floor, relates.outline]
    exact ground
  | exit =>
    rw [relates]
    exact popScope_floor ground

end ScopeMove

namespace Environment

variable {frames : List Frame} (env : Environment)

theorem release_cons (frame : Frame) (frames : List Frame) : env.release (frame :: frames) =
      (if frame.ownsScope then env.popScope else env).release frames := rfl

theorem unwind_append (passed : ∀ frame ∈ frames, stop frame = false) (stops : stop middle = true) :
    unwind stop env (frames ++ middle :: below) = (env.release frames, middle :: below) := by
  induction frames generalizing env with
  | nil => simp [unwind, stops, release]
  | cons frame frames ih =>
    obtain ⟨here, within⟩ := forall_mem_cons.mp passed
    rw [cons_append, unwind, here, release_cons]
    exact ih _ within

/-- Frames without calls among them close just the scopes that are theirs. -/
theorem release_scopes (inside : ∀ frame ∈ frames, frame.isBarrier = false) :
    (env.release frames).scopes = env.scopes.drop (scopeKinds frames).length := by
  induction frames generalizing env with
  | nil => rfl
  | cons frame frames ih =>
    have within : ∀ other ∈ frames, other.isBarrier = false :=
      fun other found => inside other (by simp [found])
    have kind := scopeKind?_eq (inside frame (by simp))
    rw [release_cons, ih _ within, scopeKinds_cons, kind]
    cases frame.ownsScope with
    | true => simp [popScope_scopes]
    | false => simp

theorem release_floor {env : Environment} (ground : env.floor = 0) :
    (env.release frames).floor = 0 := by
  induction frames generalizing env with
  | nil => exact ground
  | cons frame frames ih =>
    rw [release_cons]
    refine ih ?_
    split
    · exact popScope_floor ground
    · exact ground

end Environment

/-- The open scopes mirror the frames, and there are no locals outside them. -/
structure Context.Mirrors (ctx : Context) : Prop where
  kinds : ctx.env.scopes.map Scope.kind = scopeKinds ctx.frames
  ground : ctx.env.floor = 0

namespace Jump

variable {fw : Firmware} {ctx next : Context} {frame : Frame}

/-- A jump takes frames off and closes their scopes. A return marks the call that it ends. -/
theorem releases (jump : Jump fw ctx frame next) :
    ∃ discarded kept, ctx.frames = discarded ++ kept ∧
      (∀ other ∈ discarded, other.isBarrier = false) ∧
      next.env = ctx.env.release discarded ∧
      scopeKinds next.frames = scopeKinds kept ∧
      (next.frames = kept ∨ ∃ retType height returned loc below,
        kept = .callReturn retType height returned loc :: below ∧
        next.frames = .callReturn retType height true loc :: below) := by
  cases jump with
  | @breakOut node above below stop kind split passed stops inside =>
    refine ⟨above ++ [stop], below, by simp [split], ?_, rfl, rfl, .inl rfl⟩
    exact forall_mem_append.mpr ⟨fun other found => isBarrier_of_stopsBreak (passed other found),
      forall_mem_singleton.mpr inside⟩
  | @goOn node above below stop kind split passed stops inside =>
    exact ⟨above, stop :: below, split,
      fun other found => isBarrier_of_stopsContinue (passed other found),
      rfl, rfl, .inl rfl⟩
  | leave split passed left =>
    exact ⟨_, _, split, passed, rfl, rfl, .inr ⟨_, _, _, _, _, rfl, rfl⟩⟩

theorem mirrors (jump : Jump fw ctx frame next) (mirrors : ctx.Mirrors) : next.Mirrors := by
  obtain ⟨discarded, kept, split, inside, env, kinds, -⟩ := jump.releases
  refine ⟨?_, ?_⟩
  · rw [env, release_scopes _ inside, map_drop, mirrors.kinds, split, kinds,
      scopeKinds_append, drop_left]
  · rw [env]
    exact release_floor mirrors.ground

end Jump

theorem Turned.mirrors (turned : Turned fw frame ctx effect next)
    (mirrors : Context.Mirrors { ctx with frames := frame :: ctx.frames }) :
    next.Mirrors := by
  obtain ⟨pushed, scheduled, move, turn, frames, -, relates, -⟩ := turned
  refine ⟨?_, relates.floor_eq mirrors.ground⟩
  rw [relates.kinds_eq, mirrors.kinds, frames, turn.scopeKinds_eq]

theorem Turn.isJump_eq_false
    (turn : Turn fw height frame pushed scheduled move) : fw.isJump frame = false := by
  cases turn with
  | expression noJump => exact noJump
  | _ => simp [Firmware.isJump, *]

theorem Stepped.jump (stepped : Stepped fw frame ctx effect next)
    (jumps : fw.isJump frame = true) : Jump fw ctx frame next := by
  rcases stepped with ⟨pushed, scheduled, move, turn, -⟩ | ⟨-, jump⟩
  · rw [turn.isJump_eq_false] at jumps
    cases jumps
  · exact jump

theorem Stepped.mirrors (stepped : Stepped fw frame ctx effect next)
    (mirrors : Context.Mirrors { ctx with frames := frame :: ctx.frames }) :
    next.Mirrors := by
  rcases stepped with turned | ⟨-, jump⟩
  · exact turned.mirrors mirrors
  · refine jump.mirrors ⟨mirrors.kinds.trans ?_, mirrors.ground⟩
    cases jump <;> rfl

end Breadboard
