import Breadboard.Proofs.Machine.Turn
import Breadboard.Proofs.Machine.Twins

/-!
Every step does the same on the two sides of a bridge and keeps its discipline: statements, calls
and jumps come to the expressions. A step either closes scopes or opens and fills them, never both,
and few steps declare or write variables. So a discipline is kept by the steps that do only what it
respects.
-/

open List

namespace Breadboard

def Firmware.closes (fw : Firmware) : Frame → Bool
  | .block .. | .loop .. | .switch .. | .callReturn .. => true
  | frame => fw.isJump frame

def Firmware.declares (fw : Firmware) : Frame → Bool
  | .exec node =>
    match fw.program.kind node with
    | .varDecl .. => true
    | _ => false
  | .program _ | .declare _ | .construct _ | .call .. => true
  | _ => false

def Frame.writes : Frame → Bool
  | .incDec _ | .assign _ | .compoundAssign _ => true
  | _ => false

def Frame.looksUp : Frame → Bool
  | .eval _ | .evalPlace _ => true
  | _ => false

namespace Act

variable {ctx twin : Context} {frame : Frame} {decl : Variable} {loc : Location} (node : NodeId)

open Bridge

variable {fw : Firmware} {br : Bridge fw} {partway : Bool}

/-! Statements, which are the same on both sides. -/

section

variable (declares : br.discipline.Declares)
include declares

theorem alike_declareStatic (fitting : br.discipline.stored decl.type decl.value) :
    br.Alike partway (declareStatic node decl loc) (declareStatic node decl loc) := by
  refine twins_environment.bind fun env memory => ?_
  refine (alike_setEnvironment (declares.declareStatic node memory fitting)).bind fun _ _ => ?_
  exact twins_attemptMemory (br.near_refl _) fun _ _ => trivial

theorem alike_declareIn (fitting : br.discipline.stored decl.type decl.value) :
    br.Alike partway (declareIn decl loc) (declareIn decl loc) := by
  refine twins_environment.bind fun env memory => ?_
  refine (twins_attemptMemory (br.near_refl _) fun res done =>
    declares.declare memory fitting done).bind fun res kept => ?_
  exact (alike_setEnvironment kept).returning trivial

theorem twins_declareVariable (operand : ∀ value, init = some value → br.discipline.operand value) :
    br.Twins partway Effect.Reports (declareVariable fw node init)
      (declareVariable fw node init) := by
  have here := br.near_refl (fw.program.location node)
  unfold declareVariable
  dsimp only
  split
  · rename_i name type _ isStatic isVolatile _
    have allocated {value : Value} (fitting : br.discipline.stored type value)
        {report : Cell → Act Effect}
        (reports : ∀ cell, br.Twins partway Effect.Reports (report cell) (report cell)) :
        let act := if isStatic = true then
          declareStatic node ⟨name, type.sizedBy value, value, isStatic, isVolatile⟩
            (fw.program.location node) >>= report
        else
          declareIn ⟨name, type.sizedBy value, value, isStatic, isVolatile⟩
            (fw.program.location node) >>= report
        br.Twins partway Effect.Reports act act := by
      intro act
      unfold act
      have sized := br.discipline.sized fitting
      split
      · exact (alike_declareStatic node declares sized).bind fun cell _ => reports cell
      · exact (alike_declareIn declares sized).bind fun cell _ => reports cell
    refine twins_environment.bind fun env memory => ?_
    split
    · rename_i cell known
      have static : env.staticCell? node = some cell := by
        split at known
        · exact known
        · cases known
      refine (twins_attemptMemory here fun next bound =>
        declares.rebind memory static bound).bind fun next kept => ?_
      exact (alike_setEnvironment kept).returning trivial
    · cases init with
      | none =>
        simp only [pure_bind]
        exact allocated (br.discipline.default type) fun _ => twins_pure trivial
      | some given =>
        refine (twins_convert here (operand given rfl)).bind fun value fitting => ?_
        exact allocated fitting fun cell => twins_varSet
  · exact twins_raise here

theorem twins_constructObject :
    br.Twins partway Effect.Reports (constructObject fw node) (constructObject fw node) := by
  unfold constructObject
  dsimp only
  split
  · rename_i name className args _
    refine (twins_popMany (br.near_refl _)).bind fun values _ => ?_
    refine (alike_declareIn declares (br.discipline.object className name)).bind fun cell _ => ?_
    exact twins_environment.bind fun _ _ => twins_pure rfl
  · exact twins_raise (br.near_refl _)

end

theorem alike_runBranch : br.Alike false (runBranch fw node) (runBranch fw node) := by
  have here := br.near_refl (fw.program.location node)
  unfold runBranch
  dsimp only
  split
  · refine (twins_pop here).bind fun value _ => (alike_truth here).bind fun holds _ => ?_
    split
    · exact alike_scheduleSame rfl
    · exact alike_scheduleSame (by simp [Function.comp_def, Frame.raise])
  · exact twins_raise here

theorem alike_startBody (parts : LoopParts) (iters : Nat) (hasScope : Bool) (loc : Location) :
    br.Alike false (startBody fw node parts iters hasScope loc)
      (startBody fw node parts iters hasScope loc) := by
  unfold startBody
  dsimp only
  split
  · split
    · exact twins_raise (br.near_refl _)
    · exact alike_scheduleSame rfl
  · exact alike_scheduleSame rfl

theorem alike_runSwitchSelect (opens : br.discipline.Opens) :
    br.Alike false (runSwitchSelect fw node) (runSwitchSelect fw node) := by
  have here := br.near_refl (fw.program.location node)
  unfold runSwitchSelect
  dsimp only
  split
  · refine (twins_pop here).bind fun value _ => ?_
    split
    · exact twins_raise here
    · refine twins_environment.bind fun env _ => ?_
      split
      · exact twins_throw rfl (br.near_refl _)
      · exact twins_pure trivial
      · exact (alike_openScope opens).bind fun _ _ => alike_scheduleSame rfl
  · exact twins_raise here

section

variable (closes : br.discipline.Closes)
include closes

theorem alike_runBlock (next : Nat) (hasScope : Bool) :
    br.Alike false (runBlock fw node next hasScope) (runBlock fw node next hasScope) := by
  unfold runBlock
  split
  · split
    · exact alike_scheduleSame rfl
    · split
      · exact alike_closeScope closes
      · exact twins_pure trivial
  · exact twins_pure trivial

theorem alike_runLoop (phase : LoopPhase) (iters : Nat) (hasScope : Bool) :
    br.Alike false (runLoop fw node phase iters hasScope)
      (runLoop fw node phase iters hasScope) := by
  have here := br.near_refl (fw.program.location node)
  unfold runLoop
  dsimp only
  split
  · exact twins_raise here
  · cases phase with
    | cond =>
      dsimp only
      split
      · exact alike_scheduleSame rfl
      · -- The operand comes after the frame, but nothing can fail between the two.
        intro ctx twin joins
        refine (alike_scheduleSame rfl ctx twin joins).bindAt ?_
        rintro _ _ _ - - ⟨holds, env, random, values, frames⟩ -
        exact ⟨rfl, trivial, ⟨holds.memory, forall_mem_cons.mpr
          ⟨br.discipline.bare rfl, holds.operands⟩, nofun⟩, env, random,
          congrArg (.bool true :: ·) values, frames⟩
    | test =>
      refine (twins_pop here).bind fun value _ => (alike_truth here).bind fun holds _ => ?_
      split
      · exact alike_startBody node _ iters hasScope _
      · split
        · exact alike_closeScope closes
        · exact twins_pure trivial
    | body => exact alike_startBody node _ iters hasScope _
    | advance =>
      dsimp only
      split <;> exact alike_scheduleSame rfl

theorem alike_runSwitch (arm next : Nat) :
    br.Alike false (runSwitch fw node arm next) (runSwitch fw node arm next) := by
  unfold runSwitch
  split
  · split
    · exact alike_closeScope closes
    · split <;> exact alike_scheduleSame rfl
  · exact twins_pure trivial

end

/-! Calls. -/

section Calls

variable {loc loc' : Location} (close : br.near loc loc') {args : List Value}
include close

theorem alike_bindParameters (declares : br.discipline.Declares)
    (opds : ∀ value ∈ args, br.discipline.operand value) :
    br.Alike partway (bindParameters fw loc params args) (bindParameters fw loc' params args) := by
  induction params generalizing args with
  | nil => exact twins_pure trivial
  | cons param params ih =>
    cases args with
    | nil => exact twins_pure trivial
    | cons arg args =>
      rw [forall_mem_cons] at opds
      refine (twins_convert close opds.1).bind fun value fitting => ?_
      refine twins_environment.bind fun env memory => ?_
      refine (twins_attemptMemory close fun res done =>
        declares.declare memory fitting done).bind fun res kept => ?_
      exact (alike_setEnvironment kept).bind fun _ _ => ih opds.2

/-- A call notes how many operands lie below it, which are more on the second side. -/
theorem alike_enterFunction (opens : br.discipline.Opens) (declares : br.discipline.Declares)
    (opds : ∀ value ∈ args, br.discipline.operand value) :
    br.Alike false (enterFunction fw fn args loc) (enterFunction fw fn args loc') := by
  unfold enterFunction
  split
  · split
    · exact twins_raise close
    · rename_i params retType body _ _
      refine (alike_openScope opens).bind fun _ _ ctx copy joins => ?_
      have height : copy.values.length = ctx.values.length + br.values.length := by
        rw [joins.values, length_append]
      have entered : br.Alike false (do
          schedule [.callReturn retType ctx.values.length false loc]
          bindParameters fw loc params args
          schedule [.block body 0 false] : Act Unit) (do
          schedule [.callReturn retType copy.values.length false loc']
          bindParameters fw loc' params args
          schedule [.block body 0 false]) := by
        rw [height]
        refine (alike_scheduleNodeless rfl (.callReturn _ _ _ close)).bind fun _ _ => ?_
        exact (alike_bindParameters close declares opds).bind fun _ _ => alike_scheduleSame rfl
      exact entered ctx copy joins
  · exact twins_raise close

theorem alike_finishCall (closes : br.discipline.Closes) :
    br.Alike partway (finishCall fw retType height returned loc)
      (finishCall fw retType (height + br.values.length) returned loc') := by
  have finished (value : Value) (operand : br.discipline.operand value) :
      br.Alike partway (do
        truncate height
        closeScope
        push (← convert fw value retType loc) : Act Unit) (do
        truncate (height + br.values.length)
        closeScope
        push (← convert fw value retType loc')) := by
    refine (alike_truncate height).bind fun _ _ => (alike_closeScope closes).bind fun _ _ => ?_
    exact (twins_convert close operand).bind fun _ fitting =>
      alike_push (br.discipline.operand_of_stored fitting)
  cases returned with
  | true => exact (twins_pop close).bind finished
  | false => exact finished _ (br.discipline.operand_of_stored (br.discipline.default _))

end Calls

/-! The driver. -/

theorem alike_callMain (opens : br.discipline.Opens) (declares : br.discipline.Declares)
    (fn : NodeId) : br.Alike false (callMain fw fn) (callMain fw fn) :=
  (alike_scheduleNodeless rfl (.statement rfl)).bind fun _ _ =>
    alike_enterFunction (br.near_refl _) opens declares (forall_mem_nil _)

theorem twins_runProgram (opens : br.discipline.Opens)
    (declares : br.discipline.Declares) (phase : ProgramPhase) :
    br.Twins false Effect.Reports (runProgram fw phase) (runProgram fw phase) := by
  cases phase with
  | globals next =>
    simp only [runProgram]
    split <;> exact (alike_scheduleSame rfl).returning trivial
  | setup =>
    refine (alike_scheduleNodeless rfl (.program _)).bind fun _ _ => ?_
    split
    · exact (alike_callMain opens declares _).returning trivial
    · exact twins_pure trivial
  | loop completed =>
    simp only [runProgram]
    split
    · exact twins_pure trivial
    · split
      · exact twins_pure trivial
      · refine (alike_scheduleNodeless rfl (.program _)).bind fun _ _ => ?_
        exact (alike_callMain opens declares _).returning trivial

/-! Jumps. Where a barrier lies among the frames of a context, no jump gets below them. -/

theorem unwind_matched (closes : br.discipline.Closes)
    (same : ∀ frame twin, br.Matches frame twin → stop twin = stop frame)
    {frames above : List Frame} (matched : List.Forall₂ br.Matches frames above)
    (found : br.frames ≠ [] → ∃ frame ∈ frames, stop frame = true)
    (memory : br.discipline.memory env) :
    ∃ released rest rest', unwind stop env frames = (released, rest) ∧
      unwind stop env (above ++ br.frames) = (released, rest' ++ br.frames) ∧
      br.discipline.memory released ∧ rest <:+ frames ∧
      List.Forall₂ br.Matches rest rest' ∧ (br.frames ≠ [] → rest ≠ []) := by
  induction matched generalizing env with
  | nil =>
    by_cases bottom : br.frames = []
    · exact ⟨env, [], [], rfl, by simp [bottom, unwind], memory, suffix_rfl, .nil,
        absurd bottom⟩
    · simp [bottom] at found
  | @cons frame twin frames above first rest ih =>
    simp only [cons_append, unwind, same _ _ first, first.ownsScope_eq]
    split
    · exact ⟨env, _, _, rfl, rfl, memory, suffix_rfl, .cons first rest,
        fun _ => cons_ne_nil _ _⟩
    · rename_i passed
      have released : br.discipline.memory (if frame.ownsScope then env.popScope else env) := by
        split
        · exact closes env memory
        · exact memory
      have below (bottom : br.frames ≠ []) : ∃ frame ∈ frames, stop frame = true := by
        obtain ⟨other, among, stops⟩ := found bottom
        rcases mem_cons.mp among with rfl | among
        · exact absurd stops passed
        · exact ⟨other, among, stops⟩
      obtain ⟨env, left, left', unwound, unwound', memory, part, matched, some⟩ := ih below released
      exact ⟨env, left, left', unwound, unwound', memory, part.trans (suffix_cons _ _),
        matched, some⟩

section Jumps

variable {ctx twin : Context} (closes : br.discipline.Closes) (joins : br.Joins true ctx twin)
  (inside : br.frames ≠ [] → ∃ frame ∈ ctx.frames, frame.isBarrier = true)
include closes joins

include inside in
theorem twinsAt_unwindTo {next : Option Frame → Act Unit}
    (same : ∀ frame twin, br.Matches frame twin → stop twin = stop frame)
    (stops : ∀ frame, stop frame = false → frame.isBarrier = false)
    (fails : br.Alike partway (next none) (next none))
    (goesOn : ∀ reached reached' frame frame' rest rest', br.Joins true reached reached' →
      reached.frames = frame :: rest → reached'.frames = frame' :: (rest' ++ br.frames) →
      br.Matches frame frame' → List.Forall₂ br.Matches rest rest' →
      br.TwinsAt partway (fun _ => True) reached reached' (next (some frame))
        (next (some frame'))) : br.TwinsAt partway (fun _ => True) ctx twin (unwindTo stop >>= next)
      (unwindTo stop >>= next) := by
  obtain ⟨above, matched, stack⟩ := joins.frames
  have found (bottom : br.frames ≠ []) : ∃ frame ∈ ctx.frames, stop frame = true :=
    (inside bottom).imp fun frame => And.imp_right fun barrier =>
      eq_true_of_ne_false fun passed => Bool.false_ne_true ((stops frame passed).symm.trans barrier)
  obtain ⟨env, rest, rest', unwound, unwound', memory, part, left, some⟩ :=
    unwind_matched closes same matched found joins.holds.memory
  have reached : br.Joins true { ctx with env, frames := rest }
      { twin with env, frames := rest' ++ br.frames } := by
    refine ⟨⟨memory, joins.holds.operands, fun _ frame among => ?_⟩, rfl, joins.random,
      joins.values, rest', left, rfl⟩
    exact joins.holds.frames rfl frame (part.subset among)
  rw [← joins.env, ← stack] at unwound'
  simp only [TwinsAt, Bind.bind, EStateM.bind, unwindTo_eq unwound, unwindTo_eq unwound']
  cases left with
  | nil =>
    have bottom : br.frames = [] := Classical.not_not.mp fun bottom => some bottom rfl
    rw [nil_append, bottom] at reached ⊢
    exact fails _ _ reached
  | cons first below => exact goesOn _ _ _ _ _ _ reached rfl rfl first below

theorem twinsAt_release (top : ctx.frames = frame :: rest)
    (top' : twin.frames = frame' :: (rest' ++ br.frames)) (first : br.Matches frame frame')
    (below : List.Forall₂ br.Matches rest rest') :
    br.TwinsAt partway (fun _ => True) ctx twin release release := by
  intro _
  have memory : br.discipline.memory (if frame.ownsScope then ctx.env.popScope else ctx.env) := by
    split
    · exact closes _ joins.holds.memory
    · exact joins.holds.memory
  have frames := joins.holds.frames rfl
  rw [top, forall_mem_cons] at frames
  rw [release_eq top, release_eq top', first.ownsScope_eq, joins.env]
  exact ⟨rfl, trivial, ⟨memory, joins.holds.operands, fun _ => frames.2⟩, rfl, joins.random,
    joins.values, _, below, rfl⟩

include inside

theorem twinsAt_breakLoop (loc : Location) :
    br.TwinsAt partway (fun _ => True) ctx twin (breakLoop loc) (breakLoop loc) := by
  have failed : br.Alike partway (unsupported .breakOutsideLoop loc : Act Unit) _ :=
    twins_raise (br.near_refl _)
  refine twinsAt_unwindTo closes joins inside (fun _ _ => Matches.stopsBreak_eq)
    (fun _ => Frame.isBarrier_of_stopsBreak) failed
    fun reached reached' frame frame' rest rest' joins top top' first below => ?_
  cases frame with
  | loop | switch =>
    cases first
    exact twinsAt_release closes joins top top' (.statement rfl) below
  | _ => cases first <;> exact failed reached reached' joins

theorem twinsAt_continueLoop (loc : Location) :
    br.TwinsAt partway (fun _ => True) ctx twin (continueLoop loc) (continueLoop loc) := by
  have failed : br.Alike partway (unsupported .continueOutsideLoop loc : Act Unit) _ :=
    twins_raise (br.near_refl _)
  refine twinsAt_unwindTo closes joins inside (fun _ _ => Matches.stopsContinue_eq)
    (fun _ => Frame.isBarrier_of_stopsContinue) failed
    fun reached reached' frame frame' rest rest' joins _ _ first _ => ?_
  cases frame with
  | loop =>
    cases first
    exact twins_pure trivial reached reached' joins
  | _ => cases first <;> exact failed reached reached' joins

theorem twinsAt_returnValue (operand : br.discipline.operand value) (loc : Location) :
    br.TwinsAt partway (fun _ => True) ctx twin (returnValue value loc)
      (returnValue value loc) := by
  have failed : br.Alike partway (unsupported .returnOutsideFunction loc : Act Unit) _ :=
    twins_raise (br.near_refl _)
  refine twinsAt_unwindTo closes joins inside (fun _ _ => Matches.isBarrier_eq) (fun _ => id) failed
    fun reached reached' frame frame' rest rest' joins top top' first below => ?_
  cases first with
  | callReturn retType height returned close =>
    obtain ⟨_, _, _, _⟩ := reached
    obtain ⟨_, _, _, _⟩ := reached'
    cases top
    cases top'
    have cut : br.Alike true (truncate height) _ := alike_truncate height
    obtain ⟨-, -, holds, env, random, values, -⟩ := cut _ _ joins fun _ => id
    refine fun _ => ⟨rfl, trivial, ⟨holds.memory, forall_mem_cons.mpr ⟨operand, holds.operands⟩,
      fun _ => forall_mem_cons.mpr ⟨br.discipline.nodeless rfl, ?_⟩⟩, env, random,
      congrArg (value :: ·) values, _, .cons (.callReturn _ _ _ close) below, rfl⟩
    exact (forall_mem_cons.mp (holds.frames rfl)).2
  | statement isStatement => cases frame <;> first | exact failed _ _ joins | cases isStatement
  | _ => exact failed _ _ joins

theorem twinsAt_leaveFunction : br.TwinsAt partway (fun _ => True) ctx twin (leaveFunction fw node)
      (leaveFunction fw node) := by
  unfold leaveFunction
  dsimp only
  split
  · refine (twins_pop (br.near_refl _) ctx twin joins).bindAt
      fun value reached _ popped operand joins => twinsAt_returnValue closes joins ?_ operand _
    cases opds : ctx.values with
    | nil =>
      rw [pop_nil opds] at popped
      cases popped
    | cons =>
      rw [pop_cons opds] at popped
      cases popped
      exact inside
  · exact twinsAt_returnValue closes joins inside (br.discipline.bare rfl) _

end Jumps

theorem twinsAt_exec (joins : br.Joins true ctx twin)
    (opens : fw.isJump (.exec node) = false → br.discipline.Opens)
    (declares : fw.declares (.exec node) = true → br.discipline.Declares)
    (closes : fw.isJump (.exec node) = true → br.discipline.Closes)
    (inside : br.frames ≠ [] → ∃ frame ∈ ctx.frames, frame.isBarrier = true) :
    br.TwinsAt false Effect.Reports ctx twin (exec fw node) (exec fw node) := by
  have scheduled {frames : List Frame}
      (plain : frames.map (Frame.raise br.values.length) = frames) :
      br.Twins false Effect.Reports (do schedule frames; pure .quiet : Act Effect) _ :=
    (alike_scheduleSame plain).returning trivial
  simp only [Firmware.isJump] at opens closes
  simp only [Firmware.declares] at declares
  unfold exec
  dsimp only
  cases kind : fw.program.kind node with
  | block => exact (alike_openScope (opens (by rw [kind]))).bind (fun _ _ => scheduled rfl) _ _ joins
  | forLoop =>
    exact (alike_openScope (opens (by rw [kind]))).bind
      (fun _ _ => scheduled (by simp [Function.comp_def, Frame.raise])) _ _ joins
  | varDecl name type init isStatic isVolatile =>
    have decl : br.Twins false Effect.Reports (declareVariable fw node none) _ :=
      twins_declareVariable node (declares (by rw [kind])) (by rintro _ ⟨⟩)
    refine .environment joins ?_
    cases init with
    | none => exact decl _ _ joins
    | some expr =>
      dsimp only
      split
      · exact decl _ _ joins
      · exact scheduled rfl _ _ joins
  | objectDecl | declGroup | returnStmt =>
    exact scheduled (by simp [Function.comp_def, Frame.raise]) _ _ joins
  | breakStmt =>
    exact (twinsAt_breakLoop (closes (by rw [kind])) joins inside _).returning trivial
  | continueStmt =>
    exact (twinsAt_continueLoop (closes (by rw [kind])) joins inside _).returning trivial
  | empty => exact twins_pure trivial _ _ joins
  | functionDef | structDef => exact twins_raise (br.near_refl _) _ _ joins
  | _ => exact scheduled rfl _ _ joins

/-! All frames. -/

/-- A step does the same at frames that match, and keeps a discipline that respects what its frame
does to memory. -/
theorem runFrame_twins (matched : br.Matches frame frame') (joins : br.Joins true ctx twin)
    (opens : fw.closes frame = false → br.discipline.Opens)
    (declares : fw.declares frame = true → br.discipline.Declares)
    (writes : frame.writes = true → br.discipline.Writes)
    (closes : fw.closes frame = true → br.discipline.Closes)
    (sees : frame.looksUp = true → br.discipline.Sees ctx.env)
    (called : frame.isStatement = true → br.frames ≠ [] →
      ∃ other ∈ ctx.frames, other.isBarrier = true)
    (enough : br.values ≠ [] → fw.pops frame ≤ ctx.values.length) :
    br.TwinsAt false Effect.Reports ctx twin (runFrame fw frame) (runFrame fw frame') := by
  have quietly {act act' : Act Unit} (twins : br.Alike false act act') :
      br.TwinsAt false Effect.Reports ctx twin (do act; pure .quiet : Act Effect)
        (do act'; pure .quiet) :=
    (twins ctx twin joins).returning trivial
  cases matched with
  | program phase => exact twins_runProgram (opens rfl) (declares rfl) phase _ _ joins
  | call fn argc close =>
    exact (twins_popMany close).bind (fun args opds => (alike_enterFunction close (opens rfl)
      (declares rfl) opds).returning trivial) _ _ joins
  | callReturn _ _ _ close => exact quietly (alike_finishCall close (closes rfl))
  | collect =>
    exact (twins_popMany (br.near_refl _)).bind (fun items opds =>
      (alike_push (br.discipline.array opds)).returning trivial) _ _ joins
  | builtin one => exact twins_runCallFrame one _ _ joins
  | method one => exact twins_runMethodFrame one _ _ joins
  | eval one => exact (twinsAt_eval joins (sees rfl) one).returning trivial
  | evalPlace one => exact (twinsAt_evalPlace joins (sees rfl) one).returning trivial
  | load one => exact quietly (alike_runLoad one)
  | binary one => exact quietly (alike_runBinary one)
  | logical isRight one => exact quietly (alike_runLogical one isRight)
  | unary one => exact quietly (alike_runUnary one)
  | incDec one => exact twins_runIncDec one (writes rfl) _ _ joins
  | select one => exact quietly (alike_runSelect one)
  | assign one => exact twins_runAssign one (writes rfl) _ _ joins
  | compoundAssign one => exact twins_runCompoundAssign one (writes rfl) _ _ joins
  | cast one => exact quietly (alike_runCast one)
  | indexPlace fromPlace one => exact quietly (alike_runIndexPlace one fromPlace)
  | fieldPlace one => exact quietly (alike_runFieldPlace one)
  | derefPlace fromPlace one => exact quietly (alike_runDerefPlace one fromPlace)
  | statement isStatement =>
    have inside := called isStatement
    cases frame with
    | exec node => exact twinsAt_exec node joins opens declares closes inside
    | leave node => exact (twinsAt_leaveFunction node (closes rfl) joins inside).returning trivial
    | discard => exact (twinsAt_drop joins enough).returning trivial
    | declare node =>
      refine (twins_pop (br.near_refl _) ctx twin joins).bind fun value operand => ?_
      refine twins_declareVariable node (declares rfl) ?_
      rintro _ ⟨rfl⟩
      exact operand
    | construct node => exact twins_constructObject node (declares rfl) _ _ joins
    | block node next hasScope => exact quietly (alike_runBlock node (closes rfl) next hasScope)
    | branch node => exact quietly (alike_runBranch node)
    | loop node phase iters hasScope =>
      exact quietly (alike_runLoop node (closes rfl) phase iters hasScope)
    | switchSelect node => exact quietly (alike_runSwitchSelect node (opens rfl))
    | switch node arm next => exact quietly (alike_runSwitch node (closes rfl) arm next)
    | _ => cases isStatement

variable {disc : Discipline fw}

/-- A step keeps a discipline that respects what its frame does to memory. -/
theorem keepsAt_runFrame_of_kind (frame : Frame) (opens : fw.closes frame = false → disc.Opens)
    (declares : fw.declares frame = true → disc.Declares)
    (writes : frame.writes = true → disc.Writes) (closes : fw.closes frame = true → disc.Closes)
    (holds : disc.Holds true ctx) (sees : frame.looksUp = true → disc.Sees ctx.env) :
    (runFrame fw frame).KeepsAt disc false ctx Effect.Reports := by
  have pairs := runFrame_twins (matches_self rfl frame) (joins_self holds) opens declares writes
    closes sees (fun _ bottom => absurd rfl bottom) (absurd rfl) (absurd rfl)
  unfold KeepsAt Meets
  cases out : runFrame fw frame ctx with rw [out] at pairs
  | ok effect final => exact ⟨pairs.2.1, pairs.2.2.holds⟩
  | error fault final => exact pairs.2.2.holds

theorem meets_memory (memory : Environment → Prop) (frame : Frame)
    (opens : fw.closes frame = false → (Discipline.ofMemory fw memory).Opens)
    (declares : fw.declares frame = true → (Discipline.ofMemory fw memory).Declares)
    (writes : frame.writes = true → (Discipline.ofMemory fw memory).Writes)
    (closes : fw.closes frame = true → (Discipline.ofMemory fw memory).Closes)
    (holds : memory ctx.env) : (runFrame fw frame).Meets ctx
      (fun _ next => memory next.env) fun _ final => memory final.env := by
  have keeps := keepsAt_runFrame_of_kind frame opens declares writes closes
    ⟨holds, fun _ _ => trivial, fun _ _ _ => trivial⟩ fun _ _ _ _ => trivial
  exact keeps.weaken (fun _ _ kept => kept.2.memory) fun _ _ kept => kept.memory

theorem closes_eq_false_of_declares (declares : fw.declares frame = true) :
    fw.closes frame = false := by
  cases frame with
  | exec node =>
    simp only [Firmware.declares] at declares
    simp only [Firmware.closes, Firmware.isJump]
    cases kind : fw.program.kind node with
    | varDecl => rfl
    | _ => simp [kind] at declares
  | program | declare | construct | call => rfl
  | _ => cases declares

theorem closes_eq_false_of_writes (writes : frame.writes = true) : fw.closes frame = false := by
  cases frame with
  | incDec | assign | compoundAssign => rfl
  | _ => cases writes

theorem keepsAt_runFrame (frame : Frame) (grows : fw.closes frame = false → disc.Grows)
    (closes : fw.closes frame = true → disc.Closes) (holds : disc.Holds true ctx)
    (sees : frame.looksUp = true → disc.Sees ctx.env) :
    (runFrame fw frame).KeepsAt disc false ctx Effect.Reports := by
  refine keepsAt_runFrame_of_kind frame (fun stays => (grows stays).toOpens) ?_ ?_ closes holds sees
  · exact fun declares => (grows (closes_eq_false_of_declares declares)).toDeclares
  · exact fun writes => (grows (closes_eq_false_of_writes writes)).toWrites

end Act

end Breadboard
