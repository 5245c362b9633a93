import Breadboard.Proofs.Machine.Rest
import Breadboard.Proofs.Session.Reach

/-!
The driver of a sketch. It declares what stands at top level, calls `setup` and then calls `loop`
as often as it may. All that it will do is known before the run, as a plan; the frames at the
bottom of the stack say how much of the plan is still ahead. So what the driver has done is at
every step a first part of the plan, and a run that is complete has done all of it.
-/

open List

namespace Breadboard

open Act

/-- What the driver does: it runs a declaration, enters a function, and goes on when a function
that it has entered returns. -/
inductive DriverEvent where
  | declares (item : NodeId)
  | setup (body : NodeId)
  | loop (body : NodeId)
  | returns
  deriving DecidableEq

def DriverEvent.entersLoop : DriverEvent → Bool
  | .loop _ => true
  | _ => false

/-- What the driver does in a step at a frame that lies on `rest` and leads to the frames
`next`. A call returns to the driver if only its result is left to drop. -/
def Frame.driverEvent? (frame : Frame) (rest next : List Frame) : Option DriverEvent :=
  match frame with
  | .program phase =>
    match next with
    | .exec item :: _ => some (.declares item)
    | .block body _ _ :: _ =>
      match phase with
      | .globals _ => none
      | .setup => some (.setup body)
      | .loop _ => some (.loop body)
    | _ => none
  | .callReturn .. =>
    match rest with
    | [.discard, .program (.loop _)] => some .returns
    | _ => none
  | _ => none

namespace Program

variable {prog : Program}

def globalsFrom (prog : Program) (next : Nat) : List NodeId :=
  (prog.items.drop next).filter fun item => (prog.kind item).isGlobal

def body? (prog : Program) (name : String) : Option NodeId :=
  (prog.function? name).bind fun fn =>
    match prog.kind fn with
    | .functionDef _ _ _ body => some body
    | _ => none

theorem body?_eq_none (missing : prog.function? name = none) : prog.body? name = none := by
  rw [body?, missing, Option.bind_none]

theorem body?_eq_some (found : prog.function? name = some fn)
    (kind : prog.kind fn = .functionDef own params retType body) : prog.body? name = some body := by
  rw [body?, found, Option.bind_some, kind]

theorem body?_isSome (prog : Program) (name : String) :
    (prog.body? name).isSome = (prog.function? name).isSome := by
  cases found : prog.function? name with
  | none => rw [body?_eq_none found]
  | some fn =>
    obtain ⟨own, params, retType, body, kind⟩ := function?_kind found
    rw [body?_eq_some found kind]
    rfl

theorem globalsFrom_of_nextGlobal? {next after : Nat}
    (found : prog.nextGlobal? next = some (item, after)) :
    prog.globalsFrom next = item :: prog.globalsFrom after := by
  obtain ⟨⟨entry, index⟩, search, same⟩ := Option.map_eq_some_iff.mp found
  cases same
  obtain ⟨global, before, later, split, skipped⟩ := List.find?_eq_some_iff_append.mp search
  have items : prog.items.drop next = before.map Prod.fst ++ item :: later.map Prod.fst := by
    have firsts := congrArg (List.map Prod.fst) split
    rwa [map_drop, zipIdx_map_fst, map_append, map_cons] at firsts
  have place : next + before.length = index := by
    have there := congrArg (fun entries => entries[before.length]?) split
    simp only [List.getElem?_drop, List.getElem?_zipIdx,
      List.getElem?_append_right (Nat.le_refl _), Nat.sub_self, List.getElem?_cons_zero,
      Option.map_eq_some_iff, Prod.mk.injEq, Nat.zero_add] at there
    obtain ⟨-, -, -, pos⟩ := there
    exact pos
  have behind : prog.items.drop (index + 1) = later.map Prod.fst := by
    have long : (before.map Prod.fst).length = before.length := length_map _
    rw [← place, Nat.add_assoc, ← drop_drop, items, ← long, drop_length_add_append]
    rfl
  have skips : (before.map Prod.fst).filter (fun item => (prog.kind item).isGlobal) = [] := by
    rw [filter_eq_nil_iff]
    intro other inside
    obtain ⟨entry, member, rfl⟩ := mem_map.mp inside
    simpa using skipped entry member
  rw [globalsFrom, globalsFrom, items, behind, filter_append, skips, nil_append]
  exact filter_cons_of_pos global

theorem globalsFrom_eq_nil {next} (found : prog.nextGlobal? next = none) :
    prog.globalsFrom next = [] := by
  have search := List.find?_eq_none.mp (Option.map_eq_none_iff.mp found)
  rw [globalsFrom, filter_eq_nil_iff, ← zipIdx_map_fst 0 prog.items, ← map_drop]
  intro other inside
  obtain ⟨entry, member, rfl⟩ := mem_map.mp inside
  exact search entry member

end Program

namespace Firmware

variable (fw : Firmware) {name : String} {completed : Nat}

/-- What the driver does for a call of one of its functions, if the sketch defines it. -/
def mainCall (enter : NodeId → DriverEvent) (name : String) : List DriverEvent :=
  match fw.program.body? name with
  | some body => [enter body, .returns]
  | none => []

/-- The calls of the loop function after the first `completed` ones. -/
def loopCalls (completed : Nat) : List DriverEvent :=
  (List.replicate (fw.config.maxLoopIterations - completed)
    (fw.mainCall .loop "loop")).flatten

def planFrom : ProgramPhase → List DriverEvent
  | .globals next => (fw.program.globalsFrom next).map .declares ++
      (fw.mainCall .setup "setup" ++ fw.loopCalls 0)
  | .setup => fw.mainCall .setup "setup" ++ fw.loopCalls 0
  | .loop completed => fw.loopCalls completed

def plan : List DriverEvent := fw.planFrom (.globals 0)

def Allows : ProgramPhase → Prop
  | .loop completed => completed ≤ fw.config.maxLoopIterations
  | _ => True

/-- How much of the plan is ahead when the frames are left to run. Whatever lies above the
driver, or above a call that it has made, belongs to what it has begun. -/
inductive Ahead : List Frame → List DriverEvent → Prop where
  | driver : fw.Allows phase → Ahead [.program phase] (fw.planFrom phase)
  | declaring (above : List Frame) (next : Nat) :
      Ahead (above ++ [.program (.globals next)]) (fw.planFrom (.globals next))
  | calling (above : List Frame) (retType : DataType) (height : Nat) (returned : Bool)
      (loc : Location) {completed} : fw.Allows (.loop completed) →
      Ahead (above ++ [.callReturn retType height returned loc, .discard,
        .program (.loop completed)]) (.returns :: fw.loopCalls completed)
  | called {completed : Nat} : fw.Allows (.loop completed) →
      Ahead [.discard, .program (.loop completed)] (fw.loopCalls completed)
  | nothing : fw.program.function? "loop" = none → Ahead [] []

variable {fw} {ctx next : Context} {frame : Frame} {rest : List Frame}
  {effect : Effect} {ahead : List DriverEvent}

theorem mainCall_of_missing
    (missing : fw.program.function? name = none) : fw.mainCall enter name = [] := by
  rw [mainCall, Program.body?_eq_none missing]

theorem mainCall_of_found (found : fw.program.function? name = some fn)
    (kind : fw.program.kind fn = .functionDef own params retType body) :
    fw.mainCall enter name = [enter body, .returns] := by
  rw [mainCall, Program.body?_eq_some found kind]

theorem loopCalls_of_missing (missing : fw.program.function? "loop" = none)
    (completed : Nat) : fw.loopCalls completed = [] := by
  simp [loopCalls, mainCall_of_missing missing]

theorem loopCalls_of_limit (limit : fw.config.maxLoopIterations ≤ completed) :
    fw.loopCalls completed = [] := by
  rw [loopCalls, Nat.sub_eq_zero_of_le limit]
  rfl

theorem loopCalls_of_lt (under : completed < fw.config.maxLoopIterations) : fw.loopCalls completed =
      fw.mainCall .loop "loop" ++ fw.loopCalls (completed + 1) := by
  rw [loopCalls, loopCalls, ← flatten_cons, ← replicate_succ]
  congr 2
  omega

theorem countP_mainCall_setup (fw : Firmware) :
    (fw.mainCall .setup "setup").countP DriverEvent.entersLoop = 0 := by
  unfold mainCall
  cases fw.program.body? "setup" <;> rfl

theorem countP_mainCall_loop (fw : Firmware) :
    (fw.mainCall .loop "loop").countP DriverEvent.entersLoop =
      (fw.program.function? "loop").isSome.toNat := by
  rw [← Program.body?_isSome]
  unfold mainCall
  cases fw.program.body? "loop" <;> rfl

/-- The loop function is planned to run as often as it may. -/
theorem countP_plan (fw : Firmware) : fw.plan.countP DriverEvent.entersLoop =
      fw.config.maxLoopIterations * (fw.program.function? "loop").isSome.toNat := by
  have declarations (items : List NodeId) :
      (items.map DriverEvent.declares).countP DriverEvent.entersLoop = 0 := by
    rw [countP_eq_zero]
    simp [DriverEvent.entersLoop]
  rw [plan, planFrom, countP_append, countP_append, declarations, countP_mainCall_setup,
    loopCalls, countP_flatten, map_replicate, sum_replicate_nat,
    countP_mainCall_loop, Nat.sub_zero, Nat.zero_add, Nat.zero_add]

/-- What a step makes of the plan: the driver goes on in it, or it is through and the loop
function has run as often as it may. -/
inductive Advances (fw : Firmware) (ahead : List DriverEvent)
    (event? : Option DriverEvent) (effect : Effect) (next : Context) : Prop where
  | goesOn (later : List DriverEvent) (unlimited : ∀ iters, effect ≠ .loopLimit iters) :
      fw.Ahead next.frames later → ahead = event?.toList ++ later →
      Advances fw ahead event? effect next
  | limit (fn : NodeId) : fw.program.function? "loop" = some fn →
      effect = .loopLimit fw.config.maxLoopIterations → ahead = [] → event? = none →
      Advances fw ahead event? effect next

theorem Ahead.of_nil (plan : fw.Ahead frames ahead)
    (empty : frames = []) : ahead = [] ∧ fw.program.function? "loop" = none := by
  cases plan with
  | nothing missing => exact ⟨rfl, missing⟩
  | driver | called => cases empty
  | declaring | calling => simp at empty

theorem callMain_advances
    (entered : ∀ body frames, (Frame.program phase).driverEvent? [] (.block body 0 false :: frames) =
      some (enter body)) (bottom : ctx.frames = [.program (.loop completed)])
    (found : fw.program.function? name = some fn)
    (allowed : fw.Allows (.loop completed)) : (callMain fw fn).Meets ctx (fun _ next => fw.Advances
        (fw.mainCall enter name ++ fw.loopCalls completed)
        ((Frame.program phase).driverEvent? [] next.frames) .quiet next) Act.FromData := by
  refine callMain_meets found fun env own retType body kind enters => ?_
  rw [mainCall_of_found found kind, bottom]
  refine .goesOn (.returns :: fw.loopCalls completed) (by simp) ?_ ?_
  · exact .calling [.block body 0 false] retType _ false _ allowed
  · simp only [Frame.entry, cons_append, entered]
    rfl

theorem runProgram_advances (phase : ProgramPhase) (bottom : ctx.frames = [])
    (allowed : fw.Allows phase) :
    (runProgram fw phase).Meets ctx (fun effect next => fw.Advances (fw.planFrom phase)
        ((Frame.program phase).driverEvent? [] next.frames) effect next) Act.FromData := by
  cases phase with
  | globals next =>
    simp only [runProgram]
    split
    · rename_i item after found
      simp only [meets_bind, meets_schedule, meets_pure, bottom]
      refine .goesOn (fw.planFrom (.globals after)) (by simp) (.declaring [.exec item] after) ?_
      rw [planFrom, Program.globalsFrom_of_nextGlobal? found]
      rfl
    · rename_i found
      simp only [meets_bind, meets_schedule, meets_pure, bottom]
      refine .goesOn (fw.planFrom .setup) (by simp) (.driver trivial) ?_
      rw [planFrom, Program.globalsFrom_eq_nil found]
      rfl
  | setup =>
    simp only [runProgram, meets_bind, meets_schedule, bottom]
    split
    · rename_i found
      simp only [meets_bind, meets_pure]
      exact callMain_advances (fun _ _ => rfl) rfl found (Nat.zero_le _)
    · rename_i missing
      rw [meets_pure]
      refine .goesOn (fw.planFrom (.loop 0)) (by simp) (.driver (Nat.zero_le _)) ?_
      rw [planFrom, mainCall_of_missing missing]
      rfl
  | loop completed =>
    simp only [runProgram]
    split
    · rename_i missing
      rw [meets_pure]
      refine .goesOn [] (by simp) ?_ ?_
      · rw [bottom]
        exact .nothing missing
      · rw [bottom, planFrom, loopCalls_of_missing missing]
        rfl
    · rename_i fn found
      split
      · rename_i reached
        rw [meets_pure, Nat.le_antisymm allowed reached]
        exact .limit fn found rfl (loopCalls_of_limit (Nat.le_refl _)) (by rw [bottom]; rfl)
      · rename_i under
        rw [planFrom, loopCalls_of_lt (Nat.lt_of_not_le under)]
        simp only [meets_bind, meets_schedule, meets_pure, bottom]
        exact callMain_advances (fun _ _ => rfl) rfl found (Nat.lt_of_not_le under)

end Firmware

theorem Frame.driverEvent?_eq_none {frame : Frame} (next : List Frame)
    (inner : frame.isDriver = false)
    (apart : ∀ completed, rest ≠ [.discard, .program (.loop completed)]) :
    frame.driverEvent? rest next = none := by
  cases frame with
  | program => cases inner
  | callReturn => simp only [driverEvent?]
  | _ => rfl

theorem Stepped.unlimited {next} (stepped : Stepped fw frame ctx effect next)
    (inner : frame.isDriver = false) (iters : Nat) : effect ≠ .loopLimit iters := by
  rintro rfl
  rcases stepped with ⟨pushed, scheduled, move, turn, frames, values, scopes, limit⟩ | ⟨quiet, -⟩
  · obtain ⟨rfl, -⟩ := limit iters rfl
    cases inner
  · cases quiet

namespace Firmware

variable {fw : Firmware} {ctx next : Context} {frame : Frame} {rest : List Frame}
  {effect : Effect} {ahead : List DriverEvent}

theorem Ahead.step_inside {above below : List Frame}
    (stepped : Stepped fw frame { ctx with frames := rest } effect next)
    (layered : Layered (frame :: rest)) (split : rest = above ++ barrier :: below)
    (holds : barrier.isBarrier = true)
    (apart : ∀ completed, rest ≠ [.discard, .program (.loop completed)])
    (kept : ∀ upper, fw.Ahead (upper ++ barrier :: below) ahead)
    (marked : ∀ upper retType height returned loc,
      barrier = .callReturn retType height returned loc →
      fw.Ahead (upper ++ .callReturn retType height true loc :: below) ahead) :
    fw.Advances ahead (frame.driverEvent? rest next.frames) effect next := by
  have inner : frame.isDriver = false := by
    have above : Layered (frame :: above ++ barrier :: below) := by
      rw [split] at layered
      exact layered
    exact above.isDriver_eq_false frame mem_cons_self
  refine .goesOn ahead (stepped.unlimited inner) ?_ ?_
  · rcases stepped.keeps split with
      ⟨upper, frames | ⟨retType, height, returned, loc, isCall, frames⟩⟩ | ⟨inside, -⟩
    · rw [frames]
      exact kept upper
    · rw [frames]
      exact marked upper retType height returned loc isCall
    · cases holds.symm.trans inside
  · rw [Frame.driverEvent?_eq_none _ inner apart]
    rfl

theorem Ahead.step (plan : fw.Ahead ctx.frames ahead) (reached : fw.Reaches none ctx)
    (top : ctx.frames = frame :: rest) (out : fw.step ctx frame rest = .ok effect next) :
    fw.Advances ahead (frame.driverEvent? rest next.frames) effect next := by
  have layered := reached.balanced.layered
  obtain ⟨stepped, -, -⟩ := (step_meets top reached.balanced).of_ok out
  rw [top] at plan layered
  generalize whole : frame :: rest = frames at plan
  cases plan with
  | driver allowed =>
    obtain ⟨rfl, rfl⟩ := List.cons.inj whole
    exact (runProgram_advances _ rfl allowed).of_ok out
  | declaring above item =>
    cases above with
    | nil =>
      obtain ⟨rfl, rfl⟩ := List.cons.inj whole
      exact (runProgram_advances (.globals item) rfl trivial).of_ok out
    | cons upper above =>
      obtain ⟨rfl, split⟩ := List.cons.inj whole
      refine step_inside stepped layered split rfl ?_ (.declaring · item) nofun
      intro completed same
      have last := congrArg List.getLast? (split.symm.trans same)
      simp at last
  | calling above retType height returned loc allowed =>
    cases above with
    | nil =>
      obtain ⟨rfl, rfl⟩ := List.cons.inj whole
      have frames := stepped.frames_of_isEnding rfl
      refine .goesOn (fw.loopCalls _) (stepped.unlimited rfl) ?_ rfl
      rw [frames]
      exact .called allowed
    | cons upper above =>
      obtain ⟨rfl, split⟩ := List.cons.inj whole
      refine step_inside stepped layered split rfl ?_
        (.calling · retType height returned loc allowed) ?_
      · intro completed same
        have length := congrArg List.length (split.symm.trans same)
        simp at length
      · rintro upper _ _ _ _ ⟨⟩
        exact .calling upper _ _ true _ allowed
  | called allowed =>
    obtain ⟨rfl, rfl⟩ := List.cons.inj whole
    have frames := stepped.frames_of_isEnding rfl
    refine .goesOn (fw.planFrom (.loop _)) (stepped.unlimited rfl) ?_ rfl
    rw [frames]
    exact .driver allowed
  | nothing => cases whole

end Firmware

end Breadboard
