import Breadboard.Proofs.Machine.Storage
import Breadboard.Proofs.Session.Callee

/-!
Constants do not change. A step leaves every constant as it is or takes it away with its scope, so
along a run a constant is what it was declared as for as long as it is there. A step that aims at
a constant, by whatever path, fails before it has changed anything, and the run ends there.
-/

namespace Breadboard.Firmware

variable {fw : Firmware} {pending onward : Option Request} {ctx next later : Context}
  {frame : Frame} {rest : List Frame} {effect : Effect} {cell : Cell} {held : Variable}

/-- A step declares a variable, and from then on it is there as it was declared. -/
structure DeclaredOnce (fw : Firmware) (cell : Cell) (held : Variable)
    (pending : Option Request) (ctx before : Context) (frame : Frame) (rest : List Frame)
    (effect : Effect) (declared : Context) : Prop where
  reached : fw.Reaches none before
  top : before.frames = frame :: rest
  introduces : fw.Introduces before.env before.values frame held
  outcome : fw.step before frame rest = .ok effect declared
  live : declared.env.resolve? cell = some held
  since : fw.Leads (fun _ _ next => next.env.resolve? cell = some held)
    effect.request? declared pending ctx

theorem initial_not_constant (resolved : (Context.initial seed).env.resolve? cell = some held) :
    held.isConstant = false := by
  cases cell with
  | «global» index =>
    have port : held ∈ (Context.initial seed).env.globals := Array.mem_of_getElem? resolved
    cases Array.mem_singleton.mp port
    rfl
  | frame index generation => simp [Context.initial, Environment.resolve?] at resolved

section

variable (live : ctx.env.resolve? cell = some held) (fixed : held.isConstant = true)
include live fixed

theorem step_constant (out : fw.step ctx frame rest = .ok effect next)
    (after : (next.env.resolve? cell).isSome = true) : next.env.resolve? cell = some held := by
  have spares : (Act.runFrame fw frame).Meets { ctx with frames := rest } _ _ :=
    Act.meets_spares live fun _ _ _ => fixed
  rcases spares.of_ok out with same | ⟨-, dead⟩
  · exact same.trans live
  · rw [dead] at after
    cases after

theorem step_error_constant (out : fw.step ctx frame rest = .error fault final)
    (after : final.env.resolve? cell = some other) : other = held := by
  have spares : (Act.runFrame fw frame).Meets { ctx with frames := rest } _ _ :=
    Act.meets_spares live fun _ _ _ => fixed
  rcases spares.of_error out with same | ⟨-, dead⟩
  · exact Option.some.inj (after.symm.trans (same.trans live))
  · cases dead.symm.trans after

theorem Leads.constant (leads : fw.Leads (fun _ _ next => (next.env.resolve? cell).isSome = true)
      pending ctx onward later) : later.env.resolve? cell = some held := by
  induction leads with
  | refl => exact live
  | step _ _ out after ih =>
    exact step_constant ih fixed out after
  | answer _ _ ih => exact ih

theorem Reaches.constant (reached : fw.Reaches pending ctx) :
    ∃ before frame rest effect declared,
      fw.DeclaredOnce cell held pending ctx before frame rest effect declared := by
  induction reached with
  | start => cases (initial_not_constant live).symm.trans fixed
  | @step ctx next frame rest effect reached top out ih =>
    rcases Act.meets_constants.of_ok out cell held live fixed with earlier | introduces
    · obtain ⟨before, first, others, done, declared, once⟩ := ih earlier
      exact ⟨before, first, others, done, declared,
        { once with since := once.since.step top out live }⟩
    · exact ⟨ctx, frame, rest, effect, next, reached, top, introduces, out, live, .refl⟩
  | answer value _ ih =>
    obtain ⟨before, first, others, done, declared, once⟩ := ih live
    exact ⟨before, first, others, done, declared, { once with since := once.since.answer value }⟩

end

theorem node?_of_target? (fw : Firmware) (target : frame.target? values = some place) :
    (∃ node, frame.node? = some node) ∧ fw.isBoundary frame = false := by
  cases frame with
  | incDec node | assign node | compoundAssign node => exact ⟨⟨node, rfl⟩, rfl⟩
  | _ => cases target

theorem step_refused (reached : fw.Reaches none ctx) (top : ctx.frames = frame :: rest)
    (target : frame.target? ctx.values = some place)
    (live : ctx.env.resolve? place.cell = some held) (constant : held.isConstant = true) :
    ∃ loc final, final.env = ctx.env ∧
      fw.step ctx frame rest = .error ⟨.constAssignment held.name, loc⟩ final ∧
      ∀ fuel started emitted, fw.runFrames (fuel + 1) started emitted ctx =
        ⟨final, emitted.reverse, .failed ⟨.constAssignment held.name, loc⟩⟩ := by
  obtain ⟨⟨node, stands⟩, inside⟩ := node?_of_target? fw target
  have suits := reached.balanced.suited frame (by simp [top])
  have refused : Act.runFrame fw frame { ctx with frames := rest } = _ :=
    Act.runFrame_constant stands suits target live constant
  rw [← Firmware.step] at refused
  refine ⟨_, _, ?_, refused, ?_⟩
  · rfl
  · intro fuel started emitted
    unfold Firmware.runFrames
    simp only [top, inside, Bool.false_and, Bool.false_eq_true, if_false, refused]

/-- Constants are what they were declared as, for as long as their cells are live, in all that a
run reaches and also where it fails. An attempt to write into one, directly or through a pointer, an
index or a field, ends the run with a fault, and neither memory nor the commands so far change. -/
theorem constants_stay (firmware : Firmware) :
    (∀ pending context cell held, firmware.Reaches pending context →
      context.env.resolve? cell = some held → held.isConstant = true →
      ∃ before frame rest effect declared,
        firmware.DeclaredOnce cell held pending context before frame rest effect declared) ∧
    (∀ pending context onward later cell held,
      firmware.Leads (fun _ _ next => (next.env.resolve? cell).isSome = true)
        pending context onward later →
      context.env.resolve? cell = some held → held.isConstant = true →
      later.env.resolve? cell = some held) ∧
    (∀ context frame rest fault final cell held other,
      firmware.step context frame rest = .error fault final →
      context.env.resolve? cell = some held → held.isConstant = true →
      final.env.resolve? cell = some other → other = held) ∧
    (∀ context frame rest place held, firmware.Reaches none context →
      context.frames = frame :: rest → frame.target? context.values = some place →
      context.env.resolve? place.cell = some held → held.isConstant = true →
      ∃ location final, final.env = context.env ∧
        firmware.step context frame rest = .error ⟨.constAssignment held.name, location⟩ final ∧
        ∀ fuel started emitted, firmware.runFrames (fuel + 1) started emitted context =
          ⟨final, emitted.reverse, .failed ⟨.constAssignment held.name, location⟩⟩) ∧
    ∀ nextRequest controls,
      (({ firmware, nextRequest } : Session).perform controls).status.Reached firmware := by
  refine ⟨?_, ?_, ?_, ?_, ?_⟩
  · intro pending context cell held reached live constant
    exact reached.constant live constant
  · intro pending context onward later cell held leads live constant
    exact leads.constant live constant
  · intro context frame rest fault final cell held other outcome live constant after
    exact step_error_constant live constant outcome after
  · intro context frame rest place held reached top target live constant
    exact step_refused reached top target live constant
  · intro nextRequest controls
    exact Session.perform_reached controls trivial

/-- A function gets a pointer into a constant array and writes there. -/
def limited : Firmware where
  program := {
    nodes := #[
      ⟨.intLiteral 3 false, ⟨1, 25⟩⟩,
      ⟨.intLiteral 4 false, ⟨1, 28⟩⟩,
      ⟨.initList [0, 1], ⟨1, 24⟩⟩,
      ⟨.varDecl "limits" { base := .int, isConst := true, dims := [some 2] } (some 2) false false,
        ⟨1, 11⟩⟩, ⟨.identifier "slot", ⟨2, 25⟩⟩, ⟨.unary .deref 4, ⟨2, 24⟩⟩,
      ⟨.intLiteral 9 false, ⟨2, 32⟩⟩, ⟨.assign 5 6, ⟨2, 30⟩⟩, ⟨.exprStmt 7, ⟨2, 24⟩⟩,
      ⟨.block [8], ⟨2, 22⟩⟩,
      ⟨.functionDef "poke" [⟨"slot", { base := .int, pointerDepth := 1 }⟩] (.of .void) 9, ⟨2, 6⟩⟩,
      ⟨.identifier "limits", ⟨3, 21⟩⟩, ⟨.call "poke" [11], ⟨3, 16⟩⟩, ⟨.exprStmt 12, ⟨3, 16⟩⟩,
      ⟨.block [13], ⟨3, 14⟩⟩, ⟨.functionDef "setup" [] (.of .void) 14, ⟨3, 6⟩⟩]
    items := [3, 10, 15] }

/-- The context in which `limited` is about to write. -/
def limitedWrite : Context := (limited.callRun (.initial Session.defaultSeed) [] [] 21).context

theorem limitedWrite_reached : limited.Reaches none limitedWrite := by
  refine (Reaches.start.callRun [] [] 21).going ?_
  decide +kernel

/-- The array is still what it was declared as, and the write is refused. -/
theorem limited_refuses :
    ∃ held, limitedWrite.env.resolve? (.global 1) = some held ∧ held.isConstant = true ∧
      (∃ before frame rest effect declared, limited.DeclaredOnce (.global 1) held none limitedWrite
        before frame rest effect declared) ∧
      ∃ location final, final.env = limitedWrite.env ∧
        limited.step limitedWrite (.assign 7) limitedWrite.frames.tail =
          .error ⟨.constAssignment "limits", location⟩ final := by
  have found : (limitedWrite.env.resolve? (.global 1)).map
      (fun held => (held.isConstant, held.name)) = some (true, "limits") := by
    decide +kernel
  obtain ⟨held, live, same⟩ := Option.map_eq_some_iff.mp found
  obtain ⟨constant, name⟩ := Prod.mk.inj same
  have top : limitedWrite.frames = .assign 7 :: limitedWrite.frames.tail := by decide +kernel
  have target : Frame.target? (.assign 7) limitedWrite.values = some ⟨.global 1, [.index 0]⟩ := by
    decide +kernel
  obtain ⟨origin, onward, -, refuses, -⟩ := constants_stay limited
  obtain ⟨before, frame, rest, effect, declared, once⟩ :=
    origin none limitedWrite (.global 1) held limitedWrite_reached live constant
  have kept := onward _ _ _ _ (.global 1) held
    (once.since.mono fun _ _ _ same => Option.isSome_iff_exists.mpr ⟨held, same⟩) once.live constant
  obtain ⟨location, final, unchanged, refused, -⟩ :=
    refuses limitedWrite (.assign 7) _ _ held limitedWrite_reached top target live constant
  rw [name] at refused
  exact ⟨held, kept, constant, ⟨before, frame, rest, effect, declared, once⟩, location, final,
    unchanged, refused⟩

end Breadboard.Firmware
