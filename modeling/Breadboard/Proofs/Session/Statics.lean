import Breadboard.Proofs.Machine.Storage
import Breadboard.Proofs.Memory.Statics
import Breadboard.Proofs.Session.Callee

/-!
Static variables persist. The site of a static declaration gets a cell once and keeps it to the end
of the run. To execute the declaration again is to bind the name to that cell, with no initializer
and no report, so the variable has the value that was stored last. Any other declaration makes a
variable of its own each time. Both fail where the innermost scope has the name already.
-/

namespace Breadboard.Firmware

open Act Environment

variable {fw : Firmware} {pending onward : Option Request} {ctx next later : Context}
  {frame : Frame} {rest : List Frame} {effect : Effect} {cell : Cell} {site : NodeId}

/-! The table of sites along a run. -/

section Siting

variable {memory : Environment → Prop}
  (stable : ∀ env next, memory env → Environment.SiteMove env next → memory next)
include stable

theorem siting_grows : (Discipline.ofMemory fw memory).Grows where
  openScope _ sited := stable _ _ sited (.kept rfl (Nat.le_refl _))
  declare sited _ out :=
    perform_of_declare out ▸ stable _ _ sited (siteMove_perform _ _)
  declareStatic site sited _ :=
    stable _ _ sited (siteMove_perform _ (.declareStatic site _))
  rebind sited known bound := perform_of_rebind known bound ▸
      stable _ _ sited (siteMove_perform _ _)
  write sited _ _ _ _ out :=
    perform_of_write out ▸ stable _ _ sited (siteMove_perform _ _)

theorem step_siting (sited : memory ctx.env) : (runFrame fw frame).Meets { ctx with frames := rest }
      (fun _ next => memory next.env) fun _ final => memory final.env := by
  have grows : (Discipline.ofMemory fw memory).Grows := siting_grows stable
  refine meets_memory _ frame (fun _ => grows.toOpens) (fun _ => grows.toDeclares)
    (fun _ => grows.toWrites) (fun _ env sited => ?_) sited
  exact stable env _ sited env.siteMove_popScope

end Siting

theorem step_sited (sited : ctx.env.Sited) : (runFrame fw frame).Meets { ctx with frames := rest }
      (fun _ next => next.env.Sited) fun _ final => final.env.Sited :=
  step_siting (fun _ _ sited => sited.move) sited

theorem Reaches.sited (reached : fw.Reaches pending ctx) : ctx.env.Sited := by
  induction reached with
  | start => exact ⟨nofun, .nil, .nil⟩
  | step _ _ out ih => exact (step_sited ih).of_ok out
  | answer _ _ ih => exact ih

theorem Fails.sited (fails : fw.Fails fault final) : final.env.Sited := by
  obtain ⟨ctx, frame, rest, reached, -, out⟩ := fails
  exact (step_sited reached.sited).of_error out

theorem step_staticCell? (known : ctx.env.staticCell? site = some cell) :
    let keeps (next : Context) : Prop := next.env.staticCell? site = some cell
    (runFrame fw frame).Meets { ctx with frames := rest } (fun _ => keeps) fun _ => keeps :=
  have stable (env next : Environment) (known : env.staticCell? site = some cell)
      (move : Environment.SiteMove env next) : next.staticCell? site = some cell :=
    move.staticCell? known
  step_siting stable known

theorem Leads.staticCell? (leads : fw.Leads allowed pending ctx onward later)
    (known : ctx.env.staticCell? site = some cell) : later.env.staticCell? site = some cell := by
  induction leads with
  | refl => exact known
  | step _ _ out _ ih =>
    exact (step_staticCell? ih).of_ok out
  | answer _ _ ih => exact ih

/-! What a static variable holds. -/

def Avoids (cell : Cell) (before : Context) (frame : Frame) (_ : Context) : Prop :=
  ∀ place, frame.target? before.values = some place → place.cell ≠ cell

theorem Leads.resolve?_static (reached : fw.Reaches pending ctx)
    (leads : fw.Leads (Avoids cell) pending ctx onward later)
    (known : ctx.env.staticCell? site = some cell)
    (live : ctx.env.resolve? cell = some held) : later.env.resolve? cell = some held := by
  induction leads with
  | refl => exact live
  | @step before next frame rest effect leads top out avoids ih =>
    have spares : (runFrame fw frame).Meets { before with frames := rest } _ _ :=
      meets_spares ih fun place target within =>
        absurd within (avoids place target)
    rcases spares.of_ok out with same | ⟨-, dead⟩
    · exact same.trans ih
    · -- A static variable is a global, and does not die.
      have onward := leads.step top out avoids
      obtain ⟨other, alive⟩ := (onward.reaches reached).sited.resolve? (onward.staticCell? known)
      cases dead.symm.trans alive
  | answer _ _ ih => exact ih

theorem writes_of_target? (target : frame.target? values = some place) : frame.writes = true := by
  cases frame with
  | incDec | assign | compoundAssign => rfl
  | _ => cases target

theorem step_stores (target : frame.target? ctx.values = some place)
    (out : fw.step ctx frame rest = .ok effect next) :
    ∃ found stored written, ctx.env.Stores place stored found written next.env ∧
      next.env.resolve? place.cell = some { found with value := written } ∧
      effect = .emit (.varSet (next.env.placeName place) (next.env.payload stored)) := by
  obtain ⟨same, found, stored, written, also, stores, -, reports⟩ :=
    (meets_writing (writes_of_target? target)).of_ok out
  cases also.symm.trans target
  exact ⟨found, stored, written, stores, by rw [stores.resolve?, if_pos rfl], reports⟩

/-! Executing declarations. -/

/-- The context in which a declaration declares its variable. -/
def declaring (fw : Firmware) (ctx : Context) (frame : Frame) (rest : List Frame) :
    Context :=
  { ctx with frames := rest, values := ctx.values.drop (fw.pops frame) }

theorem env_declaring : (fw.declaring ctx frame rest).env = ctx.env := rfl

section Declaration

variable {node : NodeId} {name : String} {type : DataType} {init : Option NodeId}
  {isStatic isVolatile : Bool}

theorem step_declare (reached : fw.Reaches none ctx) (top : ctx.frames = .declare node :: rest) :
    ∃ given, ctx.values.head? = some given ∧
      fw.step ctx (.declare node) rest = declareVariable fw node (some given)
          (fw.declaring ctx (.declare node) rest) := by
  have enough := reached.pops_le top
  cases opds : ctx.values with
  | nil => simp [opds, pops] at enough
  | cons given below =>
    refine ⟨given, rfl, ?_⟩
    simp only [step, runFrame, pop, declaring, opds, pops]
    rfl

theorem step_exec_known (kind : fw.program.kind node = .varDecl name type init true isVolatile)
    (known : ctx.env.staticCell? node = some cell) : fw.step ctx (.exec node) rest =
      declareVariable fw node none (fw.declaring ctx (.exec node) rest) := by
  simp only [step, runFrame, exec, kind, environment_bind_apply, known]
  cases init <;> rfl

theorem step_exec_default
    (kind : fw.program.kind node = .varDecl name type none isStatic isVolatile) :
    fw.step ctx (.exec node) rest =
      declareVariable fw node none (fw.declaring ctx (.exec node) rest) := by
  simp only [step, runFrame, exec, kind, environment_bind_apply]
  rfl

theorem step_exec_initializer
    (kind : fw.program.kind node = .varDecl name type (some expr) isStatic isVolatile)
    (unknown : isStatic = true → ctx.env.staticCell? node = none) : fw.step ctx (.exec node) rest =
      .ok .quiet { ctx with frames := .eval expr :: .declare node :: rest } := by
  have first : (isStatic && (ctx.env.staticCell? node).isSome) = false := by
    cases isStatic with
    | false => rfl
    | true => rw [unknown rfl]; rfl
  simp only [step, runFrame, exec, kind, environment_bind_apply, first]
  rfl

/-- A static variable that is declared again only gets its name back. -/
theorem step_again (reached : fw.Reaches none ctx)
    (top : ctx.frames = frame :: rest) (declares : frame = .exec node ∨ frame = .declare node)
    (kind : fw.program.kind node = .varDecl name type init true isVolatile)
    (known : ctx.env.staticCell? node = some cell) :
    fw.step ctx frame rest = match ctx.env.bindings.lookup name with
      | none => .ok .quiet { fw.declaring ctx frame rest with
          env := ctx.env.addBinding name cell }
      | some _ => .error ⟨.ofMemory (.duplicateDeclaration name), fw.program.location node⟩
          (fw.declaring ctx frame rest) := by
  have decl : ∃ given, fw.step ctx frame rest =
      declareVariable fw node given (fw.declaring ctx frame rest) := by
    rcases declares with rfl | rfl
    · exact ⟨none, step_exec_known kind known⟩
    · obtain ⟨given, -, same⟩ := step_declare reached top
      exact ⟨some given, same⟩
  obtain ⟨given, same⟩ := decl
  have known : (fw.declaring ctx frame rest).env.staticCell? node = some cell := known
  rw [same, declareVariable_again kind known]
  simp only [Environment.bind, env_declaring]
  cases ctx.env.bindings.lookup name <;> rfl

/-- The value that a declaration starts from: there is an operand, or no initializer. -/
def StartsWith (node : NodeId) (init : Option NodeId) (values : List Value) (frame : Frame)
    (given : Option Value) : Prop :=
  frame = .exec node ∧ init = none ∧ given = none ∨
    frame = .declare node ∧ given = values.head?

theorem step_anew (reached : fw.Reaches none ctx) (top : ctx.frames = frame :: rest)
    (kind : fw.program.kind node = .varDecl name type init isStatic isVolatile)
    (unknown : isStatic = true → ctx.env.staticCell? node = none)
    (starts : StartsWith node init ctx.values frame given)
    (initial : fw.initial ctx.env type given = .ok value) :
    (ctx.env.bindings.lookup name = none → ∃ cell effect next,
      fw.step ctx frame rest = .ok effect next ∧ ctx.env.resolve? cell = none ∧
      next.env.lookup? name = some cell ∧
      next.env.resolve? cell = some ⟨name, type.sizedBy value, value, isStatic, isVolatile⟩ ∧
      (isStatic = true → next.env.staticCell? node = some cell)) ∧
    ∀ other, ctx.env.bindings.lookup name = some other → ∃ final, fw.step ctx frame rest =
        .error ⟨.ofMemory (.duplicateDeclaration name), fw.program.location node⟩ final ∧
      (isStatic = false → final.env = ctx.env) := by
  have same : fw.step ctx frame rest =
      declareVariable fw node given (fw.declaring ctx frame rest) := by
    rcases starts with ⟨rfl, rfl, rfl⟩ | ⟨rfl, rfl⟩
    · exact step_exec_default kind
    · obtain ⟨operand, found, same⟩ := step_declare reached top
      rw [found, same]
  have fresh : isStatic = true →
    (fw.declaring ctx frame rest).env.staticCell? node = none := unknown
  have anew := declareVariable_anew kind fresh given
  rw [← same] at anew
  simp only [env_declaring, initial] at anew
  refine ⟨fun free => ?_, fun other taken => ?_⟩
  · obtain ⟨cell, env, introduced, dead, named, held, owned⟩ :=
      introduce_free ⟨name, type.sizedBy value, value, isStatic, isVolatile⟩ free
        unknown
    rw [introduced] at anew
    exact ⟨cell, _, _, anew, dead, named, held, owned⟩
  · obtain ⟨env, introduced, plain⟩ :=
      introduce_taken ⟨name, type.sizedBy value, value, isStatic, isVolatile⟩ taken
        unknown
    rw [introduced] at anew
    exact ⟨_, anew, plain⟩

end Declaration

/-- Static variables persist, in all that a run reaches and also where it fails. Each site has one
cell, which is a global, and keeps it. A static declaration that is executed again binds its name to
that cell and does nothing else, and the variable changes only where a step stores into it. Every
other declaration makes a variable in a cell that was dead, with the value of its initializer or the
default. Where the innermost scope has the name, a declaration fails. -/
theorem statics_persist (firmware : Firmware) :
    (∀ context, (∃ pending, firmware.Reaches pending context) ∨
      (∃ fault, firmware.Fails fault context) → context.env.Sited) ∧
    (∀ allowed pending context onward later site cell,
      firmware.Leads allowed pending context onward later →
      context.env.staticCell? site = some cell → later.env.staticCell? site = some cell) ∧
    (∀ context frame rest fault final site cell,
      firmware.step context frame rest = .error fault final →
      context.env.staticCell? site = some cell → final.env.staticCell? site = some cell) ∧
    (∀ context frame rest node name type init isVolatile cell, firmware.Reaches none context →
      context.frames = frame :: rest → frame = .exec node ∨ frame = .declare node →
      firmware.program.kind node = .varDecl name type init true isVolatile →
      context.env.staticCell? node = some cell →
      let after := context.env.addBinding name cell
      firmware.step context frame rest =
        (match context.env.bindings.lookup name with
        | none => .ok .quiet { firmware.declaring context frame rest with env := after }
        | some _ => .error ⟨.ofMemory (.duplicateDeclaration name), firmware.program.location node⟩
            (firmware.declaring context frame rest)) ∧
      after.lookup? name = some cell ∧ ∀ other, after.resolve? other = context.env.resolve? other) ∧
    (∀ pending context onward later site cell held, firmware.Reaches pending context →
      firmware.Leads (Avoids cell) pending context onward later →
      context.env.staticCell? site = some cell → context.env.resolve? cell = some held →
      later.env.resolve? cell = some held) ∧
    (∀ context frame rest place effect next, frame.target? context.values = some place →
      firmware.step context frame rest = .ok effect next →
      ∃ found stored written, context.env.Stores place stored found written next.env ∧
        next.env.resolve? place.cell = some { found with value := written } ∧
        effect = .emit (.varSet (next.env.placeName place) (next.env.payload stored))) ∧
    (∀ context rest node name type expr isStatic isVolatile,
      firmware.program.kind node = .varDecl name type (some expr) isStatic isVolatile →
      (isStatic = true → context.env.staticCell? node = none) →
      firmware.step context (.exec node) rest =
        .ok .quiet { context with frames := .eval expr :: .declare node :: rest }) ∧
    ∀ context frame rest node name type init isStatic isVolatile given value,
      firmware.Reaches none context → context.frames = frame :: rest →
      firmware.program.kind node = .varDecl name type init isStatic isVolatile →
      (isStatic = true → context.env.staticCell? node = none) →
      StartsWith node init context.values frame given →
      firmware.initial context.env type given = .ok value →
      (context.env.bindings.lookup name = none → ∃ cell effect next,
        firmware.step context frame rest = .ok effect next ∧ context.env.resolve? cell = none ∧
        next.env.lookup? name = some cell ∧
        next.env.resolve? cell = some ⟨name, type.sizedBy value, value, isStatic, isVolatile⟩ ∧
        (isStatic = true → next.env.staticCell? node = some cell)) ∧
      ∀ other, context.env.bindings.lookup name = some other → ∃ final,
        firmware.step context frame rest =
          .error ⟨.ofMemory (.duplicateDeclaration name), firmware.program.location node⟩ final ∧
        (isStatic = false → final.env = context.env) := by
  refine ⟨?_, ?_, ?_, ?_, ?_, ?_, ?_, ?_⟩
  · rintro context (⟨pending, reached⟩ | ⟨fault, fails⟩)
    · exact reached.sited
    · exact fails.sited
  · intro allowed pending context onward later site cell leads known
    exact leads.staticCell? known
  · intro context frame rest fault final site cell outcome known
    exact (step_staticCell? known).of_error outcome
  · intro context frame rest node name type init isVolatile cell reached top declares kind known
    exact ⟨step_again reached top declares kind known, Environment.lookup?_addBinding ..,
      context.env.resolve?_addBinding name cell⟩
  · intro pending context onward later site cell held reached leads known live
    exact leads.resolve?_static reached known live
  · intro context frame rest place effect next target outcome
    exact step_stores target outcome
  · intro context rest node name type expr isStatic isVolatile kind unknown
    exact step_exec_initializer kind unknown
  · intro context frame rest node name type init isStatic isVolatile given value reached top kind
      unknown starts initial
    exact step_anew reached top kind unknown starts initial

/-- A function that counts how often it is called, and is called twice. -/
def tallied : Firmware where
  program := {
    nodes := #[
      ⟨.intLiteral 5 false, ⟨1, 34⟩⟩,
      ⟨.varDecl "total" (.of .int) (some 0) true false, ⟨1, 26⟩⟩, ⟨.identifier "total", ⟨1, 37⟩⟩,
      ⟨.incDec .postInc 2, ⟨1, 42⟩⟩, ⟨.exprStmt 3, ⟨1, 37⟩⟩, ⟨.identifier "total", ⟨1, 57⟩⟩,
      ⟨.varDecl "seen" (.of .int) (some 5) false false, ⟨1, 50⟩⟩, ⟨.block [1, 4, 6], ⟨1, 14⟩⟩,
      ⟨.functionDef "tally" [] (.of .void) 7, ⟨1, 6⟩⟩, ⟨.call "tally" [], ⟨2, 16⟩⟩,
      ⟨.exprStmt 9, ⟨2, 16⟩⟩, ⟨.call "tally" [], ⟨2, 25⟩⟩, ⟨.exprStmt 11, ⟨2, 25⟩⟩,
      ⟨.block [10, 12], ⟨2, 14⟩⟩, ⟨.functionDef "setup" [] (.of .void) 13, ⟨2, 6⟩⟩]
    items := [8, 14] }

/-- The context in which the second call of `tallied` comes to the static declaration. -/
def talliedAgain : Context := (tallied.callRun (.initial Session.defaultSeed) [] [] 28).context

theorem talliedAgain_reached : tallied.Reaches none talliedAgain := by
  refine (Reaches.start.callRun [] [] 28).going ?_
  decide +kernel

/-- The declaration gives the variable its name back, with the value of the first call. -/
theorem tallied_counts_on :
    let integer (context : Context) : Option Int64 :=
      (context.env.resolve? (.global 1)).bind (·.value.integer?)
    talliedAgain.env.Sited ∧ talliedAgain.env.staticCell? 1 = some (.global 1) ∧
      integer talliedAgain = some 6 ∧
      ∃ next, tallied.step talliedAgain (.exec 1) talliedAgain.frames.tail = .ok .quiet next ∧
        next.env.lookup? "total" = some (.global 1) ∧ integer next = some 6 := by
  intro integer
  have known : talliedAgain.env.staticCell? 1 = some (.global 1) := by decide +kernel
  have top : talliedAgain.frames = .exec 1 :: talliedAgain.frames.tail := by decide +kernel
  have free : talliedAgain.env.bindings.lookup "total" = none := by decide +kernel
  have kind : tallied.program.kind 1 = .varDecl "total" (.of .int) (some 0) true false := rfl
  have counted : integer talliedAgain = some 6 := by decide +kernel
  obtain ⟨held, live, value⟩ := Option.bind_eq_some_iff.mp counted
  obtain ⟨sited, -, -, again, kept, -⟩ := statics_persist tallied
  obtain ⟨outcome, named, -⟩ :=
    again talliedAgain (.exec 1) _ 1 "total" _ _ _ _ talliedAgain_reached top (.inl rfl) kind known
  rw [free] at outcome
  refine ⟨sited _ (.inl ⟨none, talliedAgain_reached⟩), known, counted, _, outcome, named, ?_⟩
  have leads : tallied.Leads (Avoids (.global 1)) none talliedAgain _ _ :=
    Leads.refl.step top outcome nofun
  have same := kept none talliedAgain _ _ 1 (.global 1) held talliedAgain_reached leads known live
  exact Option.bind_eq_some_iff.mpr ⟨held, same, value⟩

/-- A loop whose body is a static declaration without a block of its own. -/
def unbraced : Firmware where
  program := {
    nodes := #[
      ⟨.intLiteral 0 false, ⟨2, 16⟩⟩,
      ⟨.varDecl "i" (.of .int) (some 0) false false, ⟨2, 12⟩⟩, ⟨.identifier "i", ⟨2, 19⟩⟩,
      ⟨.intLiteral 2 false, ⟨2, 23⟩⟩, ⟨.binary .lt 2 3, ⟨2, 21⟩⟩, ⟨.identifier "i", ⟨2, 26⟩⟩,
      ⟨.incDec .postInc 5, ⟨2, 27⟩⟩, ⟨.intLiteral 7 false, ⟨3, 20⟩⟩,
      ⟨.varDecl "n" (.of .int) (some 7) true false, ⟨3, 16⟩⟩,
      ⟨.forLoop (some 1) (some 4) (some 6) 8, ⟨2, 3⟩⟩, ⟨.block [9], ⟨1, 14⟩⟩,
      ⟨.functionDef "setup" [] (.of .void) 10, ⟨1, 6⟩⟩]
    items := [11] }

/-- The context in which `unbraced` comes to the declaration for the second time. -/
def unbracedAgain : Context := (unbraced.callRun (.initial Session.defaultSeed) [] [] 27).context

theorem unbracedAgain_reached : unbraced.Reaches none unbracedAgain := by
  refine (Reaches.start.callRun [] [] 27).going ?_
  decide +kernel

/-- The scope of the loop still has the name, and so the declaration fails the second time. -/
theorem unbraced_fails_again :
    unbraced.Reaches none unbracedAgain ∧ unbracedAgain.env.staticCell? 8 = some (.global 1) ∧
      unbracedAgain.frames = .exec 8 :: unbracedAgain.frames.tail ∧
      ∃ final, unbraced.step unbracedAgain (.exec 8) unbracedAgain.frames.tail =
        .error ⟨.ofMemory (.duplicateDeclaration "n"), ⟨3, 16⟩⟩ final := by
  have known : unbracedAgain.env.staticCell? 8 = some (.global 1) := by decide +kernel
  have top : unbracedAgain.frames = .exec 8 :: unbracedAgain.frames.tail := by decide +kernel
  have taken : unbracedAgain.env.bindings.lookup "n" = some (.global 1) := by decide +kernel
  have kind : unbraced.program.kind 8 = .varDecl "n" (.of .int) (some 7) true false := rfl
  have outcome := step_again unbracedAgain_reached top (.inl rfl) kind known
  rw [taken] at outcome
  exact ⟨unbracedAgain_reached, known, top, _, outcome⟩

end Breadboard.Firmware
