import Breadboard.Proofs.Memory.ReadWrite
import Breadboard.Proofs.Session.Statics
import Breadboard.Proofs.Typing.Idempotence
import Breadboard.Proofs.Typing.Run

/-!
What a run reports of its variables. A variable changes only where an assignment or an increment
stores into it, and the step reports the place and the value that is read there afterwards. A
declaration reports the value that it was given, and declarations without one report nothing.
-/

namespace Breadboard

open Environment Act

namespace Value

variable {structs : StructTable} {owner : String} {type target : DataType} {value new res : Value}
  {path : List PathStep}

theorem read_text (path : List PathStep)
    (written : writeByte str pos (char c).lowByte = .ok changed) :
    (text changed).read (.index pos :: path) = .ok (char c) := by
  obtain ⟨-, ⟨old, -, found⟩, set⟩ := of_writeByte written
  obtain ⟨inside, -⟩ := List.getElem?_eq_some_iff.mp found
  have byte : (Text.bytes changed)[pos]? = some (char c).lowByte := by
    rw [set, List.getElem?_set_self inside]
  change (text changed).step (.index pos) = _
  rw [step_text byte, toInt8_lowByte]
  exact congrArg (Except.ok ∘ Value.char) c.toInt8_toInt64

theorem eq_char_of_inhabits {given stored : Value} (inhabits : Inhabits structs (char c) type)
    (made : given.convert structs type = .ok stored) : ∃ c, stored = char c := by
  cases inhabits with
  | scalar single holds =>
    obtain isChar : type.base = .char := by
      generalize type.base = base at holds
      cases holds
      rfl
    rw [convert_scalar single (by simp [isChar]), isChar] at made
    cases toScalar_holds (by simp) made
    exact ⟨_, rfl⟩

theorem read_of_write {given : Value} (inhabits : Inhabits structs value type)
    (typed : path.foldlM (stepType structs owner) type = .ok target)
    (made : given.convert structs target = .ok new) (out : value.write path new = .ok res) :
    res.read path = .ok new := by
  induction path generalizing value type res with
  | nil =>
    cases out
    rfl
  | cons step path ih =>
    rw [List.foldlM_cons] at typed
    obtain ⟨inner, stepped, further⟩ := bind_eq_ok.mp typed
    by_cases stored : ∀ str, value ≠ .text str
    · rw [write_cons stored] at out
      obtain ⟨part, leads, out⟩ := bind_eq_ok.mp out
      obtain ⟨replaced, within, out⟩ := bind_eq_ok.mp out
      cases out
      rw [read_cons (exchange_ne_text stored _ _), step_exchange leads stored]
      exact ih (inhabits.step stored stepped leads) further within
    · obtain ⟨str, rfl⟩ := not_forall_not.mp stored
      cases step with
      | field => cases out
      | index pos =>
        obtain ⟨changed, replaced, out⟩ := bind_eq_ok.mp out
        cases out
        obtain ⟨single, base⟩ := inhabits.element_of_text stepped
        have isChar : Inhabits structs (char 0) target := .of_char single base further
        obtain ⟨c, rfl⟩ := eq_char_of_inhabits isChar made
        exact read_text path replaced

end Value

namespace Firmware

variable {fw : Firmware} {ctx next : Context} {frame : Frame} {rest : List Frame}
  {effect : Effect} {place : Place} {stored : Value}

/-- A step stores a value where its frame aims and changes nothing else, and what it reports is
what is read there afterwards. The types of variables matter for the bytes of texts only. -/
structure StoreReported (fw : Firmware) (ctx : Context) (frame : Frame) (effect : Effect)
    (next : Context) (place : Place) (stored : Value) : Prop where
  writes : ∃ node, frame = .assign node ∨ frame = .compoundAssign node ∨ frame = .incDec node
  target : frame.target? ctx.values = some place
  elsewhere : ∀ cell ≠ place.cell, next.env.resolve? cell = ctx.env.resolve? cell
  reported : effect = .emit (.varSet (next.env.placeName place) (next.env.payload stored))
  whole : ctx.env.stopsAtBytes place = true → ctx.env.byteAt? place = none →
    next.env.read place = .ok stored
  typed : Acyclic fw.structs → fw.library.Computes fw.structs →
    next.env.read place = .ok stored

theorem writes_iff : frame.writes = true ↔
      ∃ node, frame = .assign node ∨ frame = .compoundAssign node ∨ frame = .incDec node := by
  cases frame <;> simp [Frame.writes]

theorem step_reported (reached : fw.Reaches none ctx) (writes : frame.writes = true)
    (out : fw.step ctx frame rest = .ok effect next) :
    ∃ place stored, fw.StoreReported ctx frame effect next place stored := by
  obtain ⟨place, found, stored, written, target, stores, ⟨type, given, placed, made⟩, reports⟩ :=
    (meets_writing writes).of_ok out
  have after : next.env.resolve? place.cell = some { found with value := written } := by
    rw [stores.resolve?, if_pos rfl]
  refine ⟨place, stored, writes_iff.mp writes, target, ?_, reports, ?_, ?_⟩
  · intro cell apart
    rw [stores.resolve?, if_neg apart]
  · intro stops whole
    rw [stopsAtBytes, show ctx.env.resolve? _ = _ from stores.resolved] at stops
    rw [stores.made]
    exact (writtenAt_setValue stores.resolved
      (Value.writes_of_write stops stores.replaced)).whole whole
  · intro acyclic computes
    obtain ⟨owner, known, walked⟩ := bind_eq_ok.mp placed
    have typed := (reached.typed acyclic computes).env.resolve known
    cases (resolve_eq_ok_iff.mp known).symm.trans stores.resolved
    rw [read_of_resolve? after]
    exact Value.read_of_write typed walked made stores.replaced

/-- A variable that a step has changed is where the step stores. -/
theorem step_changed {before after : Variable} (reached : fw.Reaches none ctx)
    (out : fw.step ctx frame rest = .ok effect next) (live : ctx.env.resolve? cell = some before)
    (kept : next.env.resolve? cell = some after) (changed : after ≠ before) :
    ∃ place stored, place.cell = cell ∧ fw.StoreReported ctx frame effect next place stored := by
  obtain ⟨place, target, within⟩ :
      ∃ place, frame.target? ctx.values = some place ∧ place.cell = cell := by
    by_contra avoids
    have spares : (runFrame fw frame).Meets { ctx with frames := rest } _ _ :=
      meets_spares live fun place target within => absurd ⟨place, target, within⟩ avoids
    rcases spares.of_ok out with same | ⟨-, dead⟩
    · exact changed (Option.some.inj (kept.symm.trans (same.trans live)))
    · cases dead.symm.trans kept
  obtain ⟨other, stored, reported⟩ := step_reported reached (writes_of_target? target) out
  obtain rfl : place = other := Option.some.inj (target.symm.trans reported.target)
  exact ⟨place, stored, within, reported⟩

section Declaration

variable {node : NodeId} {name : String} {type : DataType} {init : Option NodeId}
  {isStatic isVolatile : Bool}

/-- A declaration with an initializer that makes its variable reports the value. -/
theorem step_declare_reported (reached : fw.Reaches none ctx)
    (top : ctx.frames = .declare node :: rest)
    (kind : fw.program.kind node = .varDecl name type init isStatic isVolatile)
    (unknown : isStatic = true → ctx.env.staticCell? node = none)
    (out : fw.step ctx (.declare node) rest = .ok effect next) :
    ∃ cell value, ctx.env.resolve? cell = none ∧
      next.env.resolve? cell = some ⟨name, type.sizedBy value, value, isStatic, isVolatile⟩ ∧
      next.env.read (.of cell) = .ok value ∧
      effect = .emit (.varSet name (next.env.payload value)) := by
  obtain ⟨given, -, same⟩ := step_declare reached top
  have fresh : isStatic = true →
    (fw.declaring ctx (.declare node) rest).env.staticCell? node = none := unknown
  rw [same, declareVariable_anew kind fresh] at out
  simp only [env_declaring] at out
  split at out
  · rename_i value _
    let decl : Variable := ⟨name, type.sizedBy value, value, isStatic, isVolatile⟩
    cases bound : ctx.env.bindings.lookup name with
    | some other =>
      obtain ⟨_, introduced, -⟩ := introduce_taken decl bound unknown
      rw [introduced] at out
      cases out
    | none =>
      obtain ⟨cell, env, introduced, dead, -, held, -⟩ := introduce_free decl bound unknown
      rw [introduced] at out
      cases out
      have named : env.placeName (.of cell) = name := by
        simp [placeName, Place.of, held, decl, Place.pathText]
      have live : env.resolve? (Place.of cell).cell = some decl := held
      exact ⟨cell, value, dead, held, read_of_resolve? live, by rw [named]; rfl⟩
  · cases out

/-- To execute a declaration reports nothing: its initializer is yet to be evaluated, or there is
none, or the variable is static and has been declared before. -/
theorem step_exec_quiet (reached : fw.Reaches none ctx) (top : ctx.frames = .exec node :: rest)
    (kind : fw.program.kind node = .varDecl name type init isStatic isVolatile)
    (out : fw.step ctx (.exec node) rest = .ok effect next) : effect = .quiet := by
  by_cases known : isStatic = true ∧ ∃ cell, ctx.env.staticCell? node = some cell
  · obtain ⟨rfl, cell, known⟩ := known
    rw [step_again reached top (.inl rfl) kind known] at out
    split at out <;> cases out
    rfl
  · have unknown (static : isStatic = true) : ctx.env.staticCell? node = none :=
      Option.eq_none_iff_forall_ne_some.mpr fun cell found => known ⟨static, cell, found⟩
    cases init with
    | some expr =>
      rw [step_exec_initializer kind unknown] at out
      cases out
      rfl
    | none =>
      have fresh : isStatic = true →
        (fw.declaring ctx (.exec node) rest).env.staticCell? node = none := unknown
      rw [step_exec_default kind, declareVariable_anew kind fresh] at out
      split at out
      · split at out <;> cases out
        rfl
      · cases out

end Declaration

theorem step_call_quiet (out : fw.step ctx (.call function argc loc) rest = .ok effect next) :
    effect = .quiet := by
  have quiet (act : Act Unit) (ctx : Context) : (do act; pure .quiet : Act Effect).Meets ctx
      (fun effect _ => effect = .quiet) fun _ _ => True := by
    rw [meets_bind]
    unfold Act.Meets
    split <;> trivial
  have meets : (runFrame fw (.call function argc loc)).Meets
      { ctx with frames := rest } (fun effect _ => effect = .quiet) fun _ _ => True := by
    unfold runFrame
    rw [meets_bind]
    unfold Act.Meets
    split
    · exact quiet _ _
    · trivial
  exact meets.of_ok out

/-- Reports of variables are complete and true. Along every run, a variable that a step changes is
the one that an assignment or an increment stores into; nothing else changes, and the step reports
the place and what is read there afterwards. A declaration that makes a variable from an initializer
reports the value it stores; a declaration without one, one that only gives a static variable its
name back, and the parameters of a call are not reported. -/
theorem stores_reported (firmware : Firmware) :
    (∀ context frame rest effect next cell before after, firmware.Reaches none context →
      firmware.step context frame rest = .ok effect next →
      context.env.resolve? cell = some before → next.env.resolve? cell = some after →
      after ≠ before → ∃ place stored, place.cell = cell ∧
        firmware.StoreReported context frame effect next place stored) ∧
    (∀ context frame rest effect next, firmware.Reaches none context → frame.writes = true →
      firmware.step context frame rest = .ok effect next →
      ∃ place stored, firmware.StoreReported context frame effect next place stored) ∧
    (∀ context rest effect next node name type init isStatic isVolatile,
      firmware.Reaches none context →
      firmware.program.kind node = .varDecl name type init isStatic isVolatile →
      (context.frames = .declare node :: rest →
        firmware.step context (.declare node) rest = .ok effect next →
        (isStatic = true → context.env.staticCell? node = none) →
        ∃ cell value, context.env.resolve? cell = none ∧
          next.env.resolve? cell = some ⟨name, type.sizedBy value, value, isStatic, isVolatile⟩ ∧
          next.env.read (.of cell) = .ok value ∧
          effect = .emit (.varSet name (next.env.payload value))) ∧
      (context.frames = .declare node :: rest →
        firmware.step context (.declare node) rest = .ok effect next →
        isStatic = true → (context.env.staticCell? node).isSome = true → effect = .quiet) ∧
      (context.frames = .exec node :: rest →
        firmware.step context (.exec node) rest = .ok effect next → effect = .quiet)) ∧
    ∀ context rest function argc location effect next,
      firmware.step context (.call function argc location) rest = .ok effect next →
      effect = .quiet := by
  refine ⟨?_, ?_, ?_, ?_⟩
  · intro context frame rest effect next cell before after reached outcome live kept changed
    exact step_changed reached outcome live kept changed
  · intro context frame rest effect next reached writes outcome
    exact step_reported reached writes outcome
  · intro context rest effect next node name type init isStatic isVolatile reached kind
    refine ⟨?_, ?_, ?_⟩
    · intro top outcome unknown
      exact step_declare_reported reached top kind unknown outcome
    · intro top outcome isStatic known
      subst isStatic
      obtain ⟨cell, known⟩ := Option.isSome_iff_exists.mp known
      rw [step_again reached top (.inr rfl) kind known] at outcome
      split at outcome <;> cases outcome
      rfl
    · intro top outcome
      exact step_exec_quiet reached top kind outcome
  · intro context rest function argc location effect next outcome
    exact step_call_quiet outcome

def relabelled : Firmware where
  program := {
    nodes := #[
      ⟨.stringLiteral "ab", ⟨1, 16⟩⟩,
      ⟨.varDecl "label" (.of .text) (some 0) false false, ⟨1, 8⟩⟩, ⟨.identifier "label", ⟨2, 16⟩⟩,
      ⟨.intLiteral 1 false, ⟨2, 22⟩⟩, ⟨.index 2 3, ⟨2, 21⟩⟩, ⟨.intLiteral 120 false, ⟨2, 27⟩⟩,
      ⟨.assign 4 5, ⟨2, 25⟩⟩, ⟨.exprStmt 6, ⟨2, 16⟩⟩, ⟨.block [7], ⟨2, 14⟩⟩,
      ⟨.functionDef "setup" [] (.of .void) 8, ⟨2, 6⟩⟩]
    items := [1, 9] }

def relabelling : Context := (relabelled.callRun (.initial Session.defaultSeed) [] [] 14).context

theorem relabelling_reached : relabelled.Reaches none relabelling := by
  refine (Reaches.start.callRun [] [] 14).going ?_
  decide +kernel

/-- The name of a place and the type of its value behind a step that succeeds. -/
def placeAfter (place : Place) : EStateM.Result Fault Context Effect → Option (String × Option String)
  | .ok _ next =>
    some (next.env.placeName place, (next.env.read place).toOption.map Value.typeName)
  | .error _ _ => none

/-- The character is reported, and not the number that was assigned. -/
theorem relabelled_reports :
    ∃ next stored, relabelled.step relabelling (.assign 6) relabelling.frames.tail =
        .ok (.emit (.varSet "label[1]" (next.env.payload stored))) next ∧
      next.env.read ⟨.global 1, [.index 1]⟩ = .ok stored ∧ stored.typeName = "char" := by
  let place : Place := ⟨.global 1, [.index 1]⟩
  have after : placeAfter place (relabelled.step relabelling (.assign 6) relabelling.frames.tail) =
      some ("label[1]", some "char") := by
    decide +kernel
  cases outcome : relabelled.step relabelling (.assign 6) relabelling.frames.tail with
  | error =>
    rw [outcome] at after
    cases after
  | ok effect next =>
    rw [outcome] at after
    obtain ⟨name, kind⟩ := Prod.mk.inj (Option.some.inj after)
    obtain ⟨-, reported, -⟩ := stores_reported relabelled
    obtain ⟨aimed, stored, reported⟩ := reported _ _ _ _ _ relabelling_reached rfl outcome
    have target : Frame.target? (.assign 6) relabelling.values = some place := by decide +kernel
    obtain rfl : place = aimed := Option.some.inj (target.symm.trans reported.target)
    have acyclic : Acyclic relabelled.structs := .of_flat (by rintro _ ⟨⟩)
    have read := reported.typed acyclic (Library.standard_computes _)
    rw [read] at kind
    rw [reported.reported, name]
    exact ⟨next, stored, rfl, read, Option.some.inj kind⟩

end Firmware

end Breadboard
