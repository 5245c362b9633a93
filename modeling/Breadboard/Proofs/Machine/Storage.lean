import Breadboard.Proofs.Machine.Declaration

/-!
What one step does to variables. Three kinds of frames write, and only in the variable that their
target lies in; a constant refuses them. Steps that declare variables leave those that were there,
and steps that close scopes at most take variables away. So a variable that a step does not write
stays what it was for as long as its cell is live, and a constant is what it was declared as.
-/

namespace Breadboard

open Environment

/-- A constant is of a constant type that is no pointer. -/
def Variable.isConstant (held : Variable) : Bool :=
  held.type.isConst && held.type.pointerDepth = 0

/-- The place that a frame is about to write. -/
def Frame.target? (frame : Frame) (values : List Value) : Option Place :=
  match frame, values with
  | .incDec _, .pointer place :: _ => some place
  | .assign _, _ :: .pointer place :: _ => some place
  | .compoundAssign _, _ :: .pointer place :: _ => some place
  | _, _ => none

namespace Frame

variable {values : List Value} {place : Place} {node : NodeId}

theorem target?_incDec (target : target? (.incDec node) values = some place) :
    ∃ below, values = .pointer place :: below := by
  unfold target? at target
  split at target <;> simp_all

theorem target?_assign {frame : Frame}
    (assigns : frame = .assign node ∨ frame = .compoundAssign node)
    (target : frame.target? values = some place) :
    ∃ value below, values = value :: .pointer place :: below := by
  unfold target? at target
  split at target <;> simp_all

end Frame

namespace Environment

variable {env next : Environment} {place : Place} {held found : Variable} {cell : Cell}

theorem checkWritable_constant (resolved : env.resolve? place.cell = some held)
    (constant : held.isConstant = true) :
    env.checkWritable place = .error (.constAssignment held.name) := by
  unfold Variable.isConstant at constant
  rw [checkWritable, resolve_eq_ok_iff.mpr resolved]
  simp only [constant, if_true]

theorem checkWritable_eq_ok (writable : env.checkWritable place = .ok ()) :
    ∃ found, env.resolve? place.cell = some found ∧ found.isConstant = false := by
  unfold checkWritable at writable
  split at writable
  · cases writable
  · rename_i found resolved
    split at writable
    · cases writable
    · rename_i free
      exact ⟨found, resolve_eq_ok_iff.mp resolved, Bool.eq_false_iff.mpr free⟩

/-- A value is stored at a place. The variable there is no constant, and the rest of its value is
as before. -/
structure Stores (env : Environment) (place : Place) (stored : Value) (found : Variable)
    (written : Value) (next : Environment) : Prop where
  resolved : env.resolve? place.cell = some found
  writable : found.isConstant = false
  replaced : found.value.write place.path stored = .ok written
  made : next = env.setValue place.cell written

theorem Stores.resolve? (stores : env.Stores place stored found written next) : next.resolve? cell =
      if cell = place.cell then some { found with value := written } else env.resolve? cell := by
  rw [stores.made, resolve?_setValue stores.resolved]

def Spares (env : Environment) (cell : Cell) (closing : Bool) (next : Environment) : Prop :=
  next.resolve? cell = env.resolve? cell ∨ closing = true ∧ next.resolve? cell = none

theorem Spares.popScope (spares : env.Spares cell true next) :
    env.Spares cell true next.popScope := by
  cases after : next.popScope.resolve? cell with
  | none => exact .inr ⟨rfl, after⟩
  | some found =>
    have before := resolve?_popScope after
    rcases spares with same | ⟨-, dead⟩
    · exact .inl (after.trans (before.symm.trans same))
    · cases dead.symm.trans before

theorem Gains.resolve?_of_live (gains : env.Gains decl next)
    (live : env.resolve? cell = some found) : next.resolve? cell = some found := by
  cases cell with
  | «global» index =>
    have held : env.globals[index]? = some found := live
    rcases gains.globals with same | pushed
    · simpa only [Environment.resolve?, same] using live
    · simpa only [Environment.resolve?, pushed] using getElem?_push_of_eq_some _ held
  | frame index generation =>
    have inside : index < env.locals.size := by
      by_contra above
      simp [Environment.resolve?, Array.getElem?_eq_none (Nat.le_of_not_lt above)] at live
    rw [gains.resolve?_frame inside, live]

end Environment

def Firmware.Fitted (fw : Firmware) (env : Environment) (place : Place) (stored : Value) :
    Prop :=
  ∃ type given, env.placeType fw.structs place = .ok type ∧
    Value.convert fw.structs given type = .ok stored

namespace Act

variable {α : Type} {fw : Firmware} {ctx final : Context} {frame : Frame} {fault : Fault}
  {place : Place} {held : Variable} {cell : Cell}

theorem eq_error_of_meets {act : Act α}
    (meets : act.Meets ctx (fun _ _ => False) fun cause left => cause = fault ∧ left = final) :
    act ctx = .error fault final := by
  cases out : act ctx with
  | ok value left => exact (meets.of_ok out).elim
  | error cause left =>
    obtain ⟨rfl, rfl⟩ := meets.of_error out
    rfl

theorem meets_pop_cons (loc : Location) (value : Value) (below : List Value) :
    (pop loc).Meets { ctx with values := value :: below } yields fails ↔
      yields value { ctx with values := below } := Iff.rfl

theorem meets_store (value : Value) (loc : Location)
    (writable : ctx.env.checkWritable place = .ok ()) :
    (store fw place value loc).Meets ctx (fun res final => ∃ found written,
        ctx.env.Stores place res.1 found written final.env ∧
        fw.Fitted ctx.env place res.1 ∧
        res.2 = .emit (.varSet (final.env.placeName place) (final.env.payload res.1)))
      (fun _ final => final.env = ctx.env) := by
  obtain ⟨found, resolved, changeable⟩ := checkWritable_eq_ok writable
  simp only [store, meets_bind, meets_environment, meets_attemptMemory, meets_convert,
    meets_setEnvironment, meets_varSet, meets_pure]
  refine ⟨fun type placed => ⟨fun stored fits => ⟨fun next out => ?_, fun _ _ => trivial⟩,
    fun _ _ => trivial⟩, fun _ _ => trivial⟩
  obtain ⟨same, also, out⟩ := bind_eq_ok.mp out
  cases (resolve_eq_ok_iff.mp also).symm.trans resolved
  obtain ⟨written, made, out⟩ := bind_eq_ok.mp out
  cases out
  exact ⟨found, written, ⟨resolved, changeable, made, rfl⟩, ⟨type, _, placed, fits⟩, trivial⟩

def Reports (fw : Firmware) (frame : Frame) (ctx : Context) (effect : Effect)
    (next : Context) : Prop :=
  ∃ place found stored written, frame.target? ctx.values = some place ∧
    ctx.env.Stores place stored found written next.env ∧
    fw.Fitted ctx.env place stored ∧
    effect = .emit (.varSet (next.env.placeName place) (next.env.payload stored))

theorem meets_storeAndPush (value : Value) (loc : Location)
    (left : Value → Value) (target : frame.target? ctx.values = some place)
    (writable : ctx.env.checkWritable place = .ok ()) : (do
      let (stored, effect) ← store fw place value loc
      push (left stored)
      pure effect : Act Effect).Meets { ctx with values := below }
        (fun effect next => Reports fw frame ctx effect next)
        (fun _ final => final.env = ctx.env) := by
  refine Meets.bind (meets_store value loc writable) ?_ fun _ _ same => same
  rintro ⟨stored, effect⟩ reached ⟨found, written, stores, fitted, reports⟩
  exact ⟨place, found, stored, written, target, stores, fitted, reports⟩

/-- A frame that writes stores a value at its target and reports it, or fails and changes
nothing. -/
theorem meets_writing (writes : frame.writes = true) : (runFrame fw frame).Meets ctx
      (fun effect next => Reports fw frame ctx effect next)
      (fun _ final => final.env = ctx.env) := by
  have quits {env : Environment} (_ : Fault) (_ : List Value) : env = env := rfl
  cases frame with
  | incDec node =>
    simp only [runFrame, runIncDec]
    split
    · rename_i op _ _
      refine meets_popPlace_bind quits _ fun place below opds => ?_
      simp only [meets_bind, meets_environment, meets_attempt, meets_attemptMemory]
      refine ⟨fun _ writable => ⟨fun old _ => ⟨fun new _ => ?_, fun _ _ => trivial⟩,
        fun _ _ => trivial⟩, fun _ _ => trivial⟩
      have target : Frame.target? (.incDec node) ctx.values = some place := by
        rw [opds]
        rfl
      exact (meets_bind _ _).mp (meets_storeAndPush new _
        (fun stored => if op.yieldsNew then stored else old) target writable)
    · rfl
  | assign node =>
    simp only [runFrame, runAssign]
    refine meets_pop_bind quits _ fun value above opds => ?_
    refine meets_popPlace_bind quits _ fun place below places => ?_
    simp only [meets_bind, meets_environment, meets_attempt]
    refine ⟨fun _ writable => ?_, fun _ _ => trivial⟩
    have target : Frame.target? (.assign node) ctx.values = some place := by
      rw [opds, show above = _ from places]
      rfl
    exact (meets_bind _ _).mp (meets_storeAndPush value _ id target writable)
  | compoundAssign node =>
    simp only [runFrame, runCompoundAssign]
    split
    · refine meets_pop_bind quits _ fun right above opds => ?_
      refine meets_popPlace_bind quits _ fun place below places => ?_
      simp only [meets_bind, meets_environment, meets_attempt, meets_attemptMemory]
      refine ⟨fun _ writable => ⟨fun current _ => ⟨fun res _ => ?_, fun _ _ => trivial⟩,
        fun _ _ => trivial⟩, fun _ _ => trivial⟩
      have target : Frame.target? (.compoundAssign node) ctx.values = some place := by
        rw [opds, show above = _ from places]
        rfl
      exact (meets_bind _ _).mp (meets_storeAndPush res _ id target writable)
    · rfl
  | _ => cases writes

/-- A constant refuses to be written, before anything else can go wrong. -/
theorem runFrame_constant (stands : frame.node? = some node) (suits : fw.Suits frame)
    (target : frame.target? ctx.values = some place)
    (resolved : ctx.env.resolve? place.cell = some held) (constant : held.isConstant = true) :
    runFrame fw frame ctx = .error ⟨.constAssignment held.name, fw.program.location node⟩
        { ctx with values := ctx.values.drop (fw.pops frame) } := by
  have refused := checkWritable_constant resolved constant
  apply eq_error_of_meets
  cases frame with
  | incDec =>
    cases stands
    obtain ⟨op, operand, kind⟩ := suits
    obtain ⟨below, opds⟩ := Frame.target?_incDec target
    simp [runFrame, runIncDec, kind, popPlace, meets_pop _ opds, refused, meets_attempt,
      opds, Firmware.pops]
  | assign =>
    cases stands
    obtain ⟨value, below, opds⟩ := Frame.target?_assign (.inl rfl) target
    simp [runFrame, runAssign, popPlace, meets_pop _ opds, meets_pop_cons, refused,
      meets_attempt, opds, Firmware.pops]
  | compoundAssign =>
    cases stands
    obtain ⟨op, operand, expr, kind⟩ := suits
    obtain ⟨value, below, opds⟩ := Frame.target?_assign (.inr rfl) target
    simp [runFrame, runCompoundAssign, kind, popPlace, meets_pop _ opds, meets_pop_cons,
      refused, meets_attempt, opds, Firmware.pops]
  | _ => cases target

/-! All steps. -/

theorem meets_closing (closes : fw.closes frame = true) :
    let spared (next : Context) : Prop := ctx.env.Spares cell true next.env
    (runFrame fw frame).Meets ctx (fun _ => spared) (fun _ => spared) := by
  refine meets_memory _ frame ?_ ?_ ?_ (fun _ _ spares => spares.popScope) (.inl rfl)
  · intro stays
    cases stays.symm.trans closes
  · intro declares
    cases (closes_eq_false_of_declares declares).symm.trans closes
  · intro writes
    cases (closes_eq_false_of_writes writes).symm.trans closes

theorem meets_filling (stays : fw.closes frame = false) (still : frame.writes = false)
    (live : ctx.env.resolve? cell = some held) :
    let spared (next : Context) : Prop := next.env.resolve? cell = some held
    (runFrame fw frame).Meets ctx (fun _ => spared) (fun _ => spared) := by
  refine meets_memory (·.resolve? cell = some held) frame ?_ ?_ ?_ ?_ live
  · exact fun _ => ⟨fun _ live => live⟩
  · exact fun _ => {
      declare := fun live _ out =>
        perform_of_declare out ▸ (gains_declare _ _).resolve?_of_live live
      declareStatic := fun site live _ =>
        (gains_declareStatic _ site _).resolve?_of_live live
      rebind := fun live known bound =>
        perform_of_rebind known bound ▸
          (gains_declareStatic _ _ _).resolve?_of_live live }
  · intro writes
    cases still.symm.trans writes
  · intro closes
    cases stays.symm.trans closes

/-- A step leaves a variable that it does not aim at, and every constant. -/
theorem meets_spares (live : ctx.env.resolve? cell = some held)
    (spared : ∀ place, frame.target? ctx.values = some place → place.cell = cell →
      held.isConstant = true) :
    let spares (next : Context) : Prop := ctx.env.Spares cell (fw.closes frame) next.env
    (runFrame fw frame).Meets ctx (fun _ => spares) (fun _ => spares) := by
  intro spares
  by_cases closes : fw.closes frame = true
  · simp only [spares, closes]
    exact meets_closing closes
  · have stays := Bool.eq_false_iff.mpr closes
    by_cases writes : frame.writes = true
    · refine (meets_writing writes).weaken ?_ fun _ final same => .inl (by rw [same])
      rintro effect next ⟨place, found, stored, written, target, stores, -⟩
      have apart : cell ≠ place.cell := by
        rintro rfl
        have constant := spared place target rfl
        cases stores.resolved.symm.trans live
        cases constant.symm.trans stores.writable
      exact .inl (by rw [stores.resolve?, if_neg apart])
    · have filled := meets_filling stays (Bool.eq_false_iff.mpr writes) live
      exact filled.weaken (fun _ _ same => .inl (same.trans live.symm))
        fun _ _ same => .inl (same.trans live.symm)

/-- A constant behind a step was there before, or the frame introduces it. -/
theorem meets_constants :
    let came (next : Context) : Prop := ∀ cell held, next.env.resolve? cell = some held →
      held.isConstant = true → ctx.env.resolve? cell = some held ∨
        fw.Introduces ctx.env ctx.values frame held
    (runFrame fw frame).Meets ctx (fun _ => came) (fun _ => came) := by
  intro came
  by_cases declares : fw.declares frame = true
  · exact (adds_declaring declares).weaken (fun _ _ adds cell held resolved _ =>
      adds cell held resolved) fun _ _ adds cell held resolved _ => adds cell held resolved
  by_cases writes : frame.writes = true
  · refine (meets_writing writes).weaken ?_ ?_
    · rintro effect next ⟨place, found, stored, written, -, stores, -⟩ cell held resolved constant
      rw [stores.resolve?] at resolved
      split at resolved
      · cases resolved
        cases constant.symm.trans stores.writable
      · exact .inl resolved
    · intro _ final same cell held resolved _
      exact .inl (same ▸ resolved)
  -- All other steps at most open and close scopes.
  have adds : (runFrame fw frame).Adds ctx fun _ => False :=
    meets_memory _ frame (fun _ => ⟨fun _ adds => adds⟩) (absurd · declares) (absurd · writes)
      (fun _ _ adds cell held resolved => adds cell held (resolve?_popScope resolved)) .refl
  have came_of_adds (next : Context) (adds : ctx.env.Adds (fun _ => False) next.env) :
      came next := fun cell held resolved _ => .inl ((adds cell held resolved).resolve_right id)
  exact adds.weaken (fun _ => came_of_adds) fun _ => came_of_adds

end Act

end Breadboard
