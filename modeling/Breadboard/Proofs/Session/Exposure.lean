import Breadboard.Proofs.Session.Constants
import Breadboard.Proofs.Session.Reporting

/-!
How far constants are guarded. A store asks whether the variable that it goes into is a constant,
and does not look at what is declared constant on the way from there: members of structures, and
what pointers point to. These, and nothing else that is constant, can be written.
-/

open List

namespace Breadboard

open DataType

namespace DataType

def isConstant (type : DataType) : Bool := type.isConst && type.pointerDepth = 0

theorem isConstant_iff {type : DataType} :
    type.isConstant = true ↔ type.isConst = true ∧ type.pointerDepth = 0 := by
  simp [isConstant]

theorem element_of_ne_nil {type : DataType} (isArray : type.dims ≠ []) :
    type.element = { type with dims := type.dims.tail } := by
  obtain ⟨dim, dims, shape⟩ := exists_cons_of_ne_nil isArray
  simp [element, shape]

end DataType

def PathStep.isIndex : PathStep → Bool
  | .index _ => true
  | .field _ => false

namespace Environment

/-- The path of a place comes to a constant from what is none: to a member of a structure that is
declared constant, or to what a pointer to constants points to. Only indices follow, and they stay
within its dimensions if it is made of strings, since characters of strings are no constants. -/
def Exposed (structs : StructTable) (owner : String) (type : DataType) (path : List PathStep) :
    Prop :=
  ∃ before step after inner declared, path = before ++ step :: after ∧
    before.foldlM (stepType structs owner) type = .ok inner ∧
    stepType structs owner inner step = .ok declared ∧
    ((∃ name, step = .field name) ∨ inner.isPointer = true) ∧ declared.isConstant = true ∧
    after.all PathStep.isIndex = true ∧
    (declared.base = .text → after.length ≤ declared.dims.length)

variable {structs : StructTable} {owner : String} {type inner target : DataType}
  {step : PathStep} {path : List PathStep}

theorem stepType_index (pos : Nat) : stepType structs owner type (.index pos) =
      .ok (if type.base = .text ∧ type.dims = [] then .of .char else type.element) := by
  cases dims : type.dims <;> by_cases text : type.base = .text <;>
    simp [stepType, isArray, dims, text]

theorem Exposed.cons (stepped : stepType structs owner type step = .ok inner)
    (exposed : Exposed structs owner inner path) : Exposed structs owner type (step :: path) := by
  obtain ⟨before, last, after, reached, declared, rfl, walked, found⟩ := exposed
  refine ⟨step :: before, last, after, reached, declared, rfl, ?_, found⟩
  rw [foldlM_cons, stepped]
  exact walked

/-- Elements of a constant array are constants. -/
theorem isConstant_of_indices (walked : path.foldlM (stepType structs owner) type = .ok target)
    (indices : path.all PathStep.isIndex = true) (constant : type.isConstant = true)
    (within : type.base = .text → path.length ≤ type.dims.length) : target.isConstant = true := by
  induction path generalizing type with
  | nil =>
    cases walked
    exact constant
  | cons step path ih =>
    obtain ⟨index, indices⟩ := Bool.and_eq_true_iff.mp indices
    cases step with
    | field => cases index
    | index pos =>
      have inside : ¬(type.base = .text ∧ type.dims = []) := by
        rintro ⟨text, flat⟩
        simpa [flat] using within text
      rw [foldlM_cons, stepType_index, if_neg inside] at walked
      by_cases flat : type.dims = []
      · have same : type.element = type := by
          simp [element, flat, (isConstant_iff.mp constant).2]
        rw [same] at walked
        exact ih walked indices constant fun text => absurd ⟨text, flat⟩ inside
      · rw [element_of_ne_nil flat] at walked
        refine ih walked indices constant fun text => ?_
        have room := within text
        rw [length_cons] at room
        rw [length_tail]
        omega

/-- A constant on a path comes from a declaration on the way, or from where the path starts. -/
theorem exposed_of_isConstant (walked : path.foldlM (stepType structs owner) type = .ok target)
    (constant : target.isConstant = true) :
    Exposed structs owner type path ∨ path.all PathStep.isIndex = true ∧ type.isConstant = true ∧
      (type.base = .text → path.length ≤ type.dims.length) := by
  induction path generalizing type with
  | nil =>
    cases walked
    exact .inr ⟨rfl, constant, fun _ => Nat.zero_le _⟩
  | cons step path ih =>
    rw [foldlM_cons] at walked
    obtain ⟨inner, stepped, walked⟩ := bind_eq_ok.mp walked
    rcases ih walked with exposed | ⟨indices, isConstant, within⟩
    · exact .inl (exposed.cons stepped)
    · have here (declares : (∃ name, step = .field name) ∨ type.isPointer = true) :
          Exposed structs owner type (step :: path) :=
        ⟨[], step, path, type, inner, rfl, rfl, stepped, declares, isConstant, indices, within⟩
      cases step with
      | field name => exact .inl (here (.inl ⟨name, rfl⟩))
      | index pos =>
        rw [stepType_index] at stepped
        split at stepped
        · cases stepped
          cases isConstant
        · rename_i inside
          cases stepped
          by_cases flat : type.dims = []
          · by_cases pointer : 0 < type.pointerDepth
            · exact .inl (here (.inr (by simp [isPointer, flat, pointer])))
            · have same : type.element = type := by simp [element, flat, pointer]
              rw [same] at isConstant
              exact .inr ⟨indices, isConstant, fun text => absurd ⟨text, flat⟩ inside⟩
          · rw [element_of_ne_nil flat] at isConstant within
            refine .inr ⟨indices, isConstant, fun text => ?_⟩
            have room := within text
            have some := length_pos_iff.mpr flat
            rw [length_tail] at room
            rw [length_cons]
            omega

theorem Exposed.isConstant (walked : path.foldlM (stepType structs owner) type = .ok target)
    (exposed : Exposed structs owner type path) : target.isConstant = true := by
  obtain ⟨before, step, after, inner, declared, rfl, reached, stepped, -, constant, indices,
    within⟩ := exposed
  rw [foldlM_append, reached, bind_eq_ok] at walked
  obtain ⟨_, ⟨⟩, walked⟩ := walked
  rw [foldlM_cons, stepped] at walked
  exact isConstant_of_indices walked indices constant within

end Environment

namespace Firmware

variable {fw : Firmware} {ctx next : Context} {frame : Frame} {rest : List Frame} {effect : Effect}

/-- A step stores at a place in a variable that is no constant. The type of the place is constant
exactly if the place is exposed. -/
structure StoresWithin (fw : Firmware) (ctx : Context) (frame : Frame) (next : Context)
    (place : Place) (held : Variable) (type : DataType) : Prop where
  target : frame.target? ctx.values = some place
  stores : ∃ stored written, ctx.env.Stores place stored held written next.env
  typed : ctx.env.placeType fw.structs place = .ok type
  constant_iff : type.isConstant = true ↔
    Environment.Exposed fw.structs held.name held.type place.path

theorem step_stores_within (writes : frame.writes = true)
    (out : fw.step ctx frame rest = .ok effect next) :
    ∃ place held type, fw.StoresWithin ctx frame next place held type := by
  obtain ⟨place, held, stored, written, target, stores, ⟨type, -, placed, -⟩, -⟩ :=
    (Act.meets_writing writes).of_ok out
  obtain ⟨found, known, walked⟩ := bind_eq_ok.mp placed
  cases (Environment.resolve_eq_ok_iff.mp known).symm.trans stores.resolved
  refine ⟨place, held, type, target, ⟨stored, written, stores⟩, placed, ?_, ?_⟩
  · intro constant
    rcases Environment.exposed_of_isConstant walked constant with exposed | ⟨-, whole, -⟩
    · exact exposed
    · cases stores.writable.symm.trans whole
  · exact fun exposed => exposed.isConstant walked

/-- Which constants can be written. A step that succeeds to store somewhere does so in a variable
that is no constant, and then the type of the place is constant exactly if the path comes to a
constant member of a structure or to what a pointer to constants points to. In a variable that is a
constant no place is written. -/
theorem constant_stored_iff (firmware : Firmware) :
    (∀ context frame rest effect next, frame.writes = true →
      firmware.step context frame rest = .ok effect next →
      ∃ place held type, firmware.StoresWithin context frame next place held type) ∧
    ∀ context frame rest place held, firmware.Reaches none context →
      context.frames = frame :: rest → frame.target? context.values = some place →
      context.env.resolve? place.cell = some held → held.isConstant = true →
      ∃ location final, final.env = context.env ∧
        firmware.step context frame rest = .error ⟨.constAssignment held.name, location⟩ final := by
  constructor
  · intro context frame rest effect next writes outcome
    exact step_stores_within writes outcome
  · intro context frame rest place held reached top target live constant
    obtain ⟨location, final, same, refused, -⟩ := step_refused reached top target live constant
    exact ⟨location, final, same, refused⟩

def gauge : Firmware where
  program := {
    nodes := #[
      ⟨.structDef "Gauge" [⟨"zero", { base := .int, isConst := true }⟩], ⟨1, 1⟩⟩,
      ⟨.varDecl "gauge" (.of (.record "Gauge")) none false false, ⟨2, 1⟩⟩,
      ⟨.identifier "gauge", ⟨3, 16⟩⟩, ⟨.member 2 "zero" false, ⟨3, 21⟩⟩,
      ⟨.intLiteral 5 false, ⟨3, 29⟩⟩, ⟨.assign 3 4, ⟨3, 27⟩⟩, ⟨.exprStmt 5, ⟨3, 16⟩⟩,
      ⟨.block [6], ⟨3, 14⟩⟩, ⟨.functionDef "setup" [] (.of .void) 7, ⟨3, 6⟩⟩]
    items := [0, 1, 8] }

def gauging : Context := (gauge.callRun (.initial Session.defaultSeed) [] [] 11).context

theorem gauging_reached : gauge.Reaches none gauging := by
  refine (Reaches.start.callRun [] [] 11).going ?_
  decide +kernel

/-- A constant member of a variable that is not constant is written. -/
theorem gauge_rewritten :
    gauge.Reaches none gauging ∧ ∃ effect next held type,
      gauge.step gauging (.assign 5) gauging.frames.tail = .ok effect next ∧
      gauge.StoresWithin gauging (.assign 5) next ⟨.global 1, [.field "zero"]⟩ held type ∧
      type.isConstant = true := by
  let place : Place := ⟨.global 1, [.field "zero"]⟩
  have after : (placeAfter place (gauge.step gauging (.assign 5) gauging.frames.tail)).isSome =
      true := by
    decide +kernel
  cases outcome : gauge.step gauging (.assign 5) gauging.frames.tail with
  | error =>
    rw [outcome] at after
    cases after
  | ok effect next =>
    obtain ⟨aimed, held, type, within⟩ :=
      (constant_stored_iff gauge).1 gauging _ _ effect next rfl outcome
    have target : Frame.target? (.assign 5) gauging.values = some place := by decide +kernel
    obtain rfl : place = aimed := Option.some.inj (target.symm.trans within.target)
    have placed : (gauging.env.placeType gauge.structs place).toOption =
        some { base := .int, isConst := true } := by
      decide +kernel
    rw [within.typed] at placed
    cases placed
    exact ⟨gauging_reached, effect, next, held, _, rfl, within, rfl⟩

end Firmware

end Breadboard
