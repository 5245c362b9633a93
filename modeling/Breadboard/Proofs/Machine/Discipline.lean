import Breadboard.Machine.Step
import Breadboard.Proofs.Machine.BuiltinAnswer
import Breadboard.Proofs.Machine.Outcome

/-!
Disciplines that acts keep. A discipline says what is asked of operands, of the values of variables,
of memory and of frames, and that the ways in which values come about respect it.
`act.KeepsAt disc partway ctx fits` says that an act which starts in a context ends under the
discipline, whether it succeeds or fails, and that its result fits.

New frames are what a step ends with. An act that comes partway through a step leaves the
frames in order, as every failure does, and nothing is said of the frames behind a whole step.
-/

namespace Breadboard

def Frame.node? : Frame → Option NodeId
  | .program _ | .discard | .callReturn .. | .collect _ => none
  | .exec node | .block node _ _ | .declare node | .construct node | .branch node
  | .loop node _ _ _ | .switchSelect node | .switch node _ _ | .leave node | .call node _ _
  | .builtin node | .method node | .eval node | .evalPlace node | .load node | .binary node
  | .logical node _ | .unary node | .incDec node | .select node | .assign node
  | .compoundAssign node | .cast node | .indexPlace node _ | .fieldPlace node
  | .derefPlace node _ => some node

structure Discipline (fw : Firmware) where
  operand : Value → Prop
  /-- The values that variables of a type may hold. -/
  stored : DataType → Value → Prop
  memory : Environment → Prop
  frame : Frame → Prop
  bare {value : Value} : value.isBare = true → operand value
  /-- A pointer may move within its variable. -/
  pointer {place origin : Place} : operand (.pointer origin) → place.cell = origin.cell →
    operand (.pointer place)
  array {items : List Value} : (∀ item ∈ items, operand item) → operand (.array items)
  read {env : Environment} {place : Place} {value : Value} : memory env →
    operand (.pointer place) → env.read place = .ok value → operand value
  convert {value res : Value} {type : DataType} : operand value →
    value.convert fw.structs type = .ok res → stored type res
  default (type : DataType) : stored type (type.default fw.structs)
  object (className name : String) : stored (.of (.library className)) (.object ⟨className, name⟩)
  sized {type : DataType} {value : Value} : stored type value → stored (type.sizedBy value) value
  operand_of_stored {type : DataType} {value : Value} : stored type value → operand value
  computed {className method : String} {compute : List Value → Option Value}
    {values : List Value} {res : Value} :
    fw.library.route? className method = some (.internal compute) →
    (∀ value ∈ values, operand value) → compute values = some res → operand res
  nodeless {other : Frame} : other.node? = none → frame other

namespace Discipline

variable {fw : Firmware}

def ofState (fw : Firmware) (memory : Environment → Prop) (frame : Frame → Prop)
    (nodeless : ∀ other : Frame, other.node? = none → frame other) : Discipline fw where
  operand _ := True
  stored _ _ := True
  memory := memory
  frame := frame
  bare _ := trivial
  pointer _ _ := trivial
  array _ := trivial
  read _ _ _ := trivial
  convert _ _ := trivial
  default _ := trivial
  object _ _ := trivial
  sized _ := trivial
  operand_of_stored _ := trivial
  computed _ _ _ := trivial
  nodeless := nodeless _

def ofMemory (fw : Firmware) (memory : Environment → Prop) : Discipline fw :=
  ofState fw memory (fun _ => True) fun _ _ => trivial

def free (fw : Firmware) : Discipline fw := ofMemory fw fun _ => True

structure Opens (disc : Discipline fw) : Prop where
  openScope {env : Environment} (kind : ScopeKind) : disc.memory env →
    disc.memory (env.pushScope kind)

structure Declares (disc : Discipline fw) : Prop where
  declare {env next : Environment} {decl : Variable} {cell : Cell} : disc.memory env →
    disc.stored decl.type decl.value → env.declare decl = .ok (cell, next) →
    disc.memory next
  declareStatic {env : Environment} {decl : Variable} (site : NodeId) :
    disc.memory env → disc.stored decl.type decl.value →
    disc.memory (env.declareStatic site decl).2
  rebind {env next : Environment} {site : NodeId} {name : String} {cell : Cell} :
    disc.memory env → env.staticCell? site = some cell → env.bind name cell = .ok next →
    disc.memory next

structure Writes (disc : Discipline fw) : Prop where
  write {env next : Environment} {place : Place} {type : DataType} {value : Value} :
    disc.memory env → disc.operand (.pointer place) →
    env.checkWritable place = .ok () → env.placeType fw.structs place = .ok type →
    disc.stored type value → env.write place value = .ok next → disc.memory next

/-- Memory stays in order when scopes open and variables are declared and written. -/
structure Grows (disc : Discipline fw) : Prop extends
  disc.Opens, disc.Declares, disc.Writes

def Closes (disc : Discipline fw) : Prop :=
  ∀ env, disc.memory env → disc.memory env.popScope

def Sees (disc : Discipline fw) (env : Environment) : Prop :=
  ∀ name cell, env.lookup? name = some cell → disc.operand (.pointer (.of cell))

structure Holds (disc : Discipline fw) (partway : Bool) (ctx : Context) : Prop where
  memory : disc.memory ctx.env
  operands : ∀ value ∈ ctx.values, disc.operand value
  frames : partway = true → ∀ frame ∈ ctx.frames, disc.frame frame

variable {disc : Discipline fw} {env : Environment} {place : Place} {value : Value}

theorem Holds.weaken (holds : disc.Holds true ctx) : disc.Holds partway ctx :=
  ⟨holds.memory, holds.operands, fun _ => holds.frames rfl⟩

theorem free_holds (partway : Bool) (ctx : Context) : (free fw).Holds partway ctx :=
  ⟨trivial, fun _ _ => trivial, fun _ _ _ => trivial⟩

theorem free_grows : (free fw).Grows :=
  ⟨⟨fun _ _ => trivial⟩, ⟨fun _ _ _ => trivial, fun _ _ _ => trivial, fun _ _ _ => trivial⟩,
    ⟨fun _ _ _ _ _ _ => trivial⟩⟩

theorem load (memory : disc.memory env) (operand : disc.operand (.pointer place))
    (loaded : env.load place = .ok value) : disc.operand value := by
  obtain ⟨held, out, loaded⟩ := bind_eq_ok.mp loaded
  have sound := disc.read memory operand out
  split at loaded
  · cases loaded
    exact disc.pointer operand rfl
  · cases loaded
    exact sound

theorem textOf (operand : disc.operand value) (env : Environment) :
    disc.operand (env.textOf value) := by
  unfold Environment.textOf
  split
  · split
    · exact disc.bare rfl
    · exact operand
  · exact operand

theorem stems (stems : Value.Stems opds value)
    (sound : ∀ operand ∈ opds, disc.operand operand) : disc.operand value := by
  cases stems with
  | bare isBare => exact disc.bare isBare
  | pointer among within => exact disc.pointer (sound _ among) within

theorem leadsTo (memory : disc.memory env) (operand : disc.operand (.pointer place))
    (leads : env.LeadsTo place target.cell) : disc.operand (.pointer target) := by
  rcases leads with within | ⟨pointee, held, within⟩
  · exact disc.pointer operand within
  · exact disc.pointer (disc.read memory operand held) within

mutual

theorem ofPrimitive (disc : Discipline fw) (primitive : Primitive) :
    disc.operand (.ofPrimitive primitive) := by
  match primitive with
  | .bool _ | .float _ | .text _ =>
    unfold Value.ofPrimitive
    exact disc.bare rfl
  | .int n =>
    unfold Value.ofPrimitive Value.ofInt64
    split <;> exact disc.bare rfl
  | .list items =>
    unfold Value.ofPrimitive
    exact disc.array (ofPrimitives disc items)

theorem ofPrimitives (disc : Discipline fw) (primitives : List Primitive) :
    ∀ value ∈ Value.ofPrimitives primitives, disc.operand value := by
  match primitives with
  | [] =>
    unfold Value.ofPrimitives
    nofun
  | primitive :: rest =>
    unfold Value.ofPrimitives
    rw [List.forall_mem_cons]
    exact ⟨ofPrimitive disc primitive, ofPrimitives disc rest⟩

end

end Discipline

namespace Act

variable {α : Type} {fw : Firmware}

def KeepsAt (disc : Discipline fw) (partway : Bool) (ctx : Context) (act : Act α)
    (fits : α → Prop) : Prop :=
  act.Meets ctx (fun value final => fits value ∧ disc.Holds partway final)
    (fun _ final => disc.Holds true final)

end Act

end Breadboard
