import Breadboard.Machine.Expression
import Breadboard.Machine.Loop

/-!
Answers of the functions that steps rely on. A cause is the machine's own if it does not come
from values: an operand is missing, a frame stands for a node of the wrong kind, or a loop has
run too often. No function below fails for such a cause. The values that they compute
are bare: they hold no others and point nowhere, unless an operand points there.
-/

open List

namespace Breadboard

def Cause.isOwn : Cause → Bool
  | .unsupported .operandUnderflow => true
  | .unsupported (.wrongNode _) => true
  | .unsupported .callOfNonFunction => true
  | .unsupported .addressOperator => true
  | .iterationCap _ => true
  | _ => false

@[simp] theorem Cause.isOwn_ofMemory (error : MemoryError) :
    (Cause.ofMemory error).isOwn = false := by
  cases error <;> rfl

namespace Value

variable {value : Value}

def isPlain : Value → Bool
  | .array _ | .record _ _ => false
  | _ => true

def isBare : Value → Bool
  | .array _ | .record _ _ | .pointer _ => false
  | _ => true

theorem isPlain_of_isBare (bare : value.isBare = true) : value.isPlain = true := by
  cases value <;> simp_all [isBare, isPlain]

theorem isBare_of_isNumeric (numeric : value.isNumeric = true) : value.isBare = true := by
  cases value <;> simp_all [isNumeric, isBare]

@[simp] theorem isBare_ofLiteral (n : Int64) (unsigned : Bool) :
    (ofLiteral n unsigned).isBare = true := by
  unfold ofLiteral
  split
  · rfl
  · split <;> rfl

/-- A bare value, or a pointer into a variable into which one of the operands points. -/
inductive Stems (opds : List Value) : Value → Prop where
  | bare {value : Value} : value.isBare = true → Stems opds value
  | pointer {place origin} : .pointer origin ∈ opds → place.cell = origin.cell →
      Stems opds (.pointer place)

end Value

def Answers {α : Type} (res : Except Cause α) (fits : α → Prop) : Prop :=
  match res with
  | .ok value => fits value
  | .error cause => cause.isOwn = false

section Rules

variable {α β : Type} {fits : α → Prop}

theorem bind_eq_ok {ε : Type} {res : Except ε β} {next : β → Except ε α} :
    res >>= next = .ok value ↔ ∃ middle, res = .ok middle ∧ next middle = .ok value := by
  cases res <;> simp [Bind.bind, Except.bind]

@[simp] theorem answers_ok (value : α) : Answers (.ok value) fits ↔ fits value := Iff.rfl

@[simp] theorem answers_error (cause : Cause) :
    Answers (.error cause) fits ↔ cause.isOwn = false := Iff.rfl

@[simp] theorem answers_bind (res : Except Cause β) (next : β → Except Cause α) :
    Answers (res >>= next) fits ↔ Answers res fun value => Answers (next value) fits := by
  cases res <;> exact Iff.rfl

@[simp] theorem answers_map (res : Except Cause β) (change : β → α) :
    Answers (change <$> res) fits ↔ Answers res fun value => fits (change value) := by
  cases res <;> exact Iff.rfl

@[simp] theorem answers_mapFunction (res : Except Cause β) (change : β → α) :
    Answers (res.map change) fits ↔ Answers res fun value => fits (change value) := by
  cases res <;> exact Iff.rfl

theorem Answers.of_ok (answers : Answers res fits) (out : res = .ok value) : fits value := by
  simpa only [out, answers_ok] using answers

theorem Answers.of_error (answers : Answers res fits)
    (out : res = .error cause) : cause.isOwn = false := by
  simpa only [out, answers_error] using answers

theorem Answers.weaken (answers : Answers res fits)
    (weaker : ∀ value, fits value → fits' value) : Answers res fits' := by
  cases res with
  | ok value => exact weaker value answers
  | error cause => exact answers

end Rules

namespace BinaryOp

variable (op : BinaryOp)

theorem onInt32_answers (a b : Int32) : Answers (op.onInt32 a b) (·.isBare = true) := by
  unfold onInt32
  split <;> first | rfl | (split <;> rfl)

theorem onUInt32_answers (a b : UInt32) : Answers (op.onUInt32 a b) (·.isBare = true) := by
  unfold onUInt32
  split <;> first | rfl | (split <;> rfl)

theorem onInt64_answers (a b : Int64) : Answers (op.onInt64 a b) (·.isBare = true) := by
  unfold onInt64
  split <;> first | rfl | (split <;> rfl)

theorem onFloat_answers (a b : Binary64) : Answers (op.onFloat a b) (·.isBare = true) := by
  unfold onFloat
  split
  · rfl
  · rfl
  · rfl
  · rfl
  · split
    · split <;> rfl
    · rfl

variable (left right : Value)

theorem shift_answers : Answers (op.shift left right) (·.isBare = true) := by
  unfold shift
  dsimp only
  split
  · split
    · split <;> rfl
    · rfl
  · rfl

theorem onText_answers : Answers (op.onText left right) (·.isBare = true) := by
  unfold onText
  split
  · rfl
  · split
    · split <;> rfl
    · rfl

theorem onPointer_answers : Answers (op.onPointer left right) (·.isBare = true) := by
  unfold onPointer
  dsimp only
  split
  · split
    · rfl
    · split
      · rfl
      · split <;> rfl
  · split
    · rfl
    · split <;> rfl

theorem apply_answers : Answers (op.apply left right) (·.isBare = true) := by
  unfold apply
  split
  · exact onPointer_answers op left right
  · split
    · exact onText_answers op left right
    · split
      · exact shift_answers op left right
      · split
        · exact onInt32_answers op _ _
        · exact onUInt32_answers op _ _
        · exact onInt64_answers op _ _
        · exact onFloat_answers op _ _
        · rfl

end BinaryOp

/-- The operators of places are the only ones that a value cannot answer. -/
theorem UnaryOp.apply_answers {op : UnaryOp} (value : Value) (notDeref : op ≠ .deref)
    (notAddress : op ≠ .addressOf) : Answers (op.apply value) (·.isBare = true) := by
  cases op with
  | deref => exact absurd rfl notDeref
  | addressOf => exact absurd rfl notAddress
  | not | neg | bitNot =>
    simp only [UnaryOp.apply]
    split <;> rfl
  | plus =>
    simp only [UnaryOp.apply]
    split
    · rfl
    · rfl
    · split
      · exact Value.isBare_of_isNumeric ‹_›
      · rfl

theorem IncDecOp.apply_answers (op : IncDecOp) (value : Value) :
    Answers (op.apply value) (·.isBare = true) := by
  unfold IncDecOp.apply
  dsimp only
  split <;> rfl

namespace Environment

variable {place : Place} {distance : Int64} {env : Environment} {left right : Value}

theorem offset?_cell {pointer : Place}
    (found : pointer.offset? distance = some place) : place.cell = pointer.cell := by
  unfold Place.offset? at found
  split at found
  · cases found
  · dsimp only at found
    split at found <;> cases found
    rfl

theorem eq_of_textOf_eq_pointer (shown : env.textOf value = .pointer place) :
    value = .pointer place := by
  unfold textOf at shown
  split at shown
  · split at shown
    · cases shown
    · exact shown
  · exact shown

theorem mem_of_textOperands (among : .pointer place = (env.textOperands left right).1 ∨
      .pointer place = (env.textOperands left right).2) : .pointer place ∈ [left, right] := by
  have shown {value : Value} (same : .pointer place = env.textOf value) : .pointer place = value :=
    (eq_of_textOf_eq_pointer same.symm).symm
  rw [mem_cons, mem_singleton]
  unfold textOperands at among
  split at among
  · exact among.imp_right shown
  · exact among.imp_left shown
  · exact among

theorem pointerOffset?_operand (found : pointerOffset? op left right = some (place, distance)) :
    .pointer place = left ∨ .pointer place = right := by
  unfold pointerOffset? at found
  split at found
  · obtain ⟨_, -, made⟩ := Option.map_eq_some_iff.mp found
    cases made
    exact .inl rfl
  · obtain ⟨_, -, made⟩ := Option.map_eq_some_iff.mp found
    cases made
    exact .inr rfl
  · obtain ⟨_, -, made⟩ := Option.map_eq_some_iff.mp found
    cases made
    exact .inl rfl
  · cases found

variable (env)

theorem offsetPlace_answers (pointer : Place) (distance : Int64) :
    Answers (env.offsetPlace pointer distance) (·.cell = pointer.cell) := by
  unfold offsetPlace
  split
  · rfl
  · split
    · rfl
    · split
      · exact offset?_cell ‹_›
      · rfl

theorem operate_answers (op : BinaryOp) (left right : Value) :
    Answers (env.operate op left right) (Value.Stems [left, right]) := by
  unfold operate
  dsimp only
  split
  · rename_i pointer distance found
    have operand := mem_of_textOperands (pointerOffset?_operand found)
    rw [answers_mapFunction]
    exact (env.offsetPlace_answers pointer distance).weaken fun _ within => .pointer operand within
  · exact (BinaryOp.apply_answers op _ _).weaken fun _ => .bare

variable (place)

theorem checkWritable_answers : Answers (env.checkWritable place) fun _ => True := by
  unfold checkWritable
  split
  · exact Cause.isOwn_ofMemory _
  · split
    · rfl
    · trivial

def LeadsTo (env : Environment) (place : Place) (cell : Cell) : Prop :=
  cell = place.cell ∨ ∃ pointee, env.read place = .ok (.pointer pointee) ∧ cell = pointee.cell

theorem elementOf_answers (index : Int64) :
    Answers (env.elementOf place index) fun element => env.LeadsTo place element.cell := by
  unfold elementOf
  split
  · exact Cause.isOwn_ofMemory _
  · split
    · rfl
    · exact .inl rfl
  · dsimp only
    split
    · rfl
    · exact .inl rfl
  · rename_i pointee held
    exact (env.offsetPlace_answers pointee index).weaken fun _ within =>
      .inr ⟨pointee, held, within⟩
  · rfl
  · rfl

theorem pointeeOf_answers :
    Answers (env.pointeeOf place) fun pointee => env.LeadsTo place pointee.cell := by
  unfold pointeeOf
  split
  · exact Cause.isOwn_ofMemory _
  · rename_i pointee held
    exact .inr ⟨pointee, held, rfl⟩
  · exact .inl rfl
  · exact .inl rfl
  · rfl
  · rfl

end Environment

theorem Act.stepped_answers (env : Environment) (op : IncDecOp) (old : Value) :
    Answers (Act.stepped env op old) (Value.Stems [old]) := by
  unfold Act.stepped
  split
  · rw [answers_mapFunction]
    exact (env.offsetPlace_answers _ _).weaken fun _ within => .pointer mem_cons_self within
  · exact (op.apply_answers old).weaken fun _ => .bare

namespace Value

variable (structs : StructTable)

theorem toPointer_answers (value : Value) (type : DataType) :
    Answers (value.toPointer type) fun _ => True := by
  unfold toPointer
  split
  · trivial
  · trivial
  · split
    · split
      · trivial
      · rfl
    · split
      · trivial
      · rfl

theorem pad_answers (type : DataType) (items : List Value) :
    Answers (pad structs type items) fun _ => True := by
  unfold pad
  split
  · split
    · rfl
    · trivial
  · trivial

theorem toScalar_answers (value : Value) (base : BaseType) :
    Answers (value.toScalar base) fun _ => True := by
  unfold toScalar
  dsimp only
  split
  · trivial
  · split
    · trivial
    · rfl
  · split
    · trivial
    · rfl
  · split
    · trivial
    · split
      · trivial
      · rfl
  · split
    · split
      · trivial
      · rfl
    · rfl
  · split
    · trivial
    · rfl

theorem convert_answers_of_not_array {value : Value} (single : ∀ items, value ≠ .array items)
    (type : DataType) : Answers (value.convert structs type) fun _ => True := by
  unfold convert
  split
  · exact absurd rfl (single _)
  · split
    · split
      · dsimp only
        split
        · exact pad_answers structs type _
        · rfl
      · rfl
    · split
      · exact toPointer_answers _ type
      · split
        · split
          · rfl
          · split
            · split
              · trivial
              · rfl
            · rfl
        · exact toScalar_answers _ _

mutual

theorem convert_answers (structs : StructTable) (value : Value) (type : DataType) :
    Answers (value.convert structs type) fun _ => True := by
  match value with
  | .array items =>
    rw [convert]
    split
    · rw [answers_bind]
      exact (convertItems_answers structs items type.element).weaken
        fun _ _ => pad_answers structs type _
    · split
      · exact toPointer_answers _ type
      · split
        · split
          · rfl
          · split
            · rfl
            · rw [answers_bind]
              exact (convertFields_answers structs items _).weaken fun _ _ => trivial
        · exact toScalar_answers _ _
  | .void | .null | .bool _ | .char _ | .int _ | .unsigned _ | .long _ | .float _ | .text _
  | .record _ _ | .pointer _ | .function _ | .object _ =>
    exact convert_answers_of_not_array structs (by simp) type

theorem convertItems_answers (structs : StructTable) (items : List Value) (type : DataType) :
    Answers (convertItems structs items type) fun _ => True := by
  match items with
  | [] => trivial
  | item :: rest =>
    rw [convertItems, answers_bind]
    refine (convert_answers structs item type).weaken fun _ _ => ?_
    rw [answers_bind]
    exact (convertItems_answers structs rest type).weaken fun _ _ => trivial

theorem convertFields_answers (structs : StructTable) (items : List Value) (layout : List Field) :
    Answers (convertFields structs items layout) fun _ => True := by
  match items, layout with
  | _, [] | [], _ :: _ =>
    unfold convertFields
    trivial
  | item :: rest, field :: fields =>
    rw [convertFields, answers_bind]
    refine (convert_answers structs item field.type).weaken fun _ _ => ?_
    rw [answers_bind]
    exact (convertFields_answers structs rest fields).weaken fun _ _ => trivial

end

@[simp] theorem isBare_macro (value : MacroValue) : value.value.isBare = true := by
  cases value with
  | int n => exact isBare_ofLiteral n false
  | float | text => rfl

end Value

theorem Constant.lookup?_isBare (found : Constant.lookup? name = some value) :
    value.isBare = true := by
  unfold Constant.lookup? at found
  split at found
  any_goals
    cases found
    rfl
  split at found
  · unfold Constant.analogPin? at found
    split at found
    · split at found <;> cases found
      rfl
    · cases found
  · cases found

theorem Firmware.resolve_answers (fw : Firmware) (name : String) :
    Answers (fw.resolve name) (·.isBare = true) := by
  unfold Firmware.resolve
  split
  · exact Value.isBare_macro _
  · split
    · exact Constant.lookup?_isBare ‹_›
    · split <;> rfl

section Located

variable {α β : Type} {fits : α → Prop}

def blame (res : Except Fault α) : Except Cause α := res.mapError Fault.cause

@[simp] theorem answers_blame_error (fault : Fault) :
    Answers (blame (.error fault : Except Fault α)) fits ↔ fault.cause.isOwn = false := Iff.rfl

theorem Answers.of_fault (answers : Answers (blame res) fits) (out : res = .error fault) :
    fault.cause.isOwn = false := by
  simpa only [out, answers_blame_error] using answers

@[simp] theorem answers_blame_bind (res : Except Fault β) (next : β → Except Fault α) :
    Answers (blame (res >>= next)) fits ↔
      Answers (blame res) fun value => Answers (blame (next value)) fits := by
  cases res <;> exact Iff.rfl

@[simp] theorem answers_blame_located (res : Except Cause α) (loc : Location) :
    Answers (blame (res.mapError fun cause => ⟨cause, loc⟩)) fits ↔
      Answers res fits := by
  cases res <;> exact Iff.rfl

theorem memoryFault_answers (res : Except MemoryError α) (loc : Location)
    (always : ∀ value, fits value) :
    Answers (blame (res.mapError (Firmware.memoryFault loc))) fits := by
  cases res with
  | ok value => exact always value
  | error error => exact Cause.isOwn_ofMemory error

end Located

theorem Value.label_answers (value : Value) : Answers value.label fun _ => True := by
  unfold label
  split
  · rfl
  · split
    · trivial
    · rfl

namespace Firmware

variable (fw : Firmware) (env : Environment)

theorem labelName_answers (name : String) : Answers (fw.labelName env name) fun _ => True := by
  unfold labelName
  split
  · rename_i cell _
    rw [answers_bind]
    cases env.resolve cell with
    | ok found => exact found.value.label_answers
    | error error => exact Cause.isOwn_ofMemory error
  · rw [answers_bind]
    exact (fw.resolve_answers name).weaken fun value _ => value.label_answers

theorem labelAt_answers (fuel : Nat) (id : NodeId) :
    Answers (blame (fw.labelAt env fuel id)) fun _ => True := by
  induction fuel generalizing id with
  | zero => rfl
  | succ fuel ih =>
    unfold labelAt
    dsimp only
    split
    · trivial
    · trivial
    · trivial
    · rw [answers_blame_located]
      exact fw.labelName_answers env _
    · rw [answers_blame_bind]
      exact (ih _).weaken fun _ _ => trivial
    · rw [answers_blame_bind]
      refine (ih _).weaken fun left _ => ?_
      rw [answers_blame_bind]
      refine (ih _).weaken fun right _ => ?_
      split
      · split
        · trivial
        · rfl
      · rename_i failed
        exact (BinaryOp.apply_answers _ _ _).of_error failed
    · exact ih _
    · rfl

theorem typeAt_answers (fuel : Nat) (id : NodeId) :
    Answers (blame (fw.typeAt env fuel id)) fun _ => True := by
  induction fuel generalizing id with
  | zero => rfl
  | succ fuel ih =>
    have derived {type : DataType → DataType} (id : NodeId) :
        Answers (blame (do .ok (type (← fw.typeAt env fuel id)))) fun _ => True := by
      rw [answers_blame_bind]
      exact (ih id).weaken fun _ _ => trivial
    unfold typeAt typeBy
    cases fw.program.kind id with
    | identifier name =>
      dsimp only
      split
      · exact memoryFault_answers _ _ fun _ => trivial
      · split
        · trivial
        · rename_i failed
          exact (fw.resolve_answers _).of_error failed
    | index array pos => exact derived array
    | member object field throughPointer =>
      dsimp only
      rw [answers_blame_bind]
      refine (ih object).weaken fun type _ => ?_
      split
      · split
        · trivial
        · rfl
      · rfl
    | unary op operand =>
      cases op with
      | not => trivial
      | deref | addressOf | neg | plus | bitNot => exact derived operand
    | binary op left right =>
      dsimp only
      split
      · trivial
      · split
        · exact ih left
        · rw [answers_blame_bind]
          refine (ih left).weaken fun _ _ => ?_
          rw [answers_blame_bind]
          exact (ih right).weaken fun _ _ => trivial
    | incDec op target | assign target value | compoundAssign op target value => exact ih target
    | ternary cond thenExpr elseExpr => exact ih thenExpr
    | initList items =>
      cases items with
      | cons first rest => exact derived first
      | nil => trivial
    | intLiteral | floatLiteral | charLiteral | boolLiteral | stringLiteral | nullLiteral
    | logical | cast | call | sizeofType | sizeofExpr => trivial
    | _ => rfl

end Firmware

theorem selectArm_answers (labels : ∀ id, Answers (blame (valueOf id)) fun _ => True)
    (selector : Int64) (index : Nat) (fallback : Option Nat) (arms : List SwitchCase) :
    Answers (blame (selectArm valueOf selector index fallback arms)) fun _ => True := by
  induction arms generalizing index fallback with
  | nil => trivial
  | cons arm rest ih =>
    unfold selectArm
    split
    · rw [answers_blame_bind]
      refine (labels _).weaken fun value _ => ?_
      split
      · trivial
      · exact ih _ _
    · exact ih _ _

end Breadboard
