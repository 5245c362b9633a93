import Breadboard.Machine.Statement
import Breadboard.Proofs.Machine.Converted
import Breadboard.Proofs.Number.Binary64
import Breadboard.Proofs.Typing.Conversion

/-!
Conversion is idempotent: what it has made of a value, it leaves as it is. A variable can be
assigned its own value, and a value passes any number of parameters and results of one type.
-/

namespace Breadboard

open Value DataType

def DataType.isComplete (structs : StructTable) (type : DataType) : Bool :=
  0 < type.pointerDepth ||
    match type.base with
    | .record name => (structs.lookup name).isSome
    | .library _ => false
    | _ => true

namespace Value

variable {structs : StructTable} {type : DataType} {value res : Value}

theorem convertItems_self (each : ∀ item ∈ items, item.convert structs type = .ok item) :
    convertItems structs items type = .ok items := by
  induction items with
  | nil => rfl
  | cons item items ih =>
    rw [List.forall_mem_cons] at each
    rw [convertItems, each.1, ih each.2]
    rfl

theorem convert_array {dims : List (Option Nat)} (shape : type.dims = dim :: dims)
    (sized : ∀ size, dim = some size → items.length = size)
    (each : ∀ item ∈ items, item.convert structs type.element = .ok item) :
    (array items).convert structs type = .ok (array items) := by
  rw [convert, if_pos (isArray_iff.mpr ⟨dim, dims, shape⟩), convertItems_self each]
  change pad structs type items = _
  rw [pad, shape]
  cases dim with
  | none => rfl
  | some size => simp [sized size rfl]

theorem toPointer_idem (out : value.toPointer type = .ok res) : res.toPointer type = .ok res := by
  unfold toPointer at out
  split at out
  · cases out
    rfl
  · cases out
    rfl
  · split at out
    · split at out <;> cases out
      rename_i characters
      simp only [toPointer, characters, if_true]
    · split at out <;> cases out
      rfl

theorem ofNat_toNat_toUInt64 (low : 0 ≤ n.toInt) (high : n.toInt < 2 ^ places) :
    Int32.ofNat (n.toInt64.toUInt64.toNat % 2 ^ places) = n := by
  have least : (0 : Int64) ≤ n.toInt64 := by
    rwa [Int64.le_iff_toInt_le, Int32.toInt_toInt64]
  have word : n.toInt64.toUInt64.toNat = n.toInt.toNat :=
    (Int64.toNat_toUInt64_of_le least).trans (congrArg Int.toNat n.toInt_toInt64)
  have small : n.toInt.toNat < 2 ^ places := by
    rw [Int.toNat_lt low]
    exact_mod_cast high
  have above := n.toInt_lt
  rw [word, Nat.mod_eq_of_lt small, ← Int32.toInt_inj, Int32.toInt_ofNat_of_lt (by omega),
    Int.toNat_of_nonneg low]

theorem toScalar_idem {base : BaseType} (single : ∀ name, base ≠ .record name)
    (out : value.toScalar base = .ok res) : res.toScalar base = .ok res := by
  cases toScalar_holds single out with
  | float x =>
    simp only [toScalar] at out
    split at out <;> cases out
    rename_i x _
    exact congrArg (Except.ok ∘ float) x.toSinglePrecision_idem
  | unconstructed className =>
    simp only [toScalar] at out
    split at out
    · split at out <;> cases out
    · cases out
  | void | text | double | longLong => rfl
  | bool b => cases b <;> rfl
  | object => simp [toScalar]
  | char c => exact congrArg (Except.ok ∘ char) c.toInt8_toInt64
  | byte low high | word low high =>
    exact congrArg (Except.ok ∘ int) (ofNat_toNat_toUInt64 low (by omega))
  | @short n low high =>
    have same : n.toInt64.toInt16.toInt32 = n := by
      rw [← Int32.toInt_inj, Int16.toInt_toInt32, Int64.toInt_toInt16, Int32.toInt_toInt64]
      exact Int.bmod_eq_of_le (by omega) (by omega)
    exact congrArg (Except.ok ∘ int) same
  | int n => exact congrArg (Except.ok ∘ int) n.toInt32_toInt64
  | unsigned n => exact congrArg (Except.ok ∘ unsigned) (by simp)

end Value

namespace DataType

variable {structs : StructTable} {type : DataType}

theorem convert_fill (type : DataType)
    (kept : value.convert structs { type with dims := [] } = .ok value) (dims : List (Option Nat)) :
    (fill value dims).convert structs { type with dims } = .ok (fill value dims) := by
  induction dims with
  | nil => exact kept
  | cons dim dims ih =>
    refine convert_array rfl ?_ ?_
    · rintro size rfl
      exact List.length_replicate
    · intro item among
      obtain rfl := List.eq_of_mem_replicate among
      exact ih

theorem isComplete_element (isArray : type.isArray = true) :
    type.element.isComplete structs = type.isComplete structs := by
  obtain ⟨dim, dims, shape⟩ := isArray_iff.mp isArray
  simp [isComplete, element, shape]

theorem convert_default (complete : type.isComplete structs = true) :
    (type.default structs).convert structs type = .ok (type.default structs) := by
  obtain ⟨base, isConst, depth, dims⟩ := type
  refine convert_fill ⟨base, isConst, depth, dims⟩ ?_ dims
  by_cases deep : 0 < depth
  · rw [if_pos deep, convert_of_isPointer (by simp [isPointer, deep])]
    rfl
  · obtain rfl : depth = 0 := by simpa using deep
    cases base with
    | record name => exact convert_record rfl rfl complete
    | library => cases complete
    | float =>
      have zero : Binary64.zero.toSinglePrecision = Binary64.zero := by decide +kernel
      rw [convert_scalar rfl (by simp)]
      exact congrArg (Except.ok ∘ float) zero
    | _ =>
      rw [convert_scalar rfl (by simp)]
      rfl

end DataType

namespace Value

variable {structs : StructTable} {type : DataType} {value res : Value}

theorem convert_padded (complete : type.isComplete structs = true) (isArray : type.isArray = true)
    (each : ∀ item ∈ items, item.convert structs type.element = .ok item)
    (padded : pad structs type items = .ok res) : res.convert structs type = .ok res := by
  obtain ⟨all, dim, dims, rfl, shape, sized, among⟩ := pad_eq_ok isArray padded
  refine convert_array shape sized fun item found => ?_
  rcases among item found with given | rfl
  · exact each item given
  · exact convert_default ((isComplete_element isArray).trans complete)

theorem convert_characters (isChar : type.base = .char) (single : type.isSingle = true) :
    ∀ item ∈ characters str, item.convert structs type = .ok item := by
  intro item among
  obtain ⟨c, rfl⟩ := mem_characters among
  rw [convert_scalar single (by simp [isChar]), isChar]
  exact congrArg (Except.ok ∘ char) c.toInt8_toInt64

theorem convert_self (complete : type.isComplete structs = true)
    (out : value.convert structs type = .ok res) : res.convert structs type = .ok res := by
  refine convert_induction (motive := fun _ type res =>
    type.isComplete structs = true → res.convert structs type = .ok res) ?_ out complete
  intro value type res way complete
  cases way with
  | items isArray each padded =>
    refine convert_padded complete isArray (fun item among => ?_) padded
    obtain ⟨-, -, kept⟩ := each item among
    exact kept ((isComplete_element isArray).trans complete)
  | characters isArray isChar single padded =>
    exact convert_padded complete isArray (convert_characters isChar single) padded
  | pointer isPointer made =>
    rw [convert_of_isPointer isPointer]
    exact toPointer_idem made
  | fields single base found | record single base found =>
    exact convert_record single base (by simp [found])
  | scalar single base made =>
    rw [convert_scalar single base]
    exact toScalar_idem base made

theorem convert_sizedBy (kept : value.convert structs type = .ok value) :
    value.convert structs (type.sizedBy value) = .ok value := by
  unfold sizedBy
  split
  · rename_i dims items shape
    rw [convert, if_pos (isArray_iff.mpr ⟨_, _, shape⟩)] at kept
    obtain ⟨made, inside, padded⟩ := bind_eq_ok.mp kept
    rw [pad, shape] at padded
    cases padded
    have same : ({ type with dims := some items.length :: dims } : DataType).element =
        type.element := by
      simp [element, shape]
    rw [convert, if_pos (by rfl), same, inside]
    simp [pad, bind, Except.bind]
  · exact kept

/-- Converting twice is converting once, and a variable that is declared without a value can be
assigned the value it has. -/
theorem convert_idempotent (complete : type.isComplete structs = true) :
    (∀ value result : Value, value.convert structs type = .ok result →
      result.convert structs type = .ok result ∧
        result.convert structs (type.sizedBy result) = .ok result) ∧
      (type.default structs).convert structs type = .ok (type.default structs) := by
  refine ⟨?_, DataType.convert_default complete⟩
  intro value result outcome
  have kept := convert_self complete outcome
  exact ⟨kept, convert_sizedBy kept⟩

def labels : StructTable :=
  [("Label", [⟨"name", { base := .char, dims := [some 3] }⟩, ⟨"width", .of .byte⟩])]

/-- One row of two labels; the second has no value of its own. -/
theorem convert_labels :
    ∃ row : Value,
      (array [array [array [text "ab", int 300]]]).convert labels
        { base := .record "Label", dims := [none, some 2] } = .ok row ∧
      row = array [array
        [record "Label" [("name", array [char 97, char 98, char 0]), ("width", int 44)],
          record "Label" [("name", array [char 0, char 0, char 0]), ("width", int 0)]]] ∧
      row.convert labels { base := .record "Label", dims := [some 1, some 2] } = .ok row := by
  have complete : DataType.isComplete labels { base := .record "Label", dims := [none, some 2] } =
    true := rfl
  exact ⟨_, rfl, rfl, ((convert_idempotent complete).1 (array [array [array [text "ab", int 300]]])
    _ rfl).2⟩

end Value

end Breadboard
