import Mathlib.Data.List.Forall2
import Breadboard.Proofs.Machine.Answer

/-!
How a value is converted, by the kind of its type. Each way names what it has converted inside.
-/

open List

namespace Breadboard

/-- A type that is neither an array nor a pointer. -/
def DataType.isSingle (type : DataType) : Bool := type.dims.isEmpty && type.pointerDepth = 0

namespace DataType

variable {type : DataType}

theorem isArray_iff : type.isArray = true ↔ ∃ dim dims, type.dims = dim :: dims := by
  unfold isArray
  cases type.dims <;> simp

theorem isSingle_iff : type.isSingle = true ↔ type.isArray = false ∧ type.pointerDepth = 0 := by
  simp [isSingle, isArray]

end DataType

/-- The values of the types that are no structures. An object that has not been constructed
is void. -/
inductive BaseType.Holds : BaseType → Value → Prop where
  | void : Holds .void .void
  | bool (b : Bool) : Holds .bool (.bool b)
  | char (c : Int8) : Holds .char (.char c)
  | byte : 0 ≤ n.toInt → n.toInt ≤ 255 → Holds .byte (.int n)
  | short : -32768 ≤ n.toInt → n.toInt ≤ 32767 → Holds .short (.int n)
  | word : 0 ≤ n.toInt → n.toInt ≤ 65535 → Holds .word (.int n)
  | int (n : Int32) : Holds .int (.int n)
  | unsigned (n : UInt32) : Holds .unsigned (.unsigned n)
  | longLong (n : Int64) : Holds .longLong (.long n)
  | float (x : Binary64) : Holds .float (.float x)
  | double (x : Binary64) : Holds .double (.float x)
  | text (str : String) : Holds .text (.text str)
  | object (className name : String) : Holds (.library className) (.object ⟨className, name⟩)
  | unconstructed (className : String) : Holds (.library className) .void

namespace Value

variable {base : BaseType} {items : List Value} {fields : List (String × Value)}

/-- The ways to convert a value to a type, where `Made` relates what is converted inside. -/
inductive Converted (structs : StructTable) (Made : Value → DataType → Value → Prop) :
    Value → DataType → Value → Prop where
  | items {items made type res} :
      type.isArray = true → (∀ item ∈ made, ∃ given ∈ items, Made given type.element item) →
      pad structs type made = .ok res → Converted structs Made (.array items) type res
  | characters {str type res} :
      type.isArray = true → type.element.base = .char → type.element.isSingle = true →
      pad structs type (characters str) = .ok res → Converted structs Made (.text str) type res
  | pointer {value res type} : type.isPointer = true → value.toPointer type = .ok res →
      Converted structs Made value type res
  | fields {items name layout fields type} :
      type.isSingle = true → type.base = .record name → structs.lookup name = some layout →
      List.Forall₂ (fun field decl => field.1 = decl.name ∧ (field.2 = decl.type.default structs ∨
          ∃ given ∈ items, Made given decl.type field.2)) fields layout →
      Converted structs Made (.array items) type (.record name fields)
  | record {name layout fields type} :
      type.isSingle = true → type.base = .record name → structs.lookup name = some layout →
      Converted structs Made (.record name fields) type (.record name fields)
  | scalar {value res type} : type.isSingle = true → (∀ name, type.base ≠ .record name) →
      value.toScalar type.base = .ok res → Converted structs Made value type res

variable {structs : StructTable} {type : DataType} {value res : Value}

theorem ofInteger_holds (integer : base.isInteger = true) (n : Int64) :
    base.Holds (ofInteger base n) := by
  cases base with
  | bool => exact .bool _
  | char => exact .char _
  | byte =>
    have small := n.toUInt64.toUInt8.toNat_lt
    have same : (Int32.ofNat n.toUInt64.toUInt8.toNat).toInt = n.toUInt64.toUInt8.toNat :=
      Int32.toInt_ofNat_of_lt (by omega)
    exact .byte (by omega) (by omega)
  | short =>
    have low := n.toInt16.le_toInt
    have high := n.toInt16.toInt_lt
    have same := n.toInt16.toInt_toInt32
    exact .short (by omega) (by omega)
  | word =>
    have small := n.toUInt64.toUInt16.toNat_lt
    have same : (Int32.ofNat n.toUInt64.toUInt16.toNat).toInt = n.toUInt64.toUInt16.toNat :=
      Int32.toInt_ofNat_of_lt (by omega)
    exact .word (by omega) (by omega)
  | int => exact .int _
  | unsigned => exact .unsigned _
  | longLong => exact .longLong _
  | _ => cases integer

theorem toScalar_holds (single : ∀ name, base ≠ .record name)
    (out : value.toScalar base = .ok res) : base.Holds res := by
  cases base with
  | void =>
    cases out
    exact .void
  | float | double =>
    simp only [toScalar] at out
    split at out <;> cases out
    constructor
  | text =>
    simp only [toScalar] at out
    split at out
    · cases out
      exact .text _
    · split at out <;> cases out
      exact .text _
  | library className =>
    simp only [toScalar] at out
    split at out
    · split at out <;> cases out
      rename_i handle same
      cases same
      exact .object _ _
    · cases out
  | record name => exact absurd rfl (single name)
  | bool | char | byte | short | word | int | unsigned | longLong =>
    simp only [toScalar] at out
    split at out <;> cases out
    exact ofInteger_holds rfl _

theorem exists_of_mem_convertItems (out : convertItems structs items type = .ok made) :
    ∀ item ∈ made, ∃ given ∈ items, given.convert structs type = .ok item := by
  induction items generalizing made with
  | nil =>
    cases out
    nofun
  | cons given items ih =>
    rw [convertItems] at out
    obtain ⟨first, converted, out⟩ := bind_eq_ok.mp out
    obtain ⟨others, rest, out⟩ := bind_eq_ok.mp out
    cases out
    refine forall_mem_cons.mpr ⟨⟨given, mem_cons_self, converted⟩, ?_⟩
    intro item among
    obtain ⟨given, inside, converted⟩ := ih rest item among
    exact ⟨given, mem_cons_of_mem _ inside, converted⟩

theorem forall₂_of_convertFields (out : convertFields structs items layout = .ok fields) :
    List.Forall₂ (fun field decl => field.1 = decl.name ∧ (field.2 = decl.type.default structs ∨
        ∃ given ∈ items, given.convert structs decl.type = .ok field.2)) fields layout := by
  induction layout generalizing items fields with
  | nil =>
    unfold convertFields at out
    cases out
    exact .nil
  | cons decl layout ih =>
    cases items with
    | nil =>
      unfold convertFields at out
      cases out
      exact forall₂_map_left_iff.mpr (forall₂_same.mpr fun _ _ => ⟨rfl, .inl rfl⟩)
    | cons given items =>
      rw [convertFields] at out
      obtain ⟨first, converted, out⟩ := bind_eq_ok.mp out
      obtain ⟨others, rest, out⟩ := bind_eq_ok.mp out
      cases out
      refine .cons ⟨rfl, .inr ⟨given, mem_cons_self, converted⟩⟩ ((ih rest).imp ?_)
      rintro field decl ⟨name, unset | ⟨given, inside, converted⟩⟩
      · exact ⟨name, .inl unset⟩
      · exact ⟨name, .inr ⟨given, mem_cons_of_mem _ inside, converted⟩⟩

theorem convert_of_isPointer (isPointer : type.isPointer = true) :
    value.convert structs type = value.toPointer type := by
  obtain ⟨noDims, deep⟩ : type.dims = [] ∧ 0 < type.pointerDepth := by
    simpa [DataType.isPointer, and_comm] using isPointer
  unfold convert
  split <;> simp [DataType.isArray, noDims, deep]

theorem convert_scalar (single : type.isSingle = true) (base : ∀ name, type.base ≠ .record name) :
    value.convert structs type = value.toScalar type.base := by
  obtain ⟨notArray, flat⟩ := DataType.isSingle_iff.mp single
  unfold convert
  split <;>
  · rw [if_neg (by simp [notArray]), if_neg (by simp [flat])]
    split
    · rename_i named
      exact absurd named (base _)
    · rfl

theorem convert_record (single : type.isSingle = true) (base : type.base = .record name)
    (found : (structs.lookup name).isSome = true) :
    (record name fields).convert structs type = .ok (record name fields) := by
  obtain ⟨notArray, flat⟩ := DataType.isSingle_iff.mp single
  obtain ⟨layout, found⟩ := Option.isSome_iff_exists.mp found
  simp [convert, notArray, flat, base, found]

theorem converted_of_convert (out : value.convert structs type = .ok res) :
    Converted structs (fun given type item => given.convert structs type = .ok item)
      value type res := by
  by_cases isPointer : type.isPointer = true
  · rw [convert_of_isPointer isPointer] at out
    exact .pointer isPointer out
  by_cases isArray : type.isArray = true
  · cases value with
    | array items =>
      rw [convert, if_pos isArray] at out
      obtain ⟨made, inside, padded⟩ := bind_eq_ok.mp out
      exact .items isArray (exists_of_mem_convertItems inside) padded
    | text str =>
      simp only [convert, isArray, if_true] at out
      split at out
      · rename_i admits
        simp only [Bool.and_eq_true, decide_eq_true_eq, Bool.not_eq_true'] at admits
        exact .characters isArray admits.1.1 (DataType.isSingle_iff.mpr ⟨admits.1.2, admits.2⟩) out
      · cases out
    | _ => simp [convert, isArray] at out
  · have single : type.isSingle = true := by
      simp_all [DataType.isSingle, DataType.isPointer, DataType.isArray]
    obtain ⟨notArray, flat⟩ := DataType.isSingle_iff.mp single
    cases base : type.base with
    | record name =>
      cases found : structs.lookup name with
      | none => cases value <;> simp [convert, notArray, flat, base, found] at out
      | some layout =>
        cases value with
        | array items =>
          simp only [convert, notArray, flat, base, found, Bool.false_eq_true, if_false] at out
          by_cases many : layout.length < items.length
          · rw [if_pos many] at out
            cases out
          · rw [if_neg many] at out
            obtain ⟨fields, inside, made⟩ := bind_eq_ok.mp out
            cases made
            exact .fields single base found (forall₂_of_convertFields inside)
        | record other fields =>
          simp only [convert, notArray, flat, base, found, Bool.false_eq_true, if_false] at out
          by_cases same : other = name
          · rw [if_pos same] at out
            cases out
            cases same
            exact .record single base found
          · rw [if_neg same] at out
            cases out
        | _ => simp [convert, notArray, flat, base, found] at out
    | _ =>
      have other (name : String) : type.base ≠ .record name := by simp [base]
      rw [convert_scalar single other] at out
      exact .scalar single other out

/-- What every way of converting passes on holds of every conversion. -/
theorem convert_induction
    (step : ∀ {value type res}, Converted structs motive value type res → motive value type res)
    (out : value.convert structs type = .ok res) : motive value type res := by
  induction size : sizeOf value using Nat.strongRecOn generalizing value type res with
  | ind _ ih =>
    have inner {items : List Value} {type : DataType} {item : Value}
        (outer : sizeOf (Value.array items) = sizeOf value)
        (made : ∃ given ∈ items, given.convert structs type = .ok item) :
        ∃ given ∈ items, motive given type item := by
      obtain ⟨given, among, made⟩ := made
      have smaller := sizeOf_lt_of_mem among
      rw [Value.array.sizeOf_spec] at outer
      exact ⟨given, among, ih _ (by omega) made rfl⟩
    apply step
    cases converted_of_convert out with
    | items isArray each padded =>
      exact .items isArray (fun item among => inner rfl (each item among)) padded
    | characters isArray isChar single padded => exact .characters isArray isChar single padded
    | pointer isPointer made => exact .pointer isPointer made
    | fields single base found each =>
      exact .fields single base found
        (each.imp fun _ _ field => ⟨field.1, field.2.imp_right (inner rfl)⟩)
    | record single base found => exact .record single base found
    | scalar single base made => exact .scalar single base made

end Value

end Breadboard
