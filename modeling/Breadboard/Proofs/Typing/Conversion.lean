import Breadboard.Proofs.Typing.Inhabits

/-!
Conversion yields values of the type that it is asked for. What it is given has only to
be sound, since a structure is taken over as it is.
-/

open List

namespace Breadboard

open DataType

namespace Value

variable {structs : StructTable} {type : DataType} {value res : Value}

theorem toPointer_inhabits (isPointer : type.isPointer = true)
    (out : value.toPointer type = .ok res) : Inhabits structs res type := by
  unfold toPointer at out
  split at out
  · cases out
    exact .pointer _ isPointer
  · cases out
    exact .null isPointer
  · split at out
    · split at out <;> cases out
      rename_i characters
      simp only [Bool.and_eq_true, decide_eq_true_eq] at characters
      exact .characters _ isPointer characters.1 characters.2
    · split at out <;> cases out
      exact .null isPointer

theorem toScalar_integer {base : BaseType} (integer : base.isInteger = true)
    (whole : value.truncated? = some n) : value.toScalar base = .ok (ofInteger base n) := by
  cases base with
  | bool | char | byte | short | word | int | unsigned | longLong => simp [toScalar, whole]
  | _ => cases integer

theorem convert_integer (single : type.isSingle = true) (integer : type.base.isInteger = true)
    (whole : value.truncated? = some n) :
    value.convert structs type = .ok (ofInteger type.base n) := by
  obtain ⟨noDims, depth⟩ : type.dims = [] ∧ type.pointerDepth = 0 := by
    simpa [isSingle] using single
  have notArray : ∀ items, value ≠ .array items := by
    rintro items rfl
    cases whole
  have notText : ∀ str, value ≠ .text str := by
    rintro str rfl
    cases whole
  rw [← toScalar_integer integer whole, convert.eq_3 structs value type notArray notText,
    if_neg (by simp [isArray, noDims]), if_neg (by simp [depth])]
  cases base : type.base with
  | record => simp [base, BaseType.isInteger] at integer
  | _ => rfl

theorem mem_characters (among : item ∈ characters str) : ∃ c, item = .char c := by
  rcases mem_append.mp among with byte | ending
  · obtain ⟨byte, -, rfl⟩ := mem_map.mp byte
    exact ⟨_, rfl⟩
  · exact ⟨0, mem_singleton.mp ending⟩

theorem characters_inhabit (isChar : type.base = .char) (single : type.isSingle = true)
    : ∀ item ∈ characters str, Inhabits structs item type := by
  intro item among
  obtain ⟨c, rfl⟩ := mem_characters among
  exact .scalar single (isChar ▸ .char c)

/-- A padded array has the size of its type, with defaults behind the items. -/
theorem pad_eq_ok (isArray : type.isArray = true) (out : pad structs type items = .ok res) :
    ∃ all dim dims, res = .array all ∧ type.dims = dim :: dims ∧
      (∀ size, dim = some size → all.length = size) ∧
      ∀ item ∈ all, item ∈ items ∨ item = type.element.default structs := by
  obtain ⟨dim, dims, shape⟩ := isArray_iff.mp isArray
  unfold pad at out
  rw [shape] at out
  cases dim with
  | none =>
    cases out
    exact ⟨items, none, dims, rfl, shape, by simp, fun _ => .inl⟩
  | some size =>
    dsimp only at out
    split at out <;> cases out
    refine ⟨_, some size, dims, rfl, shape, ?_, fun item among => ?_⟩
    · rintro _ ⟨rfl⟩
      rw [length_append, length_replicate]
      omega
    · exact (mem_append.mp among).imp_right eq_of_mem_replicate

theorem pad_inhabits (acyclic : Acyclic structs) (isArray : type.isArray = true)
    (inhabit : ∀ item ∈ items, Inhabits structs item type.element)
    (out : pad structs type items = .ok res) : Inhabits structs res type := by
  obtain ⟨all, dim, dims, rfl, shape, sized, among⟩ := pad_eq_ok isArray out
  refine .array shape sized fun item found => ?_
  rcases among item found with given | rfl
  · exact inhabit item given
  · exact default_inhabits acyclic _

theorem convert_inhabits (acyclic : Acyclic structs) (sound : Sound structs value)
    (out : value.convert structs type = .ok res) : Inhabits structs res type := by
  have inside {items : List Value} (sound : Sound structs (.array items)) :
      ∀ item ∈ items, Sound structs item := by
    cases sound with
    | plain plain => cases plain
    | array itemsSound => exact itemsSound
  refine convert_induction
    (motive := fun value type res => Sound structs value → Inhabits structs res type)
    ?_ out sound
  intro value type res way sound
  cases way with
  | items isArray each padded =>
    refine pad_inhabits acyclic isArray (fun item among => ?_) padded
    obtain ⟨given, among, inhabits⟩ := each item among
    exact inhabits (inside sound given among)
  | characters isArray isChar single padded =>
    exact pad_inhabits acyclic isArray (characters_inhabit isChar single) padded
  | pointer isPointer made => exact toPointer_inhabits isPointer made
  | fields single base found each =>
    refine Inhabits.record_iff.mpr ⟨single, base, ?_⟩
    rw [layoutOf, found]
    refine .of_forall₂ (each.imp ?_)
    rintro field decl ⟨name, unset | ⟨given, among, inhabits⟩⟩
    · exact ⟨name, unset ▸ default_inhabits acyclic decl.type⟩
    · exact ⟨name, inhabits (inside sound given among)⟩
  | record single base =>
    cases sound with
    | plain plain => cases plain
    | record inhabits =>
      obtain ⟨-, -, fields⟩ := Inhabits.record_iff.mp inhabits
      exact Inhabits.record_iff.mpr ⟨single, base, fields⟩
  | scalar single base made => exact .scalar single (toScalar_holds base made)

end Value

end Breadboard
