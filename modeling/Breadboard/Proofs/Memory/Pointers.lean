import Breadboard.Proofs.Machine.Converted

/-!
Into which variables a value points. A value keeps within some cells if all pointers in it, at
any depth of arrays and structures, lead to these cells. Reading, writing and converting values
makes no pointer that was not there before.
-/

open List

namespace Breadboard

open Value

namespace Value

variable {fields : List (String × Value)} {items : List Value} {value : Value} {wanted : String}

/-- A pointer into the variable of a cell is contained in a value. -/
inductive PointsTo (cell : Cell) : Value → Prop where
  | pointer : place.cell = cell → PointsTo cell (.pointer place)
  | item {items item} : item ∈ items → PointsTo cell item → PointsTo cell (.array items)
  | field {name label fields value} :
      (label, value) ∈ fields → PointsTo cell value → PointsTo cell (.record name fields)

/-! The cells to which the pointers in a value lead. -/

mutual

def cells : Value → List Cell
  | .pointer place => [place.cell]
  | .array items => cellsOfItems items
  | .record _ fields => cellsOfFields fields
  | _ => []

def cellsOfItems : List Value → List Cell
  | [] => []
  | item :: items => cells item ++ cellsOfItems items

def cellsOfFields : List (String × Value) → List Cell
  | [] => []
  | (_, value) :: fields => cells value ++ cellsOfFields fields

end

theorem cells_subset_cellsOfItems (among : item ∈ items) : item.cells ⊆ cellsOfItems items := by
  induction among with
  | head => exact subset_append_left _ _
  | tail _ _ ih =>
    exact List.Subset.trans ih (subset_append_right _ _)

theorem cells_subset_cellsOfFields {label : String}
    (among : (label, value) ∈ fields) : value.cells ⊆ cellsOfFields fields := by
  induction fields with
  | nil => cases among
  | cons field fields ih =>
    rcases mem_cons.mp among with rfl | among
    · exact subset_append_left _ _
    · exact List.Subset.trans (ih among) (subset_append_right _ _)

theorem PointsTo.mem_cells (points : value.PointsTo cell) : cell ∈ value.cells := by
  induction points with
  | pointer same => exact mem_singleton.mpr same.symm
  | item among _ ih => exact cells_subset_cellsOfItems among ih
  | field among _ ih => exact cells_subset_cellsOfFields among ih

def Within (granted : Cell → Prop) (value : Value) : Prop :=
  ∀ cell, value.PointsTo cell → granted cell

variable {granted : Cell → Prop} {value new inner res : Value}

theorem within_of_isBare (bare : value.isBare = true) : value.Within granted := by
  intro cell points
  cases points <;> cases bare

theorem within_pointer : (pointer place).Within granted ↔ granted place.cell := by
  constructor
  · intro within
    exact within place.cell (.pointer rfl)
  · rintro allowed _ ⟨rfl⟩
    exact allowed

theorem within_array : (array items).Within granted ↔ ∀ item ∈ items, item.Within granted := by
  constructor
  · intro within item among cell points
    exact within cell (.item among points)
  · intro within cell points
    cases points with
    | item among points => exact within _ among cell points

theorem within_record :
    (record name fields).Within granted ↔ ∀ field ∈ fields, field.2.Within granted := by
  constructor
  · intro within field among cell points
    exact within cell (.field among points)
  · intro within cell points
    cases points with
    | field among points => exact within _ among cell points

theorem mem_of_lookup (found : fields.lookup wanted = some value) : (wanted, value) ∈ fields := by
  obtain ⟨before, after, split, -⟩ := lookup_eq_some_iff.mp found
  simp [split]

theorem mem_of_mem_setField
    (among : field ∈ setField wanted new fields) : field ∈ fields ∨ field.2 = new := by
  induction fields with
  | nil => cases among
  | cons first rest ih =>
    unfold setField at among
    split at among
    · rcases mem_cons.mp among with rfl | later
      · exact .inr rfl
      · exact .inl (mem_cons_of_mem _ later)
    · rcases mem_cons.mp among with rfl | later
      · exact .inl mem_cons_self
      · exact (ih later).imp_left (mem_cons_of_mem _)

namespace Within

variable {path : List PathStep} (within : value.Within granted)
include within

theorem step {step : PathStep} (out : value.step step = .ok inner) : inner.Within granted := by
  unfold Value.step at out
  split at out
  · split at out <;> cases out
    rename_i found
    exact within_array.mp within _ (mem_of_getElem? found)
  · dsimp only at out
    split at out
    · cases out
      exact within_of_isBare rfl
    · split at out <;> cases out
      exact within_of_isBare rfl
  · split at out <;> cases out
    rename_i found
    exact within_record.mp within _ (mem_of_lookup found)
  · cases out
  · cases out

theorem read (out : value.read path = .ok inner) : inner.Within granted := by
  induction path generalizing value with
  | nil =>
    cases out
    exact within
  | cons step rest ih =>
    unfold read at out
    split at out
    · exact within.step out
    · rename_i stepped
      exact ih (within.step stepped) out
    · cases out

theorem write (newWithin : new.Within granted)
    (out : value.write path new = .ok res) : res.Within granted := by
  induction path generalizing value res with
  | nil =>
    cases out
    exact newWithin
  | cons step rest ih =>
    unfold write at out
    split at out
    · split at out
      · rename_i item found
        obtain ⟨written, inside, made⟩ := bind_eq_ok.mp out
        cases made
        have items := within_array.mp within
        refine within_array.mpr fun other among => ?_
        rcases mem_or_eq_of_mem_set among with old | rfl
        · exact items other old
        · exact ih (items item (mem_of_getElem? found)) inside
      · cases out
    · obtain ⟨written, -, made⟩ := bind_eq_ok.mp out
      cases made
      exact within_of_isBare rfl
    · split at out
      · rename_i field found
        obtain ⟨written, inside, made⟩ := bind_eq_ok.mp out
        cases made
        have fields := within_record.mp within
        refine within_record.mpr fun other among => ?_
        rcases mem_of_mem_setField among with old | same
        · exact fields other old
        · rw [same]
          exact ih (fields _ (mem_of_lookup found)) inside
      · cases out
    · cases out
    · cases out

end Within

end Value

namespace DataType

variable {granted : Cell → Prop}

theorem within_fill (within : value.Within granted) (dims : List (Option Nat)) :
    (fill value dims).Within granted := by
  induction dims with
  | nil => exact within
  | cons dim dims ih =>
    refine within_array.mpr fun item among => ?_
    rw [eq_of_mem_replicate among]
    exact ih

theorem within_defaultAt (structs : StructTable) (fuel : Nat) (type : DataType) :
    (type.defaultAt structs fuel).Within granted := by
  induction fuel generalizing type with
  | zero => exact within_of_isBare rfl
  | succ fuel ih =>
    refine within_fill ?_ type.dims
    split
    · exact within_of_isBare rfl
    · cases type.base with
      | record name =>
        refine within_record.mpr fun field among => ?_
        obtain ⟨decl, -, rfl⟩ := mem_map.mp among
        exact ih decl.type
      | _ => exact within_of_isBare rfl

theorem within_default (structs : StructTable) (type : DataType) :
    (type.default structs).Within granted := within_defaultAt structs _ type

end DataType

namespace Value

variable {granted : Cell → Prop} {structs : StructTable} {value res : Value} {type : DataType}

namespace Within

theorem toPointer (within : value.Within granted) (out : value.toPointer type = .ok res) :
    res.Within granted := by
  unfold Value.toPointer at out
  split at out
  · cases out
    exact within
  · cases out
    exact within
  · split at out
    · split at out <;> cases out
      exact within
    · split at out <;> cases out
      exact within_of_isBare rfl

theorem pad (within : ∀ item ∈ items, item.Within granted)
    (out : pad structs type items = .ok res) : res.Within granted := by
  unfold Value.pad at out
  split at out
  · split at out <;> cases out
    refine within_array.mpr fun item among => ?_
    rcases mem_append.mp among with given | padding
    · exact within item given
    · rw [eq_of_mem_replicate padding]
      exact DataType.within_default structs _
  · cases out
    exact within_array.mpr within

end Within

theorem isBare_of_holds {base : BaseType} (holds : base.Holds value) : value.isBare = true := by
  cases holds <;> rfl

theorem isBare_of_mem_characters (among : item ∈ characters str) : item.isBare = true := by
  rcases mem_append.mp among with byte | ending
  · obtain ⟨byte, -, rfl⟩ := mem_map.mp byte
    rfl
  · obtain rfl := mem_singleton.mp ending
    rfl

theorem Within.convert (within : value.Within granted)
    (out : value.convert structs type = .ok res) : res.Within granted := by
  refine convert_induction
    (motive := fun value _ res => value.Within granted → res.Within granted) ?_ out within
  intro value type res way within
  cases way with
  | items _ each padded =>
    refine Within.pad (fun item among => ?_) padded
    obtain ⟨given, inside, kept⟩ := each item among
    exact kept (within_array.mp within given inside)
  | characters _ _ _ padded =>
    exact Within.pad (fun _ among => within_of_isBare (isBare_of_mem_characters among)) padded
  | pointer _ made => exact within.toPointer made
  | fields _ _ found each =>
    rw [within_record]
    clear found
    induction each with
    | nil => nofun
    | @cons field decl _ _ first _ ih =>
      refine forall_mem_cons.mpr ⟨?_, ih⟩
      obtain ⟨-, unset | ⟨given, inside, kept⟩⟩ := first
      · exact unset ▸ DataType.within_default structs decl.type
      · exact kept (within_array.mp within given inside)
  | record => exact within
  | scalar _ base made => exact within_of_isBare (isBare_of_holds (toScalar_holds base made))

end Value

end Breadboard
