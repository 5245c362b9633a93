import Breadboard.Proofs.Machine.Converted

/-!
Which values a type admits. `Inhabits structs value type` says that a variable of the type
may hold the value, where `structs` gives the fields of structures. An operand has no type
of its own; it is `Sound` if the structures in it are made of what their fields admit.
-/

open List

namespace Breadboard

variable {outer : List String}

/-- The fields of a structure; one that is not defined has none. -/
def layoutOf (structs : StructTable) (name : String) : List Field :=
  (structs.lookup name).getD []

theorem find?_layoutOf (structs : StructTable) (name : String) (holds : Field → Bool) :
    (layoutOf structs name).find? holds = (structs.lookup name).bind (·.find? holds) := by
  unfold layoutOf
  cases structs.lookup name <;> rfl

/-- The values that a variable of a type may hold. -/
inductive Inhabits (structs : StructTable) : Value → DataType → Prop where
  | scalar {value type} : type.isSingle → type.base.Holds value → Inhabits structs value type
  | pointer (place : Place) : type.isPointer → Inhabits structs (.pointer place) type
  | null : type.isPointer → Inhabits structs .null type
  | characters (str : String) : type.isPointer → type.base = .char → type.pointerDepth = 1 →
      Inhabits structs (.text str) type
  | array {items type dim dims} :
      type.dims = dim :: dims → (∀ size, dim = some size → items.length = size) →
      (∀ item ∈ items, Inhabits structs item type.element) → Inhabits structs (.array items) type
  | record {name fields type} : type.isSingle → type.base = .record name →
      fields.map Prod.fst = (layoutOf structs name).map Field.name →
      (∀ (pos : Nat) (field : String × Value) (decl : Field),
        fields[pos]? = some field → (layoutOf structs name)[pos]? = some decl →
        Inhabits structs field.2 decl.type) → Inhabits structs (.record name fields) type

/-- An operand in which every structure has the fields of its definition. -/
inductive Sound (structs : StructTable) : Value → Prop where
  | plain : value.isPlain → Sound structs value
  | array : (∀ item ∈ items, Sound structs item) → Sound structs (.array items)
  | record : Inhabits structs (.record name fields) (.of (.record name)) →
      Sound structs (.record name fields)

def FieldsInhabit (structs : StructTable) (fields : List (String × Value)) (layout : List Field) :
    Prop :=
  fields.map Prod.fst = layout.map Field.name ∧
    ∀ (pos : Nat) (field : String × Value) (decl : Field),
      fields[pos]? = some field → layout[pos]? = some decl →
      Inhabits structs field.2 decl.type

variable {structs : StructTable} {type : DataType}

theorem BaseType.Holds.isPlain {base : BaseType} (holds : base.Holds value) :
    value.isPlain = true := by
  cases holds <;> rfl

namespace Inhabits

theorem record_iff :
    Inhabits structs (.record name fields) type ↔ type.isSingle ∧ type.base = .record name ∧
        FieldsInhabit structs fields (layoutOf structs name) := by
  constructor
  · intro inhabits
    cases inhabits with
    | scalar _ holds => cases holds.isPlain
    | record single base names values => exact ⟨single, base, names, values⟩
  · rintro ⟨single, base, names, values⟩
    exact .record single base names values

theorem array_iff : Inhabits structs (.array items) type ↔
      ∃ dim dims, type.dims = dim :: dims ∧ (∀ size, dim = some size → items.length = size) ∧
        ∀ item ∈ items, Inhabits structs item type.element := by
  constructor
  · intro inhabits
    cases inhabits with
    | scalar _ holds => cases holds.isPlain
    | array shape sized values => exact ⟨_, _, shape, sized, values⟩
  · rintro ⟨dim, dims, shape, sized, values⟩
    exact .array shape sized values

theorem of_text {before after : String} (inhabits : Inhabits structs (.text before) type) :
    Inhabits structs (.text after) type := by
  cases inhabits with
  | scalar single holds =>
    refine .scalar single ?_
    generalize type.base = base at holds
    cases holds
    exact .text after
  | characters _ isPointer base depth => exact .characters after isPointer base depth

theorem sound (inhabits : Inhabits structs value type) : Sound structs value := by
  induction inhabits with
  | scalar _ holds => exact .plain holds.isPlain
  | pointer | null | characters => exact .plain rfl
  | array _ _ _ ih => exact .array ih
  | record _ _ names values => exact .record (.record rfl rfl names values)

end Inhabits

namespace FieldsInhabit

variable {fields : List (String × Value)} {layout : List Field}

theorem nil : FieldsInhabit structs [] [] := by
  refine ⟨rfl, ?_⟩
  intro pos field decl found
  cases found

theorem cons (first : Inhabits structs value decl.type)
    (rest : FieldsInhabit structs fields layout) :
    FieldsInhabit structs ((decl.name, value) :: fields) (decl :: layout) := by
  refine ⟨by simp [rest.1], ?_⟩
  intro pos field other found placed
  cases pos with
  | zero =>
    cases found
    cases placed
    exact first
  | succ pos => exact rest.2 pos field other found placed

theorem of_forall₂ (each : List.Forall₂ (fun field decl =>
      field.1 = decl.name ∧ Inhabits structs field.2 decl.type) fields layout) :
    FieldsInhabit structs fields layout := by
  induction each with
  | nil => exact nil
  | @cons field decl _ _ first _ ih =>
    obtain ⟨_, value⟩ := field
    obtain ⟨rfl, inhabits⟩ := first
    exact cons inhabits ih

end FieldsInhabit

/-! Defaults. A structure that does not contain itself has a default of every field. -/

/-- One structure has a field that is another, or an array of those. -/
def Embeds (structs : StructTable) (outer inner : String) : Prop :=
  ∃ layout, structs.lookup outer = some layout ∧
    ∃ field ∈ layout, field.type.base = .record inner ∧ field.type.pointerDepth = 0

/-- No structure contains itself, at whatever depth. -/
def Acyclic (structs : StructTable) : Prop :=
  ∀ name, ¬ Relation.TransGen (Embeds structs) name name

/-- Structures that can be ranked, the outer ones higher, contain none that contains itself. -/
theorem Acyclic.of_rank (rank : String → Nat)
    (descends : ∀ outer inner, Embeds structs outer inner → rank inner < rank outer) :
    Acyclic structs := by
  have below {outer inner : String} (path : Relation.TransGen (Embeds structs) outer inner) :
      rank inner < rank outer := by
    induction path with
    | single embeds => exact descends _ _ embeds
    | tail _ embeds ih =>
      exact Nat.lt_trans (descends _ _ embeds) ih
  intro name cycle
  exact Nat.lt_irrefl _ (below cycle)

/-- Structures that only point to structures do not contain themselves. -/
theorem Acyclic.of_flat (flat : ∀ entry ∈ structs, ∀ field ∈ entry.2, field.type.pointerDepth = 0 →
      ∀ name, field.type.base ≠ .record name) : Acyclic structs := by
  apply of_rank fun _ => 0
  rintro outer inner ⟨layout, found, field, inside, base, depth⟩
  obtain ⟨before, after, split, -⟩ := lookup_eq_some_iff.mp found
  have listed : (outer, layout) ∈ structs := by simp [split]
  exact absurd base (flat _ listed field inside depth inner)

/-- Different structures, each of which contains the one that a type names. -/
structure Enclosed (structs : StructTable) (outer : List String) (type : DataType) : Prop where
  distinct : outer.Nodup
  defined : outer ⊆ structs.map Prod.fst
  contains : ∀ name ∈ outer, ∀ inner, type.base = .record inner → type.pointerDepth = 0 →
    Relation.TransGen (Embeds structs) name inner

theorem Enclosed.length_le (enclosed : Enclosed structs outer type) :
    outer.length ≤ structs.length := by
  simpa using enclosed.distinct.length_le_of_subset enclosed.defined

/-- What encloses a structure encloses the types of its fields, and so does the structure. -/
theorem Enclosed.field (acyclic : Acyclic structs) (enclosed : Enclosed structs outer type)
    (base : type.base = .record name) (depth : type.pointerDepth = 0)
    (found : structs.lookup name = some layout) (inside : decl ∈ layout) :
    Enclosed structs (name :: outer) decl.type where
  distinct := by
    refine nodup_cons.mpr ⟨?_, enclosed.distinct⟩
    intro again
    exact acyclic name (enclosed.contains name again name base depth)
  defined := by
    refine cons_subset.mpr ⟨?_, enclosed.defined⟩
    obtain ⟨before, after, split, -⟩ := lookup_eq_some_iff.mp found
    simp [split]
  contains := by
    intro earlier among inner innerBase innerDepth
    have embeds : Embeds structs name inner := ⟨layout, found, decl, inside, innerBase, innerDepth⟩
    cases among with
    | head => exact .single embeds
    | tail _ among => exact (enclosed.contains earlier among name base depth).tail embeds

namespace DataType

theorem fill_inhabits (inhabits : Inhabits structs value { type with dims := [] })
    (dims : List (Option Nat)) : Inhabits structs (fill value dims) { type with dims } := by
  induction dims with
  | nil => exact inhabits
  | cons dim dims ih =>
    refine .array rfl ?_ ?_
    · rintro size rfl
      simp
    · intro item among
      obtain rfl := eq_of_mem_replicate among
      exact ih

theorem defaultAt_inhabits (acyclic : Acyclic structs) (enclosed : Enclosed structs outer type)
    (enough : structs.length < fuel + outer.length) :
    Inhabits structs (type.defaultAt structs fuel) type := by
  induction fuel generalizing outer type with
  | zero =>
    have := enclosed.length_le
    omega
  | succ fuel ih =>
    refine fill_inhabits ?_ type.dims
    by_cases pointer : 0 < type.pointerDepth
    · simp only [pointer, if_true]
      exact .null (by simp [isPointer, pointer])
    · have depth : type.pointerDepth = 0 := by
        simpa using pointer
      have single : ({ type with dims := [] } : DataType).isSingle = true := by
        simp [isSingle, depth]
      simp only [pointer, if_false]
      cases base : type.base with
      | void => exact .scalar single .void
      | bool => exact .scalar single (.bool _)
      | char => exact .scalar single (.char _)
      | byte => exact .scalar single (.byte (by decide) (by decide))
      | short => exact .scalar single (.short (by decide) (by decide))
      | word => exact .scalar single (.word (by decide) (by decide))
      | int => exact .scalar single (.int _)
      | unsigned => exact .scalar single (.unsigned _)
      | longLong => exact .scalar single (.longLong _)
      | float => exact .scalar single (.float _)
      | double => exact .scalar single (.double _)
      | text => exact .scalar single (.text _)
      | library className => exact .scalar single (.unconstructed className)
      | record name =>
        refine Inhabits.record_iff.mpr ⟨single, rfl,
          .of_forall₂ (forall₂_map_left_iff.mpr (forall₂_same.mpr ?_))⟩
        intro decl inside
        refine ⟨rfl, ?_⟩
        cases found : structs.lookup name with
        | none => simp [found] at inside
        | some layout =>
          rw [found] at inside
          refine ih (enclosed.field acyclic base depth found inside) ?_
          rw [length_cons]
          omega

theorem default_inhabits (acyclic : Acyclic structs) (type : DataType) :
    Inhabits structs (type.default structs) type := by
  have outermost : Enclosed structs [] type := ⟨.nil, by simp, by simp⟩
  exact defaultAt_inhabits acyclic outermost (by simp)

end DataType

end Breadboard
