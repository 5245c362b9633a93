import Breadboard.Proofs.Memory.Operations
import Breadboard.Proofs.Typing.Conversion

/-!
Typed storage. Reading along a path leads from a sound value to a sound one. Writing a value
of the type at the end of a path keeps the type at its start, although the walk along the
types and the walk along the values are two.
-/

open List

namespace Breadboard

open Environment DataType Value

variable {structs : StructTable}

/-- Fields are found where their declarations are: both are the first of their name. -/
theorem lookup_at {layout : List Field} (names : fields.map Prod.fst = layout.map Field.name)
    (found : fields.lookup wanted = some value) :
    ∃ pos decl, fields[pos]? = some (wanted, value) ∧ layout[pos]? = some decl ∧
      layout.find? (fun field => field.name = wanted) = some decl ∧
      ∀ new, setField wanted new fields = fields.set pos (wanted, new) := by
  induction fields generalizing layout with
  | nil => cases found
  | cons field fields ih =>
    obtain ⟨name, first⟩ := field
    cases layout with
    | nil => cases names
    | cons decl layout =>
      simp only [map_cons, List.cons.injEq] at names
      by_cases same : name = wanted
      · subst same
        rw [lookup_cons_self] at found
        cases found
        refine ⟨0, decl, rfl, rfl, ?_, ?_⟩
        · simp [names.1]
        · intro new
          simp [setField]
      · have different : (wanted == name) = false := by
          simpa using Ne.symm same
        rw [lookup_cons, different] at found
        obtain ⟨pos, placed, atField, atLayout, first, replaced⟩ := ih names.2 found
        refine ⟨pos + 1, placed, atField, atLayout, ?_, ?_⟩
        · rw [List.find?_cons_of_neg (by simpa [← names.1] using same), first]
        · intro new
          simp [setField, same, replaced]

namespace Sound

variable {value inner : Value}

theorem step {step : PathStep} (sound : Sound structs value)
    (out : value.step step = .ok inner) : Sound structs inner := by
  unfold Value.step at out
  split at out
  · split at out <;> cases out
    rename_i found
    cases sound with
    | plain plain => cases plain
    | array items => exact items _ (mem_of_getElem? found)
  · dsimp only at out
    split at out
    · cases out
      exact .plain rfl
    · split at out <;> cases out
      exact .plain rfl
  · split at out <;> cases out
    rename_i found
    cases sound with
    | plain plain => cases plain
    | record inhabits =>
      obtain ⟨-, -, names, values⟩ := Inhabits.record_iff.mp inhabits
      obtain ⟨pos, decl, atField, atLayout, -⟩ := lookup_at names found
      exact (values pos _ decl atField atLayout).sound
  · cases out
  · cases out

theorem read (sound : Sound structs value) (out : value.read path = .ok inner) :
    Sound structs inner := by
  induction path generalizing value with
  | nil =>
    cases out
    exact sound
  | cons step rest ih =>
    unfold Value.read at out
    split at out
    · exact sound.step out
    · rename_i stepped
      exact ih (sound.step stepped) out
    · cases out

end Sound

namespace Inhabits

variable {value new res : Value} {type target : DataType} {pos : Nat} {owner : String}
  {path : List PathStep}

attribute [local simp] stepType

theorem setItem (inhabits : Inhabits structs (.array items) type)
    (item : Inhabits structs new type.element) :
    Inhabits structs (.array (items.set pos new)) type := by
  obtain ⟨dim, dims, shape, sized, values⟩ := array_iff.mp inhabits
  refine array_iff.mpr ⟨dim, dims, shape, ?_, ?_⟩
  · simpa using sized
  · intro other among
    rcases mem_or_eq_of_mem_set among with old | rfl
    · exact values other old
    · exact item

theorem setField (inhabits : Inhabits structs (.record name fields) type)
    (found : fields.lookup wanted = some value)
    (placed : (layoutOf structs name).find? (fun field => field.name = wanted) = some decl)
    (field : Inhabits structs new decl.type) :
    Inhabits structs (.record name (setField wanted new fields)) type := by
  obtain ⟨single, base, names, values⟩ := record_iff.mp inhabits
  obtain ⟨pos, first, atField, atLayout, isFirst, replaced⟩ := lookup_at names found
  obtain rfl : first = decl := Option.some.inj (isFirst.symm.trans placed)
  rw [replaced]
  refine record_iff.mpr ⟨single, base, ?_, ?_⟩
  · have same : (fields.map Prod.fst)[pos]? = some wanted := by
      simp [atField]
    obtain ⟨inside, rfl⟩ := List.getElem?_eq_some_iff.mp same
    rw [map_set, set_getElem_self inside, names]
  · intro index other known atIndex atKnown
    rw [List.getElem?_set] at atIndex
    split at atIndex
    · rename_i here
      subst here
      split at atIndex <;> cases atIndex
      cases atLayout.symm.trans atKnown
      exact field
    · exact values index other known atIndex atKnown

theorem of_char (single : type.isSingle = true) (base : type.base = .char)
    (typed : path.foldlM (stepType structs owner) type = .ok target) :
    Inhabits structs (.char c) target := by
  induction path with
  | nil =>
    cases typed
    exact .scalar single (base ▸ .char c)
  | cons step rest ih =>
    rw [foldlM_cons] at typed
    obtain ⟨inner, stepped, further⟩ := bind_eq_ok.mp typed
    have stays : type.element = type := by
      simp only [isSingle, List.isEmpty_iff, Bool.and_eq_true, decide_eq_true_eq] at single
      simp [element, single]
    cases step with
    | field => simp [base] at stepped
    | index pos =>
      obtain rfl : inner = type := by
        simpa [base, stays, eq_comm] using stepped
      exact ih further

theorem element_of_text (inhabits : Inhabits structs (.text str) type)
    (stepped : stepType structs owner type (.index pos) = .ok target) :
    target.isSingle = true ∧ target.base = .char := by
  cases inhabits with
  | scalar single holds =>
    have base : type.base = .text := by
      generalize type.base = base at holds
      cases holds
      rfl
    simp only [DataType.isSingle, Bool.and_eq_true] at single
    obtain rfl : DataType.of .char = target := by
      simpa [base, DataType.isArray, single] using stepped
    exact ⟨rfl, rfl⟩
  | characters _ isPointer base depth =>
    simp only [DataType.isPointer, List.isEmpty_iff, Bool.and_eq_true] at isPointer
    obtain rfl : type.element = target := by
      simpa [base] using stepped
    simp [DataType.element, DataType.isSingle, isPointer, depth, base]

theorem step {inner} {step : PathStep} (inhabits : Inhabits structs value type)
    (stored : ∀ str, value ≠ .text str) (stepped : stepType structs owner type step = .ok inner)
    (leads : value.step step = .ok part) : Inhabits structs part inner := by
  unfold Value.step at leads
  split at leads
  · split at leads <;> cases leads
    rename_i found
    obtain ⟨dim, dims, shape, -, values⟩ := array_iff.mp inhabits
    obtain rfl : type.element = inner := by
      simpa [isArray, shape] using stepped
    exact values _ (mem_of_getElem? found)
  · exact absurd rfl (stored _)
  · split at leads <;> cases leads
    rename_i name fields wanted _ field found
    obtain ⟨-, base, names, values⟩ := record_iff.mp inhabits
    obtain ⟨pos, decl, atField, atLayout, first, -⟩ := lookup_at names found
    obtain rfl : decl.type = inner := by
      rw [find?_layoutOf] at first
      simpa only [stepType, base, first, Except.ok.injEq] using stepped
    exact values pos _ decl atField atLayout
  · cases leads
  · cases leads

theorem read (inhabits : Inhabits structs value type)
    (typed : path.foldlM (stepType structs owner) type = .ok target)
    (out : value.read path = .ok res) : Inhabits structs res target := by
  induction path generalizing value type with
  | nil =>
    cases typed
    cases out
    exact inhabits
  | cons step rest ih =>
    rw [foldlM_cons] at typed
    obtain ⟨inner, stepped, further⟩ := bind_eq_ok.mp typed
    unfold Value.read at out
    split at out
    · cases step with
      | field => cases out
      | index pos =>
        obtain ⟨single, base⟩ := inhabits.element_of_text stepped
        simp only [Value.step] at out
        split at out
        · cases out
          exact of_char single base further
        · split at out <;> cases out
          exact of_char single base further
    · rename_i stored leads
      exact ih (inhabits.step stored stepped leads) further out
    · cases out

theorem write (inhabits : Inhabits structs value type)
    (typed : path.foldlM (stepType structs owner) type = .ok target)
    (fits : Inhabits structs new target) (out : value.write path new = .ok res) :
    Inhabits structs res type := by
  induction path generalizing value type res with
  | nil =>
    cases typed
    cases out
    exact fits
  | cons step rest ih =>
    rw [foldlM_cons] at typed
    obtain ⟨inner, stepped, typed⟩ := bind_eq_ok.mp typed
    unfold Value.write at out
    split at out
    · split at out
      · rename_i item found
        obtain ⟨written, inside, made⟩ := bind_eq_ok.mp out
        cases made
        obtain ⟨dim, dims, shape, -, values⟩ := array_iff.mp inhabits
        have element : inner = type.element := by
          simpa [isArray, shape, eq_comm] using stepped
        subst element
        refine inhabits.setItem (ih ?_ typed inside)
        exact values item (mem_of_getElem? found)
      · cases out
    · obtain ⟨written, -, made⟩ := bind_eq_ok.mp out
      cases made
      exact inhabits.of_text
    · split at out
      · rename_i name fields wanted _ field found
        obtain ⟨written, inside, made⟩ := bind_eq_ok.mp out
        cases made
        obtain ⟨-, base, names, values⟩ := record_iff.mp inhabits
        obtain ⟨pos, decl, atField, atLayout, first, -⟩ := lookup_at names found
        have declaredType : inner = decl.type := by
          rw [find?_layoutOf] at first
          simp only [stepType, base, first, Except.ok.injEq] at stepped
          exact stepped.symm
        subst declaredType
        refine inhabits.setField found first (ih ?_ typed inside)
        exact values pos _ decl atField atLayout
      · cases out
    · cases out
    · cases out

end Inhabits

theorem forall_mem_modify {α : Type} {items : Array α} {holds : α → Prop} (index : Nat)
    (change : α → α) (all : ∀ item ∈ items, holds item)
    (changed : ∀ item, items[index]? = some item → holds (change item)) :
    ∀ item ∈ items.modify index change, holds item := by
  intro item among
  obtain ⟨pos, inside, rfl⟩ := Array.mem_iff_getElem.mp among
  rw [Array.size_modify] at inside
  rw [Array.getElem_modify]
  split
  · rename_i here
    subst here
    exact changed _ (Array.getElem?_eq_getElem inside)
  · exact all _ (Array.getElem_mem inside)

def Variable.Typed (structs : StructTable) (decl : Variable) : Prop :=
  Inhabits structs decl.value decl.type

namespace Environment

variable {cell : Cell} {value : Value} {decl : Variable} {place : Place} {found : Variable}
  {type : DataType}

/-- All variables hold values of their types. -/
structure Typed (structs : StructTable) (env : Environment) : Prop where
  globals : ∀ decl ∈ env.globals, decl.Typed structs
  locals : ∀ slot ∈ env.locals, slot.declared.Typed structs

variable {env final : Environment}

variable (typed : env.Typed structs)
include typed

theorem Typed.resolve (out : env.resolve cell = .ok found) : found.Typed structs := by
  have resolved := resolve_eq_ok_iff.mp out
  unfold resolve? at resolved
  split at resolved
  · exact typed.globals found (Array.mem_of_getElem? resolved)
  · split at resolved
    · rename_i slot inside
      split at resolved <;> cases resolved
      exact typed.locals slot (Array.mem_of_getElem? inside)
    · cases resolved

theorem Typed.read (out : env.read place = .ok value) : Sound structs value := by
  obtain ⟨found, resolved, out⟩ := bind_eq_ok.mp out
  have inhabits : Inhabits structs found.value found.type := typed.resolve resolved
  exact inhabits.sound.read out

/-- What is read at a place is admitted by the type of the place. -/
theorem Typed.inhabits (placed : env.placeType structs place = .ok type)
    (out : env.read place = .ok value) : Inhabits structs value type := by
  obtain ⟨found, resolved, out⟩ := bind_eq_ok.mp out
  obtain ⟨owner, known, walked⟩ := bind_eq_ok.mp placed
  cases resolved.symm.trans known
  have held : Inhabits structs found.value found.type := typed.resolve resolved
  exact held.read walked out

theorem Typed.setValue (resolved : env.resolve cell = .ok found)
    (inhabits : Inhabits structs value found.type) : (env.setValue cell value).Typed structs := by
  have known := resolve_eq_ok_iff.mp resolved
  cases cell with
  | «global» index =>
    refine ⟨?_, typed.locals⟩
    apply forall_mem_modify index (fun old => { old with value }) typed.globals
    intro old held
    cases held.symm.trans known
    exact inhabits
  | frame index generation =>
    refine ⟨typed.globals, ?_⟩
    apply forall_mem_modify index
      (fun slot => { slot with declared := { slot.declared with value } }) typed.locals
    intro slot held
    simp only [resolve?, held] at known
    split at known <;> cases known
    exact inhabits

theorem Typed.write (placed : env.placeType structs place = .ok type)
    (inhabits : Inhabits structs value type)
    (out : env.write place value = .ok final) : final.Typed structs := by
  obtain ⟨found, resolved, out⟩ := bind_eq_ok.mp out
  obtain ⟨written, inside, made⟩ := bind_eq_ok.mp out
  cases made
  obtain ⟨owner, known, walked⟩ := bind_eq_ok.mp placed
  cases resolved.symm.trans known
  have before : Inhabits structs found.value found.type := typed.resolve resolved
  exact typed.setValue resolved (before.write walked inhabits inside)

theorem Typed.addBinding (name : String) (cell : Cell) :
    (env.addBinding name cell).Typed structs := by
  unfold Environment.addBinding
  split <;> exact ⟨typed.globals, typed.locals⟩

theorem Typed.bind (out : env.bind name cell = .ok final) : final.Typed structs := by
  unfold Environment.bind at out
  split at out <;> cases out
  exact typed.addBinding name cell

section

variable (inhabits : decl.Typed structs)
include inhabits

theorem Typed.allocateGlobal : (env.allocateGlobal decl).2.Typed structs := by
  refine ⟨?_, typed.locals⟩
  intro other among
  rcases Array.mem_push.mp among with old | rfl
  · exact typed.globals other old
  · exact inhabits

theorem Typed.allocateLocal : (env.allocateLocal decl).2.Typed structs := by
  refine ⟨typed.globals, ?_⟩
  intro slot among
  rcases Array.mem_push.mp among with old | rfl
  · exact typed.locals slot old
  · exact inhabits

theorem Typed.declare (out : env.declare decl = .ok (cell, final)) : final.Typed structs := by
  unfold Environment.declare at out
  split at out
  · cases out
  · dsimp only at out
    split at out
    · cases out
      exact (typed.allocateGlobal inhabits).addBinding _ _
    · cases out
      exact (typed.allocateLocal inhabits).addBinding _ _

theorem Typed.declareStatic (site : NodeId) : (env.declareStatic site decl).2.Typed structs := by
  unfold Environment.declareStatic
  split
  · split
    · exact typed.bind ‹_›
    · exact typed
  · have allocated := typed.allocateGlobal inhabits
    dsimp only
    split
    · rename_i bound
      have named := allocated.bind bound
      exact ⟨named.globals, named.locals⟩
    · exact allocated

end

theorem Typed.pushScope (kind : ScopeKind) : (env.pushScope kind).Typed structs :=
  ⟨typed.globals, typed.locals⟩

theorem Typed.popScope : env.popScope.Typed structs := by
  unfold Environment.popScope
  split
  · exact typed
  · refine ⟨typed.globals, ?_⟩
    intro slot among
    rw [Array.take_eq_extract] at among
    obtain ⟨index, _, rfl⟩ := Array.mem_extract_iff_getElem.mp among
    exact typed.locals _ (Array.getElem_mem _)

end Environment

end Breadboard
