import Breadboard.Proofs.Memory.Operations
import Mathlib.Algebra.Group.Nat.Defs

/-!
How long cells last. A local cell holds its variable as long as the scope of its declaration is
open: the locals of that scope lie above its floor and below the floors of the scopes inside it.
When the scope closes, the slot is given up, and the stamp of the cell is older than any that the
slot can get from then on. So a cell never leads to a variable that it was not made for, unless
the stamps run out.
-/

open List

namespace Breadboard

open Environment

namespace Variable

/-- A variable after an operation that may write to its cell. -/
def store (cell : Cell) (held : Variable) : MemoryOp → Variable
  | .write place value =>
    if place.cell = cell then
      match held.value.write place.path value with
      | .ok value => { held with value }
      | .error _ => held
    else held
  | _ => held

/-- A variable after operations that may write to its cell. -/
def written (held : Variable) (cell : Cell) (ops : List MemoryOp) : Variable :=
  ops.foldl (store cell) held

theorem name_store (cell : Cell) (held : Variable) (op : MemoryOp) :
    (held.store cell op).name = held.name := by
  unfold store
  split
  · split
    · split <;> rfl
    · rfl
  · rfl

@[simp] theorem name_written (held : Variable) (cell : Cell) (ops : List MemoryOp) :
    (held.written cell ops).name = held.name := by
  induction ops generalizing held with
  | nil => rfl
  | cons op ops ih =>
    exact (ih _).trans (held.name_store cell op)

end Variable

namespace Environment

variable {op : MemoryOp} {ops earlier later : List MemoryOp} {site : NodeId} {found : Variable}
  {name : String}

def declaresNew (env : Environment) (op : MemoryOp) : Bool :=
  (env.yield? op).isSome &&
    match op with
    | .declareStatic site _ => (env.staticCell? site).isNone
    | _ => true

def newVariables : Environment → List MemoryOp → Nat
  | _, [] => 0
  | env, op :: ops => (env.declaresNew op).toNat + newVariables (env.perform op) ops

def HasRoom (env : Environment) (ops : List MemoryOp) : Prop :=
  env.nextGeneration.toNat + env.newVariables ops < 2 ^ 32

variable {env next : Environment} {declared held : Variable} {cell : Cell} {level index : Nat}
  {generation : UInt32}

/-- What holds of memory, and still does when a scope opens or closes, when a variable or a name
is made, when a site is entered and when a value is set, holds after every operation. -/
theorem perform_induction (holds : Environment → Prop) (op : MemoryOp) (before : holds env)
    (opened : ∀ kind, kind ≠ .global → holds (env.pushScope kind))
    (closed : op = .close → holds env.popScope)
    (named : ∀ {next} name cell, holds next → holds (next.addBinding name cell))
    (globally : ∀ decl, holds (env.allocateGlobal decl).2)
    (locally : ∀ decl, env.declaresNew op = true → holds (env.allocateLocal decl).2)
    (sited : ∀ {next} site decl, op = .declareStatic site decl → env.staticCell? site = none →
      env.yield? op = some (.global env.globals.size) → next.globals = env.globals.push decl →
      holds next → holds { next with statics := (site, .global env.globals.size) :: env.statics })
    (written : ∀ place value {found} new, op = .write place value →
      env.resolve? place.cell = some found → holds (env.setValue place.cell new)) :
    holds (env.perform op) := by
  cases op with
  | openFunction | openBlock => exact opened _ (by decide)
  | close => exact closed rfl
  | declare decl =>
    rcases env.perform_declare decl with ⟨-, failed⟩ |
      ⟨cell, allocated, yielded, made, -, ⟨-, done⟩ | ⟨-, done⟩⟩
    · rwa [failed]
    · cases done
      exact made ▸ named _ _ (globally decl)
    · cases done
      exact made ▸ named _ _ (locally decl (by simp [declaresNew, yielded]))
  | declareStatic site decl =>
    obtain ⟨res, next, yielded, made, out⟩ := env.perform_declareStatic site decl
    rw [made]
    cases out with
    | again => exact named _ _ before
    | first fresh =>
      exact sited site decl rfl fresh yielded (globals_addBinding ..) (named _ _ (globally decl))
    | taken => exact before
    | lost => exact globally decl
  | write place value =>
    rcases env.perform_write place value with failed | ⟨found, new, resolved, made⟩
    · rwa [failed]
    · exact made ▸ written place value new rfl resolved

/-- A local variable is in the slot of its cell, in the part of the locals that belongs to the
scope at a level. -/
structure LocalLives (env : Environment) (level index : Nat) (generation : UInt32)
    (held : Variable) : Prop where
  stored : env.locals[index]? = some ⟨generation, held⟩
  stamped : generation < env.nextGeneration
  floor : ∃ floor, env.floors[level]? = some floor ∧ floor ≤ index
  below : ∀ higher floor, level < higher → env.floors[higher]? = some floor → index < floor

def Lives (env : Environment) (level : Nat) (held : Variable) : Cell → Prop
  | .global index => env.globals[index]? = some held
  | .frame index generation => env.LocalLives level index generation held

def Gone (env : Environment) : Cell → Prop
  | .global _ => False
  | .frame index generation => generation < env.nextGeneration ∧
      ∀ slot, env.locals[index]? = some slot → slot.generation ≠ generation

theorem getElem?_take {α : Type} (items : Array α) (count index : Nat) :
    (items.take count)[index]? = if index < count then items[index]? else none := by
  rw [Array.take_eq_extract, Array.getElem?_extract, Nat.zero_add]
  split
  · rw [if_pos (by omega)]
  · split
    · rw [Array.getElem?_eq_none (by omega)]
    · rfl

theorem getElem?_push_of_eq_some {α : Type} {items : Array α} {item : α} (last : α)
    (found : items[index]? = some item) : (items.push last)[index]? = some item := by
  obtain ⟨inside, rfl⟩ := Array.getElem?_eq_some_iff.mp found
  exact Array.getElem?_push_lt inside

/-- The stamp after the next is younger, if stamps have not run out. -/
theorem lt_next_stamp {older stamp : UInt32} (old : older ≤ stamp)
    (room : stamp.toNat + 1 < 2 ^ 32) : older < stamp + 1 := by
  rw [UInt32.le_iff_toNat_le] at old
  rw [UInt32.lt_iff_toNat_lt, UInt32.toNat_add, UInt32.toNat_one, Nat.mod_eq_of_lt room]
  omega

/-! What lives. -/

theorem LocalLives.level_le (lives : env.LocalLives level index generation held) :
    level ≤ env.level := by
  obtain ⟨floor, found, -⟩ := lives.floor
  have inside := (List.getElem?_eq_some_iff.mp found).1
  rw [floors, length_outward] at inside
  exact Nat.le_of_lt_succ inside

namespace Lives

variable (lives : env.Lives level held cell)
include lives

theorem resolve? : env.resolve? cell = some held := by
  cases cell with
  | «global» index => exact lives
  | frame index generation => simp [resolve?, lives.stored]

theorem pushScope (kind : ScopeKind) : (env.pushScope kind).Lives level held cell := by
  cases cell with
  | «global» index => exact lives
  | frame index generation =>
    have floors : (env.pushScope kind).floors = env.floors ++ [env.locals.size] :=
      env.outward_pushScope _ _ kind
    obtain ⟨floor, found, above⟩ := lives.floor
    refine ⟨lives.stored, lives.stamped, ⟨floor, ?_, above⟩, ?_⟩
    · rw [floors, List.getElem?_append_left (List.getElem?_eq_some_iff.mp found).1, found]
    · intro higher floor isHigher among
      rw [floors, List.getElem?_append] at among
      split at among
      · exact lives.below higher floor isHigher among
      · cases mem_singleton.mp (mem_of_getElem? among)
        exact (Array.getElem?_eq_some_iff.mp lives.stored).1

theorem popScope (stays : level ≤ env.popScope.level) : env.popScope.Lives level held cell := by
  have floors : env.popScope.floors = env.floors.take (env.popScope.level + 1) :=
    env.outward_popScope _ _
  rcases env.popScope_cases with ⟨-, same⟩ | ⟨scopes, floor, last, fewer, closed⟩
  · rwa [same]
  rw [closed] at floors stays ⊢
  have inner : level < env.level := Nat.lt_of_le_of_lt stays (Nat.lt_of_succ_le (Nat.le_of_eq fewer))
  cases cell with
  | «global» index => exact lives
  | frame index generation =>
    have kept : index < floor := lives.below env.level floor inner last
    obtain ⟨own, found, above⟩ := lives.floor
    refine ⟨?_, lives.stamped, ⟨own, ?_, above⟩, ?_⟩
    · rw [getElem?_take, if_pos kept]
      exact lives.stored
    · rw [floors, List.getElem?_take_of_lt (Nat.lt_succ_of_le stays), found]
    · intro higher other isHigher among
      rw [floors, List.getElem?_take] at among
      split at among
      · exact lives.below higher other isHigher among
      · cases among

theorem of_same (globals : next.globals = env.globals) (locals : next.locals = env.locals)
    (stamps : next.nextGeneration = env.nextGeneration) (floors : next.floors = env.floors) :
    next.Lives level held cell := by
  cases cell with
  | «global» index =>
    rw [Lives, globals]
    exact lives
  | frame index generation =>
    exact ⟨locals ▸ lives.stored, stamps ▸ lives.stamped, floors ▸ lives.floor, floors ▸ lives.below⟩

theorem addBinding (name : String) (target : Cell) :
    (env.addBinding name target).Lives level held cell :=
  lives.of_same (globals_addBinding ..) (locals_addBinding ..) (nextGeneration_addBinding ..)
    (floors_addBinding ..)

theorem allocateGlobal (declared : Variable) :
    (env.allocateGlobal declared).2.Lives level held cell := by
  cases cell with
  | «global» index => exact getElem?_push_of_eq_some declared lives
  | frame index generation => exact ⟨lives.stored, lives.stamped, lives.floor, lives.below⟩

theorem allocateLocal (declared : Variable) (room : env.nextGeneration.toNat + 1 < 2 ^ 32) :
    (env.allocateLocal declared).2.Lives level held cell := by
  cases cell with
  | «global» index => exact lives
  | frame index generation =>
    refine ⟨getElem?_push_of_eq_some _ lives.stored, ?_, lives.floor, lives.below⟩
    exact lt_next_stamp (UInt32.le_of_lt lives.stamped) room

theorem setValue (value : Value) :
    (env.setValue cell value).Lives level { held with value } cell := by
  cases cell with
  | «global» index =>
    have found : env.globals[index]? = some held := lives
    simp [Lives, setValue, Array.getElem?_modify, found]
  | frame index generation =>
    refine ⟨?_, lives.stamped, lives.floor, lives.below⟩
    simp [setValue, Array.getElem?_modify, lives.stored]

theorem setValue_of_ne (different : other ≠ cell) (resolved : env.resolve? other = some found)
    (value : Value) : (env.setValue other value).Lives level held cell := by
  cases cell with
  | «global» index =>
    cases other with
    | frame => exact lives
    | «global» pos =>
      have apart : pos ≠ index := fun same => different (congrArg Cell.global same)
      have found : env.globals[index]? = some held := lives
      simp [Lives, Environment.setValue, Array.getElem?_modify, apart, found]
  | frame index generation =>
    cases other with
    | «global» => exact ⟨lives.stored, lives.stamped, lives.floor, lives.below⟩
    | frame pos stamp =>
      have apart : pos ≠ index := by
        rintro rfl
        simp only [Environment.resolve?, lives.stored] at resolved
        split at resolved
        · rename_i same
          exact different (congrArg (Cell.frame pos) same.symm)
        · cases resolved
      refine ⟨?_, lives.stamped, lives.floor, lives.below⟩
      simp [Environment.setValue, Array.getElem?_modify, apart, lives.stored]

theorem write (place : Place) (value : Value) :
    (env.perform (.write place value)).Lives level (held.store cell (.write place value)) cell := by
  by_cases same : place.cell = cell
  · subst same
    have resolved : env.resolve place.cell = .ok held := resolve_eq_ok_iff.mpr lives.resolve?
    have out : env.write place value =
        (held.value.write place.path value).map (env.setValue place.cell) := by
      rw [write, resolved]
      change held.value.write place.path value >>= _ = _
      cases held.value.write place.path value <;> rfl
    simp only [perform, Variable.store, out, if_true]
    cases held.value.write place.path value with
    | error error => exact lives
    | ok value => exact lives.setValue value
  · simp only [Variable.store, if_neg same]
    rcases env.perform_write place value with same | ⟨found, written, resolved, made⟩
    · rwa [same]
    · rw [made]
      exact lives.setValue_of_ne same resolved written

/-- A cell lives on through an operation that does not close its scope. -/
theorem perform (op : MemoryOp)
    (room : env.nextGeneration.toNat + (env.declaresNew op).toNat < 2 ^ 32)
    (stays : level ≤ (env.perform op).level) :
    (env.perform op).Lives level (held.store cell op) cell := by
  cases op with
  | write place value => exact lives.write place value
  | _ =>
    refine perform_induction (·.Lives level held cell) _ lives (fun kind _ => lives.pushScope kind)
      (fun closes => lives.popScope (by rwa [closes] at stays))
      (fun name cell lives => addBinding lives name cell) lives.allocateGlobal
      (fun declared isNew => lives.allocateLocal declared (by rwa [isNew] at room))
      (fun _ _ _ _ _ _ lives => of_same lives rfl rfl rfl rfl) (by rintro _ _ _ _ ⟨⟩)

end Lives

/-! What is gone. -/

/-- The stamps of slots are left, slots are given up, or there is one more slot with the next
stamp. -/
def SlotMove (env : Environment) (isNew : Bool) (next : Environment) : Prop :=
  next.nextGeneration = env.nextGeneration ∧
    (∀ (index : Nat) slot, next.locals[index]? = some slot →
      ∃ old, env.locals[index]? = some old ∧ slot.generation = old.generation) ∨
  isNew = true ∧ next.nextGeneration = env.nextGeneration + 1 ∧
    ∃ declared, next.locals = env.locals.push ⟨env.nextGeneration, declared⟩

theorem perform_locals (env : Environment) (op : MemoryOp) :
    env.SlotMove (env.declaresNew op) (env.perform op) := by
  have same {next : Environment} (stamp : next.nextGeneration = env.nextGeneration)
      (locals : next.locals = env.locals) : env.SlotMove (env.declaresNew op) next :=
    .inl ⟨stamp, fun index slot found => ⟨slot, locals ▸ found, rfl⟩⟩
  refine perform_induction (env.SlotMove (env.declaresNew op)) op (same rfl rfl)
    (fun _ _ => same rfl rfl) (fun _ => ?_) (fun name cell move => ?_) (fun _ => same rfl rfl)
    (fun declared isNew => .inr ⟨isNew, rfl, declared, rfl⟩) (fun _ _ _ _ _ _ move => move) ?_
  · rcases env.popScope_cases with ⟨-, kept⟩ | ⟨scopes, floor, -, -, closed⟩
    · rw [kept]
      exact same rfl rfl
    · rw [closed]
      refine .inl ⟨rfl, ?_⟩
      intro index slot found
      rw [getElem?_take] at found
      split at found
      · exact ⟨slot, found, rfl⟩
      · cases found
  · rw [SlotMove, nextGeneration_addBinding, locals_addBinding]
    exact move
  · intro place value held new _ _
    cases place.cell with
    | «global» => exact same rfl rfl
    | frame pos stamp =>
      refine .inl ⟨rfl, ?_⟩
      intro index slot found
      simp only [setValue, Array.getElem?_modify] at found
      split at found
      · obtain ⟨old, held, changed⟩ := Option.map_eq_some_iff.mp found
        exact ⟨old, held, by rw [← changed]⟩
      · exact ⟨slot, found, rfl⟩

theorem HasRoom.perform (room : env.HasRoom (op :: ops)) : (env.perform op).HasRoom ops := by
  unfold HasRoom at room ⊢
  rw [newVariables] at room
  rcases env.perform_locals op with ⟨same, -⟩ | ⟨isNew, stamp, -⟩
  · rw [same]
    omega
  · rw [isNew, Bool.toNat_true] at room
    rw [stamp, UInt32.toNat_add, UInt32.toNat_one]
    omega

theorem HasRoom.first (room : env.HasRoom (op :: ops)) :
    env.nextGeneration.toNat + (env.declaresNew op).toNat < 2 ^ 32 := by
  unfold HasRoom at room
  rw [newVariables] at room
  omega

namespace Gone

theorem resolve (gone : env.Gone cell) : env.resolve cell = .error .danglingPlace := by
  cases cell with
  | «global» index => exact gone.elim
  | frame index generation =>
    have nothing : env.resolve? (.frame index generation) = none := by
      simp only [resolve?]
      split
      · rename_i slot found
        exact if_neg (gone.2 slot found)
      · rfl
    simp [resolve, nothing]

theorem perform (gone : env.Gone cell) (op : MemoryOp)
    (room : env.nextGeneration.toNat + (env.declaresNew op).toNat < 2 ^ 32) :
    (env.perform op).Gone cell := by
  cases cell with
  | «global» index => exact gone
  | frame index generation =>
    obtain ⟨older, free⟩ := gone
    rcases env.perform_locals op with ⟨stamp, slots⟩ | ⟨isNew, stamp, declared, slots⟩
    · refine ⟨stamp ▸ older, ?_⟩
      intro slot found same
      obtain ⟨old, held, kept⟩ := slots index slot found
      exact free old held (kept.symm.trans same)
    · rw [isNew] at room
      refine ⟨?_, ?_⟩
      · rw [stamp]
        exact lt_next_stamp (UInt32.le_of_lt older) room
      · intro slot found same
        rw [slots, Array.getElem?_push] at found
        split at found
        · cases found
          exact UInt32.lt_irrefl _ (same ▸ older)
        · exact free slot found same

theorem performAll (gone : env.Gone cell) (room : env.HasRoom ops) :
    (env.performAll ops).Gone cell := by
  induction ops generalizing env with
  | nil => exact gone
  | cons op ops ih =>
    exact ih (gone.perform op room.first) room.perform

end Gone

/-! Runs. -/

theorem Lives.performAll (lives : env.Lives level held cell) (room : env.HasRoom ops)
    (stays : env.StaysOpen level ops) :
    (env.performAll ops).Lives level (held.written cell ops) cell := by
  induction ops generalizing env held with
  | nil => exact lives
  | cons op ops ih =>
    obtain ⟨-, later⟩ := staysOpen_cons.mp stays
    have next := lives.perform op room.first (later [] nil_prefix)
    exact ih next room.perform later

theorem level_le_perform (env : Environment) (stays : op ≠ .close) :
    env.level ≤ (env.perform op).level := by
  refine perform_induction (env.level ≤ ·.level) op (Nat.le_refl _) (fun kind _ => by simp)
    (absurd · stays) (fun name cell held => by simpa using held) (fun _ => Nat.le_refl _)
    (fun _ _ => Nat.le_refl _) (fun _ _ _ _ _ _ held => held) ?_
  intro place value held new _ _
  cases place.cell <;> exact Nat.le_refl _

theorem LocalLives.gone (lives : env.LocalLives level index generation held)
    (closes : (env.perform op).level < level) : (env.perform op).Gone (.frame index generation) := by
  have opened := lives.level_le
  by_cases closing : op = .close
  · subst closing
    simp only [perform] at closes ⊢
    rcases env.popScope_cases with ⟨-, same⟩ | ⟨scopes, floor, last, fewer, closed⟩
    · rw [same] at closes
      omega
    · rw [closed] at closes ⊢
      have innermost : level = env.level := by
        change scopes.length < level at closes
        omega
      obtain ⟨own, found, above⟩ := lives.floor
      rw [innermost, last] at found
      cases found
      refine ⟨lives.stamped, ?_⟩
      intro slot inside
      rw [getElem?_take, if_neg (Nat.not_lt_of_le above)] at inside
      cases inside
  · have stays := env.level_le_perform closing
    omega

theorem LocalLives.performAll_gone (lives : env.LocalLives level index generation held)
    (room : env.HasRoom ops) (closed : ¬ env.StaysOpen level ops) :
    (env.performAll ops).Gone (.frame index generation) := by
  induction ops generalizing env held with
  | nil => exact absurd (staysOpen_nil.mpr lives.level_le) closed
  | cons op ops ih =>
    by_cases stays : level ≤ (env.perform op).level
    · have alive : env.Lives level held (.frame index generation) := lives
      refine ih (alive.perform op room.first stays) room.perform ?_
      intro later
      exact closed (staysOpen_cons.mpr ⟨lives.level_le, later⟩)
    · exact (lives.gone (Nat.lt_of_not_le stays)).performAll room.perform

/-! Where cells come from. -/

/-- The floors rise from scope to scope up to the number of locals, and only the outermost scope
is global. -/
structure Stacked (env : Environment) : Prop where
  rising : (env.floors ++ [env.locals.size]).Pairwise (· ≤ ·)
  inner : ∀ kind ∈ env.kinds.tail, kind ≠ .global

namespace Stacked

theorem grow (stacked : env.Stacked) (floors : next.floors = env.floors)
    (kinds : next.kinds = env.kinds) (size : env.locals.size ≤ next.locals.size) :
    next.Stacked := by
  obtain ⟨rising, inner⟩ := stacked
  refine ⟨?_, kinds ▸ inner⟩
  rw [floors]
  obtain ⟨below, -, top⟩ := pairwise_append.mp rising
  refine pairwise_append.mpr ⟨below, pairwise_singleton _ _, ?_⟩
  intro floor among last isLast
  cases mem_singleton.mp isLast
  exact Nat.le_trans (top floor among _ (mem_singleton_self _)) size

theorem pushScope (stacked : env.Stacked) (inner : kind ≠ .global) :
    (env.pushScope kind).Stacked := by
  have floors : (env.pushScope kind).floors = env.floors ++ [env.locals.size] :=
    env.outward_pushScope _ _ kind
  have kinds : (env.pushScope kind).kinds = env.kinds ++ [kind] := env.outward_pushScope _ _ kind
  constructor
  · rw [floors]
    refine pairwise_append.mpr ⟨stacked.rising, pairwise_singleton _ _, ?_⟩
    intro floor among last isLast
    cases mem_singleton.mp isLast
    rcases mem_append.mp among with older | newest
    · have top := (pairwise_append.mp stacked.rising).2.2
      exact top floor older _ (mem_singleton_self _)
    · exact Nat.le_of_eq (mem_singleton.mp newest)
  · rw [kinds]
    intro other among
    rcases mem_append.mp among with older | newest
    · exact stacked.inner other older
    · rw [mem_singleton.mp newest]
      exact inner

theorem popScope (stacked : env.Stacked) : env.popScope.Stacked := by
  have floors : env.popScope.floors = env.floors.take (env.popScope.level + 1) :=
    env.outward_popScope _ _
  have kinds : env.popScope.kinds = env.kinds.take (env.popScope.level + 1) :=
    env.outward_popScope _ _
  rcases env.popScope_cases with ⟨-, same⟩ | ⟨scopes, floor, last, fewer, closed⟩
  · rwa [same]
  have top := (pairwise_append.mp stacked.rising).2.2
  have below := top floor (mem_of_getElem? last) _ (mem_singleton_self _)
  have innermost : env.popScope.level + 1 = env.level := by
    rw [closed]
    exact fewer
  constructor
  · -- What was the floor of the scope is the number of locals now.
    have size : env.popScope.locals.size = floor := by
      rw [closed]
      simp [below]
    have split : env.floors.take (env.level + 1) = env.floors.take env.level ++ [floor] := by
      rw [take_add_one, last, Option.toList_some]
    rw [floors, innermost, size, ← split]
    exact (pairwise_append.mp stacked.rising).1.sublist (take_sublist _ _)
  · rw [kinds]
    intro kind among
    exact stacked.inner kind ((take_sublist _ _).tail.subset among)

theorem perform (stacked : env.Stacked) (op : MemoryOp) : (env.perform op).Stacked := by
  refine perform_induction Stacked op stacked (fun kind inner => stacked.pushScope inner)
    (fun _ => stacked.popScope) (fun name cell held => ?_)
    (fun _ => stacked.grow rfl rfl (Nat.le_refl _))
    (fun _ _ => stacked.grow rfl rfl (by simp [allocateLocal]))
    (fun _ _ _ _ _ _ held => ⟨held.rising, held.inner⟩) ?_
  · exact held.grow (floors_addBinding ..) (kinds_addBinding ..) (by simp)
  · intro place value held new _ _
    cases place.cell with
    | «global» => exact stacked.grow rfl rfl (Nat.le_refl _)
    | frame => exact stacked.grow rfl rfl (by simp [setValue])

theorem after (ops : List MemoryOp) : (after ops).Stacked := by
  induction ops using List.reverseRecOn with
  | nil => exact ⟨by decide, by decide⟩
  | append_singleton ops op ih =>
    rw [after_concat]
    exact ih.perform op

theorem level_eq_zero (stacked : env.Stacked) (outermost : env.isGlobal = true) :
    env.level = 0 := by
  unfold isGlobal at outermost
  unfold level
  split at outermost
  · simp_all
  · rename_i scope outer opened
    refine absurd (of_decide_eq_true outermost) (stacked.inner scope.kind ?_)
    simp [kinds, outward, opened]

end Stacked

/-- A declaration makes a cell of the innermost scope that lives. -/
theorem lives_of_declare (stacked : env.Stacked) (yielded : env.yield? (.declare declared) = some cell)
    (room : env.nextGeneration.toNat + (env.declaresNew (.declare declared)).toNat < 2 ^ 32) :
    (env.perform (.declare declared)).Lives env.level declared cell ∧
      (env.level = 0 ∨ ∃ index generation, cell = .frame index generation) := by
  rcases env.perform_declare declared with ⟨failed, -⟩ |
    ⟨made, allocated, same, bound, -, ⟨outermost, done⟩ | ⟨-, done⟩⟩
  · rw [failed] at yielded
    cases yielded
  · cases same.symm.trans yielded
    cases done
    rw [bound]
    refine ⟨Lives.addBinding ?_ _ _, .inl (stacked.level_eq_zero outermost)⟩
    exact Array.getElem?_push_size
  · cases same.symm.trans yielded
    cases done
    rw [bound]
    simp only [declaresNew, yielded] at room
    refine ⟨Lives.addBinding ?_ _ _, .inr ⟨_, _, rfl⟩⟩
    have last : env.floors.length = env.level + 1 := length_outward _ _ _
    have inside : env.level < env.floors.length := by omega
    have top := (pairwise_append.mp stacked.rising).2.2
    refine ⟨Array.getElem?_push_size, lt_next_stamp (UInt32.le_refl _) room, ?_, ?_⟩
    · exact ⟨env.floors[env.level], List.getElem?_eq_getElem inside,
        top _ (getElem_mem inside) _ (mem_singleton_self _)⟩
    · intro higher floor isHigher among
      have within := (List.getElem?_eq_some_iff.mp among).1
      change higher < env.floors.length at within
      omega

theorem lives_of_declareStatic (fresh : env.staticCell? site = none)
    (yielded : env.yield? (.declareStatic site declared) = some cell) :
    (env.perform (.declareStatic site declared)).Lives 0 declared cell := by
  obtain ⟨res, next, same, made, out⟩ := env.perform_declareStatic site declared
  rw [made]
  rw [yielded] at same
  cases out with
  | again known => cases fresh.symm.trans known
  | first =>
    cases same
    have globals := globals_addBinding (env.allocateGlobal declared).2 declared.name
      (.global env.globals.size)
    change (Environment.globals _)[env.globals.size]? = some declared
    rw [globals]
    exact Array.getElem?_push_size
  | taken | lost => cases same

/-- The cell of a site is kept, and the first declaration there gives it. -/
theorem perform_staticCell? (known : (env.perform op).staticCell? site = some cell) :
    env.staticCell? site = some cell ∨ env.staticCell? site = none ∧
        ∃ declared, op = .declareStatic site declared ∧ env.yield? op = some cell := by
  revert known
  refine perform_induction (fun next => next.staticCell? site = some cell → _) op .inl
    (fun _ _ => .inl) (fun _ known => ?_) (fun name target held known => held ?_) (fun _ => .inl)
    (fun _ _ => .inl) ?_ ?_
  · rcases env.popScope_cases with ⟨-, same⟩ | ⟨scopes, floor, -, -, closed⟩
    · exact .inl (same ▸ known)
    · rw [closed] at known
      exact .inl known
  · rwa [staticCell?, statics_addBinding] at known
  · intro next other declared isOp fresh yielded _ _ known
    rw [staticCell?, lookup_cons] at known
    split at known
    · rename_i here
      cases beq_iff_eq.mp here
      cases known
      exact .inr ⟨fresh, declared, isOp, yielded⟩
    · exact .inl known
  · intro place value held new _ _
    cases place.cell <;> exact .inl

theorem exists_of_staticCell? (known : (after ops).staticCell? site = some cell) :
    ∃ before declared between, ops = before ++ .declareStatic site declared :: between ∧
      (after before).staticCell? site = none ∧
      (after before).yield? (.declareStatic site declared) = some cell := by
  induction ops using List.reverseRecOn with
  | nil => cases known
  | append_singleton ops op ih =>
    rw [after_concat] at known
    rcases perform_staticCell? known with older | ⟨fresh, declared, rfl, yielded⟩
    · obtain ⟨before, declared, between, rfl, fresh, yielded⟩ := ih older
      exact ⟨before, declared, between ++ [op], by simp, fresh, yielded⟩
    · exact ⟨ops, declared, [], rfl, fresh, yielded⟩

theorem HasRoom.performAll {first second : List MemoryOp} (room : env.HasRoom (first ++ second)) :
    (env.performAll first).HasRoom second := by
  induction first generalizing env with
  | nil => exact room
  | cons op first ih => exact ih room.perform

theorem staysOpen_zero (env : Environment) (ops : List MemoryOp) : env.StaysOpen 0 ops :=
  fun _ _ => Nat.zero_le _

/-- The variable that a declaration stands for, and what it holds after later operations. Static
variables are made by the first declaration at their site, and the others there stand for the
same variable. -/
inductive Stands (earlier later : List MemoryOp) : MemoryOp → Cell → Variable → Prop where
  | plain {declared : Variable} {cell : Cell} :
      (after earlier).yield? (.declare declared) = some cell →
      Stands earlier later (.declare declared) cell (declared.written cell later)
  | first {site : NodeId} {declared : Variable} {cell : Cell} :
      (after earlier).staticCell? site = none →
      (after earlier).yield? (.declareStatic site declared) = some cell →
      Stands earlier later (.declareStatic site declared) cell (declared.written cell later)
  | again {before between site declared repeated cell} :
      earlier = before ++ .declareStatic site declared :: between →
      (after before).staticCell? site = none →
      (after before).yield? (.declareStatic site declared) = some cell →
      (after earlier).yield? (.declareStatic site repeated) = some cell →
      Stands earlier later (.declareStatic site repeated) cell
        (declared.written cell (between ++ .declareStatic site repeated :: later))

/-- The scope that is open at a level has a declaration of a name, which stands for a variable. -/
def DeclaredAt (ops : List MemoryOp) (level : Nat) (name : String) (cell : Cell)
    (found : Variable) : Prop :=
  ∃ earlier op later, ops = earlier ++ op :: later ∧ op.name? = some name ∧
    Stands earlier later op cell found ∧ (after earlier).level = level ∧
    ((after earlier).perform op).StaysOpen level later

theorem Stands.yield? (stands : Stands earlier later op cell found) :
    (after earlier).yield? op = some cell := by
  cases stands with
  | plain yielded | first _ yielded | again _ _ _ yielded => exact yielded

theorem exists_stands (named : op.name? = some name)
    (yielded : (after earlier).yield? op = some cell) :
    ∃ found, Stands earlier later op cell found := by
  cases op with
  | openFunction | openBlock | close | write => cases named
  | declare declared => exact ⟨_, .plain yielded⟩
  | declareStatic site declared =>
    cases known : (after earlier).staticCell? site with
    | none => exact ⟨_, .first known yielded⟩
    | some own =>
      obtain ⟨res, next, same, -, out⟩ := (after earlier).perform_declareStatic site declared
      rw [yielded] at same
      cases out with
      | first fresh | lost fresh => cases fresh.symm.trans known
      | taken => cases same
      | again found =>
        cases same
        obtain ⟨before, original, between, split, fresh, made⟩ := exists_of_staticCell? found
        exact ⟨_, .again split fresh made yielded⟩

theorem boundAt_iff_declaredAt :
    (after ops).BoundAt level name cell ↔ ∃ found, DeclaredAt ops level name cell found := by
  rw [boundAt_iff_namedAt]
  constructor
  · rintro ⟨earlier, op, later, split, named, yielded, here, opened⟩
    obtain ⟨found, stands⟩ := exists_stands named yielded
    exact ⟨found, earlier, op, later, split, named, stands, here, opened⟩
  · rintro ⟨found, earlier, op, later, split, named, stands, here, opened⟩
    exact ⟨earlier, op, later, split, named, stands.yield?, here, opened⟩

theorem lives_of_stands (stands : Stands earlier later op cell found)
    (room : ({} : Environment).HasRoom (earlier ++ op :: later))
    (opened : ((after earlier).perform op).StaysOpen (after earlier).level later) :
    ∃ level, (after (earlier ++ op :: later)).Lives level found cell := by
  rw [after_split]
  cases stands with
  | plain yielded =>
    have rest := room.performAll
    have made := (lives_of_declare (Stacked.after earlier) yielded rest.first).1
    exact ⟨_, made.performAll rest.perform opened⟩
  | first fresh yielded =>
    have made := lives_of_declareStatic fresh yielded
    exact ⟨0, made.performAll room.performAll.perform (staysOpen_zero _ _)⟩
  | @again before between site declared repeated cell split fresh yielded =>
    subst split
    rw [← after_split, append_assoc, cons_append] at *
    have made := lives_of_declareStatic fresh yielded
    rw [after_split]
    exact ⟨0, made.performAll room.performAll.perform (staysOpen_zero _ _)⟩

theorem hasRoom_of_newVariables (room : ({} : Environment).newVariables ops < 2 ^ 32) :
    ({} : Environment).HasRoom ops := by
  unfold HasRoom
  rw [show ({} : Environment).nextGeneration.toNat = 0 from rfl, Nat.zero_add]
  exact room

theorem Stands.name_eq {siteName : NodeId → String} (stands : Stands earlier later op cell found)
    (named : op.name? = some name)
    (sites : ∀ site declared, .declareStatic site declared ∈ earlier ++ op :: later →
      declared.name = siteName site) : found.name = name := by
  cases stands with
  | plain | first =>
    cases named
    exact Variable.name_written _ _ _
  | @again before between site declared repeated cell split =>
    cases named
    rw [Variable.name_written, sites site declared (by simp [split]), sites site repeated (by simp)]

theorem Gone.dangling (gone : env.Gone place.cell) (value : Value) :
    env.resolve place.cell = .error .danglingPlace ∧ env.read place = .error .danglingPlace ∧
      env.write place value = .error .danglingPlace := by
  refine ⟨gone.resolve, ?_, ?_⟩
  · rw [read, gone.resolve]
    rfl
  · rw [write, gone.resolve]
    rfl

theorem gone_of_declare (yielded : (after earlier).yield? (.declare declared) = some cell)
    (room : ({} : Environment).HasRoom (earlier ++ .declare declared :: later))
    (closed : ¬ ((after earlier).perform (.declare declared)).StaysOpen (after earlier).level later) :
    (after (earlier ++ .declare declared :: later)).Gone cell := by
  have rest := room.performAll
  obtain ⟨lives, outermost | ⟨index, generation, rfl⟩⟩ :=
    lives_of_declare (Stacked.after earlier) yielded rest.first
  · rw [outermost] at closed
    exact absurd (staysOpen_zero _ _) closed
  · rw [after_split]
    exact LocalLives.performAll_gone lives rest.perform closed

/-- A lookup finds the declaration of the name in the innermost visible scope that has one, and
every declaration in an open scope leads to its own variable. The cell of a declaration leads to
its variable until its scope closes, and to nothing at all from then on. -/
theorem cells_live_with_scopes (siteName : NodeId → String) (ops : List MemoryOp)
    (sites : ∀ site declared, .declareStatic site declared ∈ ops → declared.name = siteName site)
    (few : ({} : Environment).newVariables ops < 2 ^ 32) :
    (∀ name cell, (after ops).lookup? name = some cell ↔
      ∃ level found, (after ops).Visible level ∧ DeclaredAt ops level name cell found ∧
        ∀ higher, level < higher → (after ops).Visible higher →
          ∀ other hidden, ¬ DeclaredAt ops higher name other hidden) ∧
    (∀ level name cell found, DeclaredAt ops level name cell found →
      (after ops).resolve cell = .ok found ∧ found.name = name) ∧
    ∀ earlier declared later cell, ops = earlier ++ .declare declared :: later →
      (after earlier).yield? (.declare declared) = some cell →
      (((after earlier).perform (.declare declared)).StaysOpen (after earlier).level later →
        (after ops).resolve cell = .ok (declared.written cell later)) ∧
      (¬ ((after earlier).perform (.declare declared)).StaysOpen (after earlier).level later →
        ∀ place value, place.cell = cell →
          (after ops).resolve place.cell = .error .danglingPlace ∧
          (after ops).read place = .error .danglingPlace ∧
          (after ops).write place value = .error .danglingPlace) := by
  have room := hasRoom_of_newVariables few
  refine ⟨?_, ?_, ?_⟩
  · intro name cell
    rw [lookup?_eq_some_iff]
    constructor
    · rintro ⟨level, selects⟩
      obtain ⟨found, declared⟩ := boundAt_iff_declaredAt.mp selects.bound
      refine ⟨level, found, selects.visible, declared, ?_⟩
      intro higher above visible other hidden inside
      exact selects.innermost higher above visible other (boundAt_iff_declaredAt.mpr ⟨hidden, inside⟩)
    · rintro ⟨level, found, visible, declared, innermost⟩
      refine ⟨level, visible, boundAt_iff_declaredAt.mpr ⟨found, declared⟩, ?_⟩
      intro higher above visible other inside
      obtain ⟨hidden, declared⟩ := boundAt_iff_declaredAt.mp inside
      exact innermost higher above visible other hidden declared
  · rintro level name cell found ⟨earlier, op, later, rfl, named, stands, rfl, opened⟩
    obtain ⟨level, lives⟩ := lives_of_stands stands room opened
    exact ⟨resolve_eq_ok_iff.mpr lives.resolve?, stands.name_eq named sites⟩
  · rintro earlier declared later cell rfl yielded
    constructor
    · intro opened
      obtain ⟨level, lives⟩ := lives_of_stands (.plain yielded) room opened
      exact resolve_eq_ok_iff.mpr lives.resolve?
    · rintro closed place value rfl
      exact (gone_of_declare yielded room closed).dangling value

def intVariable (name : String) (value : Int32) : Variable :=
  { name, type := .of .int, value := .int value }

/-- Two calls of a function with a local and a static variable. The local of the second call gets
the slot that the first call has given up, and the static variable is bound again. -/
def twoCalls : List MemoryOp :=
  [.openFunction, .declare (intVariable "local" 5), .declareStatic 9 (intVariable "calls" 0),
    .write ⟨.global 0, []⟩ (.int 1), .close,
    .openFunction, .declare (intVariable "local" 6), .declareStatic 9 (intVariable "calls" 0)]

theorem twoCalls_cells :
    (∀ site declared, .declareStatic site declared ∈ twoCalls → declared.name = "calls") ∧
    ({} : Environment).newVariables twoCalls = 3 ∧
    (∃ level found, DeclaredAt twoCalls level "local" (.frame 0 1) found) ∧
    (after twoCalls).resolve (.global 0) = .ok (intVariable "calls" 1) ∧
    (after twoCalls).resolve (.frame 0 1) = .ok (intVariable "local" 6) ∧
    (after twoCalls).write ⟨.frame 0 0, []⟩ (.int 7) = .error .danglingPlace := by
  have sites : ∀ site declared, .declareStatic site declared ∈ twoCalls →
      declared.name = "calls" := by
    intro site declared among
    simp only [twoCalls, mem_cons, MemoryOp.declareStatic.injEq, reduceCtorEq, false_or,
      or_false, not_mem_nil] at among
    rcases among with ⟨-, rfl⟩ | ⟨-, rfl⟩ <;> rfl
  have count : ({} : Environment).newVariables twoCalls = 3 := by decide
  obtain ⟨lookups, declarations, expiry⟩ :=
    cells_live_with_scopes (fun _ => "calls") twoCalls sites (by rw [count]; decide)
  refine ⟨sites, count, ?_, ?_, ?_, ?_⟩
  · obtain ⟨level, found, -, declared, -⟩ := (lookups "local" (.frame 0 1)).mp rfl
    exact ⟨level, found, declared⟩
  · have again := @Stands.again (twoCalls.take 7) [] (twoCalls.take 2)
      ((twoCalls.drop 3).take 4) 9 (intVariable "calls" 0) (intVariable "calls" 0) (.global 0)
      rfl rfl rfl rfl
    refine (declarations 1 "calls" _ _ ⟨_, _, [], rfl, rfl, again, rfl, ?_⟩).1
    exact staysOpen_nil.mpr (by decide)
  · refine (expiry (twoCalls.take 6) _ (twoCalls.drop 7) _ rfl rfl).1 ?_
    simp only [twoCalls, List.drop, staysOpen_cons, staysOpen_nil]
    decide
  · refine ((expiry (twoCalls.take 1) _ (twoCalls.drop 2) _ rfl rfl).2 ?_ ⟨_, []⟩ _ rfl).2.2
    simp only [twoCalls, List.drop, staysOpen_cons, staysOpen_nil]
    decide

end Environment

end Breadboard
