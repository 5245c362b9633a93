import Breadboard.Proofs.Memory.Lifetime
import Breadboard.Proofs.Memory.Pointers

/-!
Memory that keeps within bounds. From `outer`, some values are handed on. What is done from
then on may use the globals, the locals made since, and the locals to which pointers lead from
the values and from the globals. As long as names and pointers lead to nothing else, nothing
else is changed, and neither new names nor new pointers lead out of the bounds.
-/

namespace Breadboard.Environment

open Environment

variable {env next outer : Environment} {decl found : Variable} {cell : Cell}

/-! What operations do to variables. -/

theorem perform_of_declare (out : env.declare decl = .ok (cell, next)) :
    env.perform (.declare decl) = next := by
  simp only [perform, out]

theorem perform_of_write
    (out : env.write place value = .ok next) : env.perform (.write place value) = next := by
  simp only [perform, out]

/-- A static variable that gets its name back is declared once more, whatever its value. -/
theorem perform_of_rebind (known : env.staticCell? site = some cell)
    (bound : env.bind name cell = .ok next) :
    env.perform (.declareStatic site { name, type := .of .void, value := .void }) = next := by
  simp only [perform, declareStatic, known, bound]

theorem yield?_declare (yielded : env.yield? (.declare decl) = some cell) :
    cell = .global env.globals.size ∨
      env.isGlobal = false ∧ cell = .frame env.locals.size env.nextGeneration := by
  rcases env.perform_declare decl with ⟨failed, -⟩ |
    ⟨made, allocated, done, -, -, ⟨-, allocation⟩ | ⟨inner, allocation⟩⟩
  · cases failed.symm.trans yielded
  · cases done.symm.trans yielded
    cases allocation
    exact .inl rfl
  · cases done.symm.trans yielded
    cases allocation
    exact .inr ⟨inner, rfl⟩

theorem yield?_declareStatic (yielded : env.yield? (.declareStatic site decl) = some cell) :
    env.staticCell? site = some cell ∨ cell = .global env.globals.size := by
  obtain ⟨res, next, same, -, out⟩ := env.perform_declareStatic site decl
  rw [yielded] at same
  cases out with
  | again known =>
    cases same
    exact .inl known
  | first =>
    cases same
    exact .inr rfl
  | taken | lost => cases same

structure Gains (env : Environment) (decl : Variable) (next : Environment) : Prop where
  globals : next.globals = env.globals ∨ next.globals = env.globals.push decl
  locals : next.locals = env.locals ∨ ∃ stamp, next.locals = env.locals.push ⟨stamp, decl⟩

theorem gains_declare (env : Environment) (decl : Variable) :
    env.Gains decl (env.perform (.declare decl)) := by
  rcases env.perform_declare decl with ⟨-, same⟩ |
    ⟨made, allocated, -, bound, -, ⟨-, done⟩ | ⟨-, done⟩⟩
  · rw [same]
    exact ⟨.inl rfl, .inl rfl⟩
  · cases done
    rw [bound]
    exact ⟨.inr (globals_addBinding _ _ _), .inl (locals_addBinding _ _ _)⟩
  · cases done
    rw [bound]
    exact ⟨.inl (globals_addBinding _ _ _), .inr ⟨_, locals_addBinding _ _ _⟩⟩

theorem gains_declareStatic (env : Environment) (site : NodeId) (decl : Variable) :
    env.Gains decl (env.perform (.declareStatic site decl)) := by
  obtain ⟨res, next, -, made, out⟩ := env.perform_declareStatic site decl
  rw [made]
  cases out with
  | again => exact ⟨.inl (globals_addBinding _ _ _), .inl (locals_addBinding _ _ _)⟩
  | first => exact ⟨.inr (globals_addBinding _ _ _), .inl (locals_addBinding _ _ _)⟩
  | taken => exact ⟨.inl rfl, .inl rfl⟩
  | lost => exact ⟨.inr rfl, .inl rfl⟩

namespace Gains

theorem size_le (gains : env.Gains decl next) : env.locals.size ≤ next.locals.size := by
  rcases gains.locals with same | ⟨stamp, pushed⟩
  · exact Nat.le_of_eq (congrArg Array.size same.symm)
  · rw [pushed, Array.size_push]
    exact Nat.le_succ _

theorem resolve?_frame (gains : env.Gains decl next) (inside : index < env.locals.size)
    (generation : UInt32) :
    next.resolve? (.frame index generation) = env.resolve? (.frame index generation) := by
  have same : next.locals[index]? = env.locals[index]? := by
    rcases gains.locals with same | ⟨stamp, pushed⟩
    · rw [same]
    · rw [pushed, Array.getElem?_push_lt inside, Array.getElem?_eq_getElem inside]
  simp only [resolve?, same]

/-- What a cell leads to was there before or has just been declared. -/
theorem resolve? (gains : env.Gains decl next) (resolved : next.resolve? cell = some found) :
    env.resolve? cell = some found ∨ found = decl := by
  cases cell with
  | «global» index =>
    simp only [resolve?] at resolved ⊢
    rcases gains.globals with same | pushed
    · rw [same] at resolved
      exact .inl resolved
    · rw [pushed, Array.getElem?_push] at resolved
      split at resolved
      · cases resolved
        exact .inr rfl
      · exact .inl resolved
  | frame index generation =>
    rcases gains.locals with same | ⟨stamp, pushed⟩
    · simp only [resolve?, same] at resolved ⊢
      exact .inl resolved
    · by_cases last : index = env.locals.size
      · simp [resolve?, pushed, last] at resolved
        exact .inr resolved.2.symm
      · simp only [resolve?, pushed, Array.getElem?_push, if_neg last] at resolved ⊢
        exact .inl resolved

end Gains

theorem resolve?_setValue (resolved : env.resolve? target = some found) (value : Value) :
    (env.setValue target value).resolve? cell =
      if cell = target then some { found with value } else env.resolve? cell := by
  cases target with
  | «global» index =>
    have held : env.globals[index]? = some found := resolved
    cases cell with
    | frame => simp [setValue, resolve?]
    | «global» other =>
      simp only [setValue, resolve?, Array.getElem?_modify, Cell.global.injEq]
      split
      · rename_i same
        subst same
        simp [held]
      · rename_i apart
        rw [if_neg (Ne.symm apart)]
  | frame index generation =>
    obtain ⟨slot, held, stamp, rfl⟩ : ∃ slot, env.locals[index]? = some slot ∧
        slot.generation = generation ∧ slot.declared = found := by
      simp only [resolve?] at resolved
      split at resolved
      · rename_i slot held
        split at resolved
        · exact ⟨slot, held, ‹_›, Option.some.inj resolved⟩
        · cases resolved
      · cases resolved
    cases cell with
    | «global» => simp [setValue, resolve?]
    | frame other stamp' =>
      by_cases same : index = other
      · subst same
        by_cases stamped : stamp' = generation
        · subst stamped
          simp [setValue, resolve?, Array.getElem?_modify, held, stamp]
        · have different : slot.generation ≠ stamp' := by
            rw [stamp]
            exact Ne.symm stamped
          simp [setValue, resolve?, Array.getElem?_modify, held, different, stamped]
      · simp [setValue, resolve?, Array.getElem?_modify, same, Ne.symm same]

theorem resolve?_popScope (resolved : env.popScope.resolve? cell = some found) :
    env.resolve? cell = some found := by
  rcases env.popScope_cases with ⟨-, same⟩ | ⟨scopes, floor, -, -, closed⟩
  · rwa [same] at resolved
  · rw [closed] at resolved
    cases cell with
    | «global» index => exact resolved
    | frame index generation =>
      simp only [resolve?, getElem?_take] at resolved ⊢
      split at resolved
      · rename_i held
        split at held
        · rwa [held]
        · cases held
      · cases resolved

theorem resolve?_popScope_frame (inside : index < env.popScope.locals.size) (generation : UInt32) :
    env.popScope.resolve? (.frame index generation) = env.resolve? (.frame index generation) := by
  rcases env.popScope_cases with ⟨-, same⟩ | ⟨scopes, floor, -, -, closed⟩
  · rw [same]
  · rw [closed] at inside ⊢
    have kept : index < floor := by
      simp only [Array.take, Array.size_extract] at inside
      omega
    simp only [resolve?, getElem?_take, if_pos kept]

theorem size_popScope (env : Environment) : env.popScope.locals.size ≤ env.locals.size := by
  rcases env.popScope_cases with ⟨-, same⟩ | ⟨_, _, -, -, closed⟩
  · exact Nat.le_of_eq (congrArg (fun env => env.locals.size) same)
  · rw [closed]
    simp only [Array.take, Array.size_extract]
    omega

/-! Names and the cells that they lead to. -/

/-- The names of some scopes, and static variables, have allowed cells. -/
structure NamesOnly (env : Environment) (levels : Nat → Prop) (allowed : Cell → Prop) : Prop where
  bound : ∀ level name cell, levels level → env.BoundAt level name cell → allowed cell
  statics : ∀ site cell, env.staticCell? site = some cell → allowed cell

namespace NamesOnly

variable {levels : Nat → Prop} {allowed : Cell → Prop}

theorem perform (names : env.NamesOnly levels allowed) (op : MemoryOp)
    (globals : ∀ index, allowed (.global index))
    (fresh : ∀ decl, op = .declare decl → levels env.level → env.isGlobal = false →
      allowed (.frame env.locals.size env.nextGeneration)) :
    (env.perform op).NamesOnly levels allowed := by
  have static {site : NodeId} {decl : Variable} {cell : Cell}
      (yielded : env.yield? (.declareStatic site decl) = some cell) : allowed cell := by
    rcases yield?_declareStatic yielded with known | rfl
    · exact names.statics site cell known
    · exact globals _
  constructor
  · intro level name cell among bound
    rcases boundAt_perform.mp bound with ⟨before, -⟩ | ⟨named, yielded, rfl⟩
    · exact names.bound level name cell among before
    · cases op with
      | declare decl =>
        rcases yield?_declare yielded with rfl | ⟨inner, rfl⟩
        · exact globals _
        · exact fresh decl rfl among inner
      | declareStatic site decl => exact static yielded
      | openFunction | openBlock | close | write => cases named
  · intro site cell known
    rcases perform_staticCell? known with before | ⟨-, decl, rfl, yielded⟩
    · exact names.statics site cell before
    · exact static yielded

theorem pushScope (names : env.NamesOnly levels allowed) (kind : ScopeKind) :
    (env.pushScope kind).NamesOnly levels allowed :=
  ⟨fun level name cell among bound =>
    names.bound level name cell among (boundAt_pushScope.mp bound), names.statics⟩

end NamesOnly

def Anchored (env : Environment) : Prop :=
  env.NamesOnly (· = 0) fun cell => ∃ index, cell = .global index

theorem Anchored.perform (anchored : env.Anchored) (op : MemoryOp) : (env.perform op).Anchored := by
  refine NamesOnly.perform anchored op (fun index => ⟨index, rfl⟩) ?_
  intro decl _ outermost inner
  have closed : env.scopes = [] := List.length_eq_zero_iff.mp outermost
  simp [isGlobal, closed] at inner

/-! Bounds. -/

/-- The cells to which pointers lead from some values and from the globals, and on from there. -/
inductive Reachable (env : Environment) (given : List Value) : Cell → Prop where
  | given {value cell} : value ∈ given → value.PointsTo cell → Reachable env given cell
  | global {index : Nat} {held : Variable} {cell : Cell} :
      env.globals[index]? = some held → held.value.PointsTo cell →
      Reachable env given cell
  | onward {cell next held} : Reachable env given cell →
      env.resolve? cell = some held → held.value.PointsTo next → Reachable env given next

def Encloses (env : Environment) (given : List Value) (cells : List Cell) : Prop :=
  (∀ value ∈ given, ∀ cell ∈ value.cells, cell ∈ cells) ∧
  (∀ held ∈ env.globals, ∀ cell ∈ held.value.cells, cell ∈ cells) ∧
  ∀ cell ∈ cells, ∀ held ∈ env.resolve? cell, ∀ next ∈ held.value.cells, next ∈ cells

instance (env : Environment) (given : List Value) (cells : List Cell) :
    Decidable (env.Encloses given cells) :=
  inferInstanceAs (Decidable (_ ∧ _ ∧ _))

theorem Reachable.mem_of_encloses {given : List Value} (encloses : env.Encloses given cells)
    (reachable : env.Reachable given cell) : cell ∈ cells := by
  obtain ⟨handed, globals, closed⟩ := encloses
  induction reachable with
  | given among points => exact handed _ among _ points.mem_cells
  | «global» held points => exact globals _ (Array.mem_of_getElem? held) _ points.mem_cells
  | onward _ resolved points ih =>
    exact closed _ ih _ resolved _ points.mem_cells

def Grants (outer : Environment) (given : List Value) : Cell → Prop
  | .global _ => True
  | .frame index generation =>
    outer.locals.size ≤ index ∨ outer.Reachable given (.frame index generation)

theorem Reachable.grants {given : List Value} (reachable : outer.Reachable given cell) :
    outer.Grants given cell := by
  cases cell with
  | «global» => trivial
  | frame => exact .inr reachable

/-- Memory keeps within the bounds of `outer`. Unless scopes are closing, the locals of `outer`
are all there. -/
structure Confined (outer : Environment) (given : List Value) (closing : Bool)
    (env : Environment) : Prop where
  held : ∀ cell found, outer.Grants given cell → env.resolve? cell = some found →
    found.value.Within (outer.Grants given)
  names : env.NamesOnly (fun level => level = 0 ∨ outer.level < level) (outer.Grants given)
  kept : ∀ index generation, index < env.locals.size →
    ¬ outer.Grants given (.frame index generation) →
    env.resolve? (.frame index generation) = outer.resolve? (.frame index generation)
  roomy : closing = false → outer.locals.size ≤ env.locals.size

namespace Confined

variable {given : List Value} {closing : Bool} {value : Value} {place : Place}

/-- At the start, all that the globals and the values lead to is granted. -/
theorem start (anchored : outer.Anchored) (given : List Value) :
    outer.Confined given closing outer where
  held := by
    intro cell found granted resolved other points
    cases cell with
    | «global» index => exact (Reachable.global resolved points).grants
    | frame index generation =>
      rcases granted with above | reachable
      · simp [resolve?, Array.getElem?_eq_none above] at resolved
      · exact (reachable.onward resolved points).grants
  names := by
    refine ⟨?_, ?_⟩
    · rintro level name cell (rfl | above) bound
      · obtain ⟨index, rfl⟩ := anchored.bound 0 name cell rfl bound
        trivial
      · exact absurd bound.level_le (Nat.not_le_of_lt above)
    · intro site cell known
      obtain ⟨index, rfl⟩ := anchored.statics site cell known
      trivial
  kept _ _ _ _ := rfl
  roomy _ := Nat.le_refl _

theorem popScope (confined : outer.Confined given true env) :
    outer.Confined given true env.popScope where
  held cell found granted resolved := confined.held cell found granted (resolve?_popScope resolved)
  names := confined.names.perform .close (fun _ => trivial) nofun
  kept index generation inside excluded := by
    rw [resolve?_popScope_frame inside]
    exact confined.kept index generation (Nat.lt_of_lt_of_le inside env.size_popScope) excluded
  roomy := nofun

section

variable (confined : outer.Confined given closing env)
include confined

/-- Closing is over, and the locals of `outer` are all there. -/
theorem restore (roomy : outer.locals.size ≤ env.locals.size) : outer.Confined given false env :=
  ⟨confined.held, confined.names, confined.kept, fun _ => roomy⟩

theorem read (granted : outer.Grants given place.cell) (out : env.read place = .ok value) :
    value.Within (outer.Grants given) := by
  obtain ⟨found, resolved, out⟩ := bind_eq_ok.mp out
  exact (confined.held _ found granted (resolve_eq_ok_iff.mp resolved)).read out

theorem pushScope (kind : ScopeKind) : outer.Confined given closing (env.pushScope kind) :=
  ⟨confined.held, confined.names.pushScope kind, confined.kept, confined.roomy⟩

/-- A granted cell is written, and the value points to nothing but granted cells. -/
theorem write (granted : outer.Grants given place.cell)
    (within : value.Within (outer.Grants given)) :
    outer.Confined given closing (env.perform (.write place value)) := by
  have names := confined.names.perform (.write place value) (fun _ => trivial) nofun
  simp only [perform] at names ⊢
  split at names
  · rename_i next out
    obtain ⟨held, resolved, out⟩ := bind_eq_ok.mp out
    obtain ⟨written, made, out⟩ := bind_eq_ok.mp out
    cases out
    have resolved := resolve_eq_ok_iff.mp resolved
    have size : (env.setValue place.cell written).locals.size = env.locals.size := by
      cases place.cell <;> simp [setValue]
    refine ⟨?_, names, ?_, ?_⟩
    · intro cell found allowed after
      rw [resolve?_setValue resolved] at after
      split at after
      · cases after
        exact (confined.held _ held granted resolved).write within made
      · exact confined.held cell found allowed after
    · intro index generation inside excluded
      have apart : Cell.frame index generation ≠ place.cell := by
        intro same
        exact excluded (same ▸ granted)
      rw [resolve?_setValue resolved, if_neg apart]
      exact confined.kept index generation (size ▸ inside) excluded
    · rw [size]
      exact confined.roomy
  · exact confined

/-- Inside a function, all names that can be seen lead to granted cells. -/
theorem lookup? (above : outer.level < fn) (inside : env.kinds[fn]? = some .function)
    (found : env.lookup? name = some cell) : outer.Grants given cell := by
  obtain ⟨level, selects⟩ := lookup?_eq_some_iff.mp found
  refine confined.names.bound level name cell ?_ selects.bound
  rcases selects.visible with outermost | ⟨-, clear⟩
  · exact .inl outermost
  · refine .inr (Nat.lt_of_lt_of_le above (Nat.le_of_not_lt fun below => ?_))
    exact clear fn below inside

end

variable (confined : outer.Confined given false env)
include confined

theorem weaken : outer.Confined given closing env :=
  ⟨confined.held, confined.names, confined.kept, fun _ => confined.roomy rfl⟩

theorem spared (live : outer.resolve? (.frame index generation) = some found)
    (unreachable : ¬ outer.Reachable given (.frame index generation)) :
    env.resolve? (.frame index generation) = some found := by
  have older : index < outer.locals.size := by
    by_contra above
    simp [resolve?, Array.getElem?_eq_none (Nat.le_of_not_lt above)] at live
  rw [← live]
  refine confined.kept index generation (Nat.lt_of_lt_of_le older (confined.roomy rfl)) ?_
  rintro (above | reachable)
  · exact absurd older (Nat.not_lt_of_le above)
  · exact unreachable reachable

/-- A variable is declared, and its value points to nothing but granted cells. -/
theorem gains (gains : env.Gains decl next) (within : decl.value.Within (outer.Grants given))
    (names : next.NamesOnly (fun level => level = 0 ∨ outer.level < level) (outer.Grants given)) :
    outer.Confined given false next where
  held := by
    intro cell found granted resolved
    rcases gains.resolve? resolved with before | rfl
    · exact confined.held cell found granted before
    · exact within
  names := names
  kept := by
    intro index generation _ excluded
    have older : index < env.locals.size := by
      refine Nat.lt_of_lt_of_le ?_ (confined.roomy rfl)
      exact Nat.lt_of_not_le fun above => excluded (.inl above)
    rw [gains.resolve?_frame older]
    exact confined.kept index generation older excluded
  roomy _ := Nat.le_trans (confined.roomy rfl) gains.size_le

theorem declare (within : decl.value.Within (outer.Grants given)) :
    outer.Confined given false (env.perform (.declare decl)) := by
  refine confined.gains (env.gains_declare decl) within ?_
  exact confined.names.perform _ (fun _ => trivial) fun _ _ _ _ => .inl (confined.roomy rfl)

theorem declareStatic (site : NodeId) (within : decl.value.Within (outer.Grants given)) :
    outer.Confined given false (env.perform (.declareStatic site decl)) := by
  refine confined.gains (env.gains_declareStatic site decl) within ?_
  exact confined.names.perform _ (fun _ => trivial) nofun

end Confined

end Breadboard.Environment
