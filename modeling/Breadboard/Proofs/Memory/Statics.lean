import Breadboard.Proofs.Machine.Declaration
import Mathlib.Data.List.Nodup

/-!
The cells of static variables. The table of sites grows by one entry when a site is declared for
the first time, and its cell is then the newest global. So sites and cells stand one to one, and
since globals are never given up, what is in the table stays there.
-/

open List

namespace Breadboard.Environment

open Environment

variable {env next : Environment} {decl : Variable} {cell : Cell} {site : NodeId}

/-- Each site has one cell, each cell one site, and the cells are globals that are there. -/
structure Sited (env : Environment) : Prop where
  owned : ∀ site cell, (site, cell) ∈ env.statics → ∃ index < env.globals.size, cell = .global index
  sites : (env.statics.map Prod.fst).Nodup
  cells : (env.statics.map Prod.snd).Nodup

inductive SiteMove (env next : Environment) : Prop where
  | kept : next.statics = env.statics → env.globals.size ≤ next.globals.size → SiteMove env next
  | entered (site : NodeId) : env.staticCell? site = none →
      next.statics = (site, .global env.globals.size) :: env.statics →
      next.globals.size = env.globals.size + 1 → SiteMove env next

theorem siteMove_popScope (env : Environment) : SiteMove env env.popScope := by
  rcases env.popScope_cases with ⟨-, same⟩ | ⟨scopes, floor, -, -, closed⟩
  · rw [same]
    exact .kept rfl (Nat.le_refl _)
  · rw [closed]
    exact .kept rfl (Nat.le_refl _)

theorem siteMove_perform (env : Environment) (op : MemoryOp) : SiteMove env (env.perform op) := by
  refine perform_induction (SiteMove env) op (.kept rfl (Nat.le_refl _))
    (fun _ _ => .kept rfl (Nat.le_refl _)) (fun _ => env.siteMove_popScope)
    (fun name cell move => ?_) (fun _ => .kept rfl (by simp [allocateGlobal]))
    (fun _ _ => .kept rfl (Nat.le_refl _)) (fun site _ _ fresh _ grown _ => ?_) ?_
  · cases move with
    | kept same grows => exact .kept (by rw [statics_addBinding, same]) (by simpa using grows)
    | entered site fresh same grows =>
      exact .entered site fresh (by rw [statics_addBinding, same]) (by simpa using grows)
  · exact .entered site fresh rfl (by rw [grown, Array.size_push])
  · intro place value held new _ _
    cases place.cell with
    | «global» => exact .kept rfl (by simp [setValue])
    | frame => exact .kept rfl (Nat.le_refl _)

theorem SiteMove.staticCell? (move : SiteMove env next)
    (known : env.staticCell? site = some cell) : next.staticCell? site = some cell := by
  cases move with
  | kept same => rwa [Environment.staticCell?, same]
  | entered other fresh statics =>
    have apart : site ≠ other := by
      rintro rfl
      cases fresh.symm.trans known
    have different : (site == other) = false := by simpa using apart
    rw [Environment.staticCell?, statics, lookup_cons, different]
    exact known

namespace Sited

theorem move (sited : env.Sited) (move : SiteMove env next) : next.Sited := by
  cases move with
  | kept same grows =>
    refine ⟨?_, same ▸ sited.sites, same ▸ sited.cells⟩
    intro site cell among
    obtain ⟨index, inside, rfl⟩ := sited.owned site cell (same ▸ among)
    exact ⟨index, Nat.lt_of_lt_of_le inside grows, rfl⟩
  | entered site fresh statics grows =>
    refine ⟨?_, ?_, ?_⟩
    · intro other cell among
      rw [statics, mem_cons] at among
      rcases among with new | older
      · cases new
        exact ⟨env.globals.size, by omega, rfl⟩
      · obtain ⟨index, inside, rfl⟩ := sited.owned other cell older
        exact ⟨index, by omega, rfl⟩
    · rw [statics, map_cons, nodup_cons]
      refine ⟨?_, sited.sites⟩
      intro among
      obtain ⟨⟨other, cell⟩, inside, rfl⟩ := mem_map.mp among
      have missing := lookup_eq_none_iff.mp fresh (other, cell) inside
      simp at missing
    · rw [statics, map_cons, nodup_cons]
      refine ⟨?_, sited.cells⟩
      intro among
      obtain ⟨⟨other, cell⟩, inside, same⟩ := mem_map.mp among
      obtain ⟨index, below, made⟩ := sited.owned other cell inside
      cases made.symm.trans same
      exact Nat.lt_irrefl _ below

theorem mem_of_staticCell? (known : env.staticCell? site = some cell) :
    (site, cell) ∈ env.statics := by
  obtain ⟨before, after, split, -⟩ := lookup_eq_some_iff.mp known
  simp [split]

theorem resolve? (sited : env.Sited) (known : env.staticCell? site = some cell) :
    ∃ held, env.resolve? cell = some held := by
  obtain ⟨index, inside, rfl⟩ := sited.owned site cell (mem_of_staticCell? known)
  exact ⟨env.globals[index], Array.getElem?_eq_getElem inside⟩

end Sited

/-! Names that have just been given. -/

variable (env)

theorem lookup?_addBinding (name : String) (cell : Cell) :
    (env.addBinding name cell).lookup? name = some cell := by
  cases opened : env.scopes with
  | nil | cons => simp [addBinding, lookup?, opened, lookupScopes]

theorem resolve?_addBinding (name : String) (cell other : Cell) :
    (env.addBinding name cell).resolve? other = env.resolve? other := by
  cases other <;> simp [resolve?]

theorem introduce_allocateGlobal (decl : Variable) (name : String) :
    let cell := Cell.global env.globals.size
    let next := (env.allocateGlobal decl).2.addBinding name cell
    env.resolve? cell = none ∧ next.lookup? name = some cell ∧ next.resolve? cell = some decl := by
  refine ⟨?_, lookup?_addBinding .., ?_⟩
  · exact Array.getElem?_eq_none (Nat.le_refl _)
  · rw [resolve?_addBinding]
    exact Array.getElem?_push_size

theorem introduce_allocateLocal (decl : Variable) (name : String) :
    let cell := Cell.frame env.locals.size env.nextGeneration
    let next := (env.allocateLocal decl).2.addBinding name cell
    env.resolve? cell = none ∧ next.lookup? name = some cell ∧ next.resolve? cell = some decl := by
  refine ⟨?_, lookup?_addBinding .., ?_⟩
  · simp [resolve?]
  · rw [resolve?_addBinding]
    simp [resolve?, allocateLocal]

variable {env}

/-- A declaration of a name that is free makes a variable in a cell that was dead. -/
theorem introduce_free (decl : Variable) (free : env.bindings.lookup decl.name = none)
    (unknown : decl.isStatic = true → env.staticCell? site = none) :
    ∃ cell next, env.introduce site decl = (.ok cell, next) ∧ env.resolve? cell = none ∧
      next.lookup? decl.name = some cell ∧ next.resolve? cell = some decl ∧
      (decl.isStatic = true → next.staticCell? site = some cell) := by
  unfold introduce
  split
  · rename_i static
    obtain ⟨dead, named, held⟩ := env.introduce_allocateGlobal decl decl.name
    refine ⟨.global env.globals.size,
      { (env.allocateGlobal decl).2.addBinding decl.name (.global env.globals.size) with
        statics := (site, .global env.globals.size) :: env.statics },
      ?_, dead, named, held, fun _ => lookup_cons_self⟩
    have same : (env.allocateGlobal decl).2.bindings = env.bindings := rfl
    simp only [declareStatic, unknown static, bind, same, free, statics_addBinding]
    rfl
  · rename_i plain
    cases outermost : env.isGlobal with
    | true =>
      obtain ⟨dead, named, held⟩ := env.introduce_allocateGlobal decl decl.name
      refine ⟨_, _, ?_, dead, named, held, fun static => absurd static plain⟩
      simp only [declare, free, outermost, if_true]
      rfl
    | false =>
      obtain ⟨dead, named, held⟩ := env.introduce_allocateLocal decl decl.name
      refine ⟨_, _, ?_, dead, named, held, fun static => absurd static plain⟩
      simp only [declare, free, outermost, Bool.false_eq_true, if_false]
      rfl

theorem introduce_taken (decl : Variable) (taken : env.bindings.lookup decl.name = some other)
    (unknown : decl.isStatic = true → env.staticCell? site = none) :
    ∃ next, env.introduce site decl = (.error (.duplicateDeclaration decl.name), next) ∧
      (decl.isStatic = false → next = env) := by
  unfold introduce
  split
  · rename_i static
    have same : (env.allocateGlobal decl).2.bindings = env.bindings := rfl
    refine ⟨(env.allocateGlobal decl).2, ?_, fun plain => ?_⟩
    · simp only [declareStatic, unknown static, bind, same, taken]
    · cases plain.symm.trans static
  · exact ⟨env, by simp only [declare, taken], fun _ => rfl⟩

end Breadboard.Environment
