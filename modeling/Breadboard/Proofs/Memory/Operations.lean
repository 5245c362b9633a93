import Breadboard.Proofs.Machine.Answer
import Mathlib.Data.List.Induction

/-!
Memory under operations in any order: scopes open and close, variables are declared, and values
are written. Scopes are numbered from the outermost one, level 0, so that the number of a scope
stays as long as it is open. What a name is bound to at a level is what the history of the
operations says: the cell of the declaration of that name in the scope that is open there.
-/

open List

namespace Breadboard

/-- What can be done to memory. The outermost scope is the only global one. -/
inductive MemoryOp where
  | openFunction
  | openBlock
  | close
  | declare (decl : Variable)
  | declareStatic (site : NodeId) (decl : Variable)
  | write (place : Place) (value : Value)

def MemoryOp.name? : MemoryOp → Option String
  | .declare decl | .declareStatic _ decl => some decl.name
  | _ => none

namespace Environment

variable {name : String} {op : MemoryOp} {ops : List MemoryOp}

/-- What an operation leaves, whether it succeeds or not. -/
def perform (env : Environment) : MemoryOp → Environment
  | .openFunction => env.pushScope .function
  | .openBlock => env.pushScope .block
  | .close => env.popScope
  | .declare decl =>
    match env.declare decl with
    | .ok (_, next) => next
    | .error _ => env
  | .declareStatic site decl => (env.declareStatic site decl).2
  | .write place value =>
    match env.write place value with
    | .ok next => next
    | .error _ => env

def performAll (env : Environment) (ops : List MemoryOp) : Environment := ops.foldl perform env

/-- Memory after operations from the start. -/
def after (ops : List MemoryOp) : Environment := ({} : Environment).performAll ops

def yield? (env : Environment) : MemoryOp → Option Cell
  | .declare decl => (env.declare decl).toOption.map Prod.fst
  | .declareStatic site decl => (env.declareStatic site decl).1.toOption
  | _ => none

theorem performAll_append (env : Environment) (first second : List MemoryOp) :
    env.performAll (first ++ second) = (env.performAll first).performAll second :=
  foldl_append

theorem after_split (earlier : List MemoryOp) (op : MemoryOp) (later : List MemoryOp) :
    after (earlier ++ op :: later) = ((after earlier).perform op).performAll later := by
  rw [after, performAll_append]
  rfl

theorem after_concat (ops : List MemoryOp) (op : MemoryOp) :
    after (ops ++ [op]) = (after ops).perform op := after_split ops op []

/-! Levels. -/

def level (env : Environment) : Nat := env.scopes.length

/-- One thing about each scope, from the outermost on. -/
def outward {α : Type} (env : Environment) (outermost : α) (view : Scope → α) : List α :=
  outermost :: (env.scopes.map view).reverse

def levels (env : Environment) : List Bindings := env.outward env.base Scope.bindings

def kinds (env : Environment) : List ScopeKind := env.outward .global Scope.kind

def floors (env : Environment) : List Nat := env.outward 0 Scope.localsBase

section Outward

variable {α : Type} (env : Environment) (outermost : α) (view : Scope → α)

@[simp] theorem length_outward : (env.outward outermost view).length = env.level + 1 := by
  simp [outward, level]

theorem outward_pushScope (kind : ScopeKind) : (env.pushScope kind).outward outermost view =
      env.outward outermost view ++ [view { kind, localsBase := env.locals.size }] := by
  simp [outward, pushScope]

theorem outward_popScope : env.popScope.outward outermost view =
      (env.outward outermost view).take (env.popScope.level + 1) := by
  unfold popScope outward level
  split <;> simp_all

theorem outward_addBinding (name : String) (cell : Cell)
    (blind : ∀ scope bindings, view { scope with bindings } = view scope) :
    (env.addBinding name cell).outward outermost view = env.outward outermost view := by
  unfold addBinding outward
  split <;> simp_all

end Outward

section Primitives

variable (env : Environment) (name : String) (cell : Cell)

@[simp] theorem level_pushScope (kind : ScopeKind) :
    (env.pushScope kind).level = env.level + 1 := by
  simp [level, pushScope]

@[simp] theorem base_popScope : env.popScope.base = env.base := by
  unfold popScope
  split <;> rfl

/-- Closing a scope gives up its locals. The outermost scope stays. -/
theorem popScope_cases : env.level = 0 ∧ env.popScope = env ∨
      ∃ scopes floor, env.floors[env.level]? = some floor ∧ scopes.length + 1 = env.level ∧
        env.popScope = { env with scopes, locals := env.locals.take floor } := by
  unfold popScope
  split
  · rename_i outermost
    exact .inl ⟨by simp [level, outermost], rfl⟩
  · rename_i scope outer opened
    refine .inr ⟨outer, scope.localsBase, ?_, ?_, rfl⟩
    · simp [floors, outward, level, opened]
    · simp [level, opened]

@[simp] theorem level_addBinding : (env.addBinding name cell).level = env.level := by
  unfold addBinding level
  split <;> simp_all

@[simp] theorem kinds_addBinding : (env.addBinding name cell).kinds = env.kinds :=
  env.outward_addBinding _ _ name cell fun _ _ => rfl

@[simp] theorem floors_addBinding : (env.addBinding name cell).floors = env.floors :=
  env.outward_addBinding _ _ name cell fun _ _ => rfl

@[simp] theorem locals_addBinding : (env.addBinding name cell).locals = env.locals := by
  unfold addBinding
  split <;> rfl

@[simp] theorem globals_addBinding : (env.addBinding name cell).globals = env.globals := by
  unfold addBinding
  split <;> rfl

@[simp] theorem nextGeneration_addBinding :
    (env.addBinding name cell).nextGeneration = env.nextGeneration := by
  unfold addBinding
  split <;> rfl

@[simp] theorem statics_addBinding : (env.addBinding name cell).statics = env.statics := by
  unfold addBinding
  split <;> rfl

theorem getElem?_levels_level : env.levels[env.level]? = some env.bindings := by
  unfold levels outward level bindings
  split <;> simp_all

theorem levels_addBinding : (env.addBinding name cell).levels =
      env.levels.set env.level ((name, cell) :: env.bindings) := by
  unfold addBinding levels outward level bindings
  split <;> simp_all

end Primitives

/-! What operations do. -/

variable {env next : Environment} {decl : Variable} {cell : Cell} {level : Nat}

/-- A declaration fails and changes nothing, or it allocates a variable and gives it a name that
was free. -/
theorem perform_declare (env : Environment) (decl : Variable) :
    env.yield? (.declare decl) = none ∧ env.perform (.declare decl) = env ∨
      ∃ cell allocated, env.yield? (.declare decl) = some cell ∧
        env.perform (.declare decl) = allocated.addBinding decl.name cell ∧
        env.bindings.lookup decl.name = none ∧
        (env.isGlobal = true ∧ env.allocateGlobal decl = (cell, allocated) ∨
          env.isGlobal = false ∧ env.allocateLocal decl = (cell, allocated)) := by
  simp only [yield?, perform, declare]
  cases env.bindings.lookup decl.name with
  | some other => exact .inl ⟨rfl, rfl⟩
  | none =>
    cases env.isGlobal with
    | true => exact .inr ⟨_, _, rfl, rfl, rfl, .inl ⟨rfl, rfl⟩⟩
    | false => exact .inr ⟨_, _, rfl, rfl, rfl, .inr ⟨rfl, rfl⟩⟩

inductive StaticOutcome (env : Environment) (site : NodeId) (decl : Variable) :
    Except MemoryError Cell → Environment → Prop where
  | again {cell : Cell} : env.staticCell? site = some cell →
      env.bindings.lookup decl.name = none →
      StaticOutcome env site decl (.ok cell) (env.addBinding decl.name cell)
  | first : env.staticCell? site = none → env.bindings.lookup decl.name = none →
      StaticOutcome env site decl (.ok (.global env.globals.size))
        { (env.allocateGlobal decl).2.addBinding decl.name (.global env.globals.size) with
          statics := (site, .global env.globals.size) :: env.statics }
  | taken : env.staticCell? site ≠ none → StaticOutcome env site decl (.error error) env
  /-- The variable is allocated although its name is taken. -/
  | lost : env.staticCell? site = none →
      StaticOutcome env site decl (.error error) (env.allocateGlobal decl).2

theorem perform_declareStatic (env : Environment) (site : NodeId) (decl : Variable) :
    ∃ res next, env.yield? (.declareStatic site decl) = res.toOption ∧
      env.perform (.declareStatic site decl) = next ∧
      StaticOutcome env site decl res next := by
  refine ⟨_, (env.declareStatic site decl).2, rfl, rfl, ?_⟩
  unfold declareStatic bind
  cases known : env.staticCell? site with
  | some cell =>
    cases bound : env.bindings.lookup decl.name with
    | some other => exact .taken (by simp [known])
    | none => exact .again known bound
  | none =>
    have same : (env.allocateGlobal decl).2.bindings = env.bindings := rfl
    cases bound : env.bindings.lookup decl.name with simp only [same, bound]
    | some other => exact .lost known
    | none =>
      have statics : ((env.allocateGlobal decl).2.addBinding decl.name
          (env.allocateGlobal decl).1).statics = env.statics := by
        simp [allocateGlobal]
      rw [statics]
      exact .first known bound

theorem resolve_eq_ok_iff : env.resolve cell = .ok found ↔ env.resolve? cell = some found := by
  unfold resolve
  cases env.resolve? cell <;> simp

/-- A write fails and changes nothing, or it changes the value of one variable. -/
theorem perform_write (env : Environment) (place : Place) (value : Value) :
    env.perform (.write place value) = env ∨ ∃ found written, env.resolve? place.cell = some found ∧
        env.perform (.write place value) = env.setValue place.cell written := by
  simp only [perform]
  split
  · rename_i out
    obtain ⟨found, resolved, out⟩ := bind_eq_ok.mp out
    obtain ⟨written, -, made⟩ := bind_eq_ok.mp out
    cases made
    exact .inr ⟨found, written, resolve_eq_ok_iff.mp resolved, rfl⟩
  · exact .inl rfl

theorem perform_write_scopes (env : Environment) (place : Place) (value : Value) :
    (env.perform (.write place value)).scopes = env.scopes ∧
      (env.perform (.write place value)).base = env.base := by
  rcases env.perform_write place value with same | ⟨_, written, -, made⟩
  · rw [same]
    exact ⟨rfl, rfl⟩
  · rw [made]
    cases place.cell <;> exact ⟨rfl, rfl⟩

/-- A declaration binds its name, which was free, to the cell that it returns. One that fails
leaves the names. -/
theorem levels_declaration (env : Environment) (named : op.name? = some name) :
    (∃ cell, env.yield? op = some cell ∧ env.bindings.lookup name = none ∧
      (env.perform op).levels = env.levels.set env.level ((name, cell) :: env.bindings)) ∨
    env.yield? op = none ∧ (env.perform op).levels = env.levels := by
  cases op with
  | openFunction | openBlock | close | write => cases named
  | declare decl =>
    cases named
    rcases env.perform_declare decl with ⟨failed, same⟩ |
      ⟨cell, allocated, yielded, made, free, allocation⟩
    · exact .inr ⟨failed, congrArg levels same⟩
    · have kept : allocated.levels = env.levels ∧ allocated.level = env.level ∧
          allocated.bindings = env.bindings := by
        rcases allocation with ⟨-, done⟩ | ⟨-, done⟩ <;> cases done <;> exact ⟨rfl, rfl, rfl⟩
      refine .inl ⟨cell, yielded, free, ?_⟩
      rw [made, levels_addBinding, kept.1, kept.2.1, kept.2.2]
  | declareStatic site decl =>
    cases named
    obtain ⟨res, next, yielded, made, out⟩ := env.perform_declareStatic site decl
    rw [made]
    cases out with
    | again known free => exact .inl ⟨_, yielded, free, env.levels_addBinding _ _⟩
    | first known free =>
      refine .inl ⟨_, yielded, free, ?_⟩
      exact levels_addBinding (env.allocateGlobal decl).2 _ _
    | taken | lost => exact .inr ⟨yielded, rfl⟩

/-- A declaration leaves the levels of the scopes, and which ones there are. -/
theorem level_declaration (env : Environment) (named : op.name? = some name) :
    (env.perform op).level = env.level := by
  have same : (env.perform op).levels.length = env.levels.length := by
    rcases env.levels_declaration named with ⟨cell, -, -, bound⟩ | ⟨-, same⟩
    · rw [bound, length_set]
    · rw [same]
  simpa [levels] using same

/-! Names and the declarations that gave them. -/

def BoundAt (env : Environment) (level : Nat) (name : String) (cell : Cell) : Prop :=
  ∃ bindings, env.levels[level]? = some bindings ∧ bindings.lookup name = some cell

theorem BoundAt.level_le (bound : env.BoundAt level name cell) : level ≤ env.level := by
  obtain ⟨bindings, found, -⟩ := bound
  have inside := (List.getElem?_eq_some_iff.mp found).1
  simp only [levels, length_outward] at inside
  omega

theorem boundAt_pushScope :
    (env.pushScope kind).BoundAt level name cell ↔ env.BoundAt level name cell := by
  have opened : (env.pushScope kind).levels = env.levels ++ [[]] := env.outward_pushScope _ _ kind
  unfold BoundAt
  rw [opened, List.getElem?_append]
  split
  · rfl
  · rename_i outside
    rw [List.getElem?_eq_none (Nat.le_of_not_lt outside)]
    constructor
    · rintro ⟨bindings, found, bound⟩
      cases mem_singleton.mp (mem_of_getElem? found)
      cases bound
    · rintro ⟨bindings, found, -⟩
      cases found

theorem boundAt_popScope : env.popScope.BoundAt level name cell ↔
      env.BoundAt level name cell ∧ level ≤ env.popScope.level := by
  have closed : env.popScope.levels = env.levels.take (env.popScope.level + 1) := by
    unfold levels
    rw [base_popScope, outward_popScope]
  unfold BoundAt
  rw [closed, List.getElem?_take]
  split
  · rename_i inside
    exact ⟨fun bound => ⟨bound, Nat.le_of_lt_succ inside⟩, fun bound => bound.1⟩
  · rename_i outside
    constructor
    · rintro ⟨bindings, found, -⟩
      cases found
    · rintro ⟨-, inside⟩
      exact absurd (Nat.lt_succ_of_le inside) outside

theorem boundAt_of_set (free : env.bindings.lookup given = none)
    (bound : next.levels = env.levels.set env.level ((given, made) :: env.bindings)) :
    next.BoundAt level name cell ↔
      env.BoundAt level name cell ∨ given = name ∧ made = cell ∧ level = env.level := by
  unfold BoundAt
  rw [bound]
  by_cases here : level = env.level
  · subst here
    have inside : env.level < env.levels.length := by simp [levels]
    rw [List.getElem?_set_self inside, getElem?_levels_level]
    by_cases same : name = given
    · subst same
      simp [free]
    · have different : (name == given) = false := by simpa using same
      simp [lookup_cons, different, Ne.symm same]
  · rw [List.getElem?_set_ne (Ne.symm here)]
    simp [here]

/-- A name is bound after an operation if it was bound before and the scope is still open, or if
the operation has just bound it. -/
theorem boundAt_perform : (env.perform op).BoundAt level name cell ↔
      env.BoundAt level name cell ∧ level ≤ (env.perform op).level ∨
      op.name? = some name ∧ env.yield? op = some cell ∧ level = env.level := by
  cases named : op.name? with
  | some given =>
    rw [env.level_declaration named, and_iff_left_of_imp BoundAt.level_le]
    rcases env.levels_declaration named with ⟨made, yielded, free, bound⟩ | ⟨failed, same⟩
    · rw [boundAt_of_set free bound, yielded, Option.some.injEq, Option.some.injEq]
    · simp [BoundAt, same, failed]
  | none =>
    simp only [reduceCtorEq, false_and, or_false]
    cases op with
    | openFunction | openBlock =>
      refine boundAt_pushScope.trans (and_iff_left_of_imp fun bound => ?_).symm
      exact Nat.le_trans bound.level_le (by simp [perform])
    | close => exact boundAt_popScope
    | declare | declareStatic => cases named
    | write place value =>
      obtain ⟨scopes, base⟩ := env.perform_write_scopes place value
      have levels : (env.perform (.write place value)).levels = env.levels := by
        unfold levels outward
        rw [scopes, base]
      have innermost : (env.perform (.write place value)).level = env.level :=
        congrArg List.length scopes
      rw [innermost, BoundAt, levels]
      exact (and_iff_left_of_imp BoundAt.level_le).symm

/-- The scope at a level stays open during operations. -/
def StaysOpen (env : Environment) (level : Nat) (ops : List MemoryOp) : Prop :=
  ∀ part, part <+: ops → level ≤ (env.performAll part).level

theorem staysOpen_nil : env.StaysOpen level [] ↔ level ≤ env.level := by
  simp [StaysOpen, performAll]

theorem staysOpen_cons :
    env.StaysOpen level (op :: ops) ↔ level ≤ env.level ∧ (env.perform op).StaysOpen level ops := by
  constructor
  · intro opened
    refine ⟨opened [] nil_prefix, ?_⟩
    intro part isPart
    exact opened (op :: part) (cons_prefix_cons.mpr ⟨rfl, isPart⟩)
  · rintro ⟨before, opened⟩ part isPart
    cases part with
    | nil => exact before
    | cons first part =>
      obtain ⟨rfl, shorter⟩ := cons_prefix_cons.mp isPart
      exact opened part shorter

theorem staysOpen_concat : env.StaysOpen level (ops ++ [op]) ↔
      env.StaysOpen level ops ∧ level ≤ (env.performAll (ops ++ [op])).level := by
  constructor
  · intro opened
    refine ⟨?_, opened _ (prefix_refl _)⟩
    intro part isPart
    exact opened part (isPart.trans (prefix_append _ _))
  · rintro ⟨opened, last⟩ part isPart
    rcases prefix_concat_iff.mp isPart with rfl | shorter
    · exact last
    · exact opened part shorter

def NamedAt (ops : List MemoryOp) (level : Nat) (name : String) (cell : Cell) : Prop :=
  ∃ earlier op later, ops = earlier ++ op :: later ∧ op.name? = some name ∧
    (after earlier).yield? op = some cell ∧ (after earlier).level = level ∧
    ((after earlier).perform op).StaysOpen level later

theorem namedAt_concat : NamedAt (ops ++ [op]) level name cell ↔
      NamedAt ops level name cell ∧ level ≤ (after (ops ++ [op])).level ∨
      op.name? = some name ∧ (after ops).yield? op = some cell ∧ level = (after ops).level := by
  constructor
  · rintro ⟨earlier, declaration, later, split, named, yielded, here, opened⟩
    rcases eq_nil_or_concat later with rfl | ⟨before, last, rfl⟩
    · obtain ⟨rfl, same⟩ := append_inj' split rfl
      cases same
      exact .inr ⟨named, yielded, here.symm⟩
    · rw [concat_eq_append] at split opened
      rw [← cons_append, ← append_assoc] at split
      obtain ⟨rfl, same⟩ := append_inj' split rfl
      cases same
      obtain ⟨openedBefore, stays⟩ := staysOpen_concat.mp opened
      refine .inl ⟨⟨earlier, declaration, before, rfl, named, yielded, here, openedBefore⟩, ?_⟩
      rwa [append_assoc, cons_append, after_split]
  · rintro (⟨⟨earlier, declaration, later, rfl, named, yielded, here, opened⟩, stays⟩ |
      ⟨named, yielded, here⟩)
    · rw [append_assoc, cons_append] at stays ⊢
      rw [after_split] at stays
      exact ⟨earlier, declaration, later ++ [op], rfl, named, yielded, here,
        staysOpen_concat.mpr ⟨opened, stays⟩⟩
    · refine ⟨ops, op, [], rfl, named, yielded, here.symm, staysOpen_nil.mpr ?_⟩
      exact Nat.le_of_eq (here.trans ((after ops).level_declaration named).symm)

theorem boundAt_iff_namedAt :
    (after ops).BoundAt level name cell ↔ NamedAt ops level name cell := by
  induction ops using List.reverseRecOn generalizing level name cell with
  | nil =>
    constructor
    · rintro ⟨bindings, found, bound⟩
      cases mem_singleton.mp (mem_of_getElem? found)
      cases bound
    · rintro ⟨earlier, op, later, split, -⟩
      simp at split
  | append_singleton ops op ih =>
    rw [namedAt_concat, after_concat, boundAt_perform, ih]

/-! The rule of lookups. -/

/-- Names of a scope can be seen from the innermost one: no function starts in between, or the
scope is the outermost. -/
def Visible (env : Environment) (level : Nat) : Prop :=
  level = 0 ∨ level ≤ env.level ∧ ∀ higher, level < higher → env.kinds[higher]? ≠ some .function

/-- A scope has a name, and no visible scope further inside has it. -/
structure Selects (env : Environment) (name : String) (level : Nat) (cell : Cell) : Prop where
  visible : env.Visible level
  bound : env.BoundAt level name cell
  innermost : ∀ higher, level < higher → env.Visible higher →
    ∀ other, ¬ env.BoundAt higher name other

def within (env : Environment) (scope : Scope) : Environment :=
  { env with scopes := scope :: env.scopes }

section Within

variable {scope : Scope}

theorem level_within : (env.within scope).level = env.level + 1 := rfl

theorem outward_within (outermost : α) (view : Scope → α) :
    (env.within scope).outward outermost view = env.outward outermost view ++ [view scope] := by
  simp [outward, within]

theorem boundAt_within_last : (env.within scope).BoundAt (env.level + 1) name cell ↔
      scope.bindings.lookup name = some cell := by
  have levels : (env.within scope).levels = env.levels ++ [scope.bindings] := outward_within _ _
  have last : env.levels.length = env.level + 1 := length_outward _ _ _
  simp [BoundAt, levels, ← last]

theorem boundAt_within (outer : level ≤ env.level) :
    (env.within scope).BoundAt level name cell ↔ env.BoundAt level name cell := by
  have levels : (env.within scope).levels = env.levels ++ [scope.bindings] := outward_within _ _
  have last : env.levels.length = env.level + 1 := length_outward _ _ _
  have inside : level < env.levels.length := by
    rw [last]
    exact Nat.lt_succ_of_le outer
  rw [BoundAt, levels, List.getElem?_append_left inside, BoundAt]

theorem visible_within_last : (env.within scope).Visible (env.level + 1) := by
  refine .inr ⟨Nat.le_refl _, ?_⟩
  intro higher above
  have outside : (env.within scope).kinds.length ≤ higher := by
    rw [kinds, length_outward]
    exact above
  rw [List.getElem?_eq_none outside]
  simp

theorem visible_within (outer : level ≤ env.level) :
    (env.within scope).Visible level ↔ level = 0 ∨ scope.kind ≠ .function ∧ env.Visible level := by
  have kinds : (env.within scope).kinds = env.kinds ++ [scope.kind] := outward_within _ _
  have last : env.kinds.length = env.level + 1 := length_outward _ _ _
  constructor
  · rintro (bottom | ⟨-, clear⟩)
    · exact .inl bottom
    · refine .inr ⟨?_, .inr ⟨outer, ?_⟩⟩
      · have := clear (env.level + 1) (Nat.lt_succ_of_le outer)
        simpa [kinds, ← last] using this
      · intro higher above fn
        have inside := (List.getElem?_eq_some_iff.mp fn).1
        apply clear higher above
        rw [kinds, List.getElem?_append_left inside, fn]
  · rintro (bottom | ⟨block, bottom | ⟨-, clear⟩⟩)
    · exact .inl bottom
    · exact .inl bottom
    · refine .inr ⟨Nat.le_succ_of_le outer, ?_⟩
      intro higher above
      rw [kinds, List.getElem?_append]
      split
      · exact clear higher above
      · intro fn
        exact block (mem_singleton.mp (mem_of_getElem? fn)).symm

theorem selects_within_of_bound (bound : scope.bindings.lookup name = some own) :
    (env.within scope).Selects name level cell ↔ level = env.level + 1 ∧ cell = own := by
  constructor
  · intro selects
    have among := selects.bound.level_le
    rw [level_within] at among
    by_cases last : level = env.level + 1
    · subst last
      have same := boundAt_within_last.mp selects.bound
      exact ⟨rfl, Option.some.inj (same.symm.trans bound)⟩
    · have above : level < env.level + 1 := by omega
      have hidden := selects.innermost (env.level + 1) above visible_within_last own
      exact absurd (boundAt_within_last.mpr bound) hidden
  · rintro ⟨rfl, rfl⟩
    refine ⟨visible_within_last, boundAt_within_last.mpr bound, ?_⟩
    intro higher above _ other inside
    exact absurd inside.level_le (Nat.not_le_of_lt above)

theorem level_le_of_free (free : scope.bindings.lookup name = none)
    (bound : (env.within scope).BoundAt level name cell) : level ≤ env.level := by
  have among := bound.level_le
  rw [level_within] at among
  by_contra above
  obtain rfl : level = env.level + 1 := by omega
  rw [boundAt_within_last, free] at bound
  cases bound

theorem selects_within_of_free (free : scope.bindings.lookup name = none) :
    (env.within scope).Selects name level cell ↔
      if scope.kind = .function then level = 0 ∧ env.BoundAt 0 name cell
      else env.Selects name level cell := by
  split
  · rename_i fn
    constructor
    · intro selects
      have outer := level_le_of_free free selects.bound
      rcases (visible_within outer).mp selects.visible with rfl | ⟨block, -⟩
      · exact ⟨rfl, (boundAt_within outer).mp selects.bound⟩
      · exact absurd fn block
    · rintro ⟨rfl, bound⟩
      refine ⟨.inl rfl, (boundAt_within (Nat.zero_le _)).mpr bound, ?_⟩
      intro higher above visible other hides
      have outer := level_le_of_free free hides
      rcases (visible_within outer).mp visible with bottom | ⟨block, -⟩
      · exact absurd bottom (Nat.ne_of_gt above)
      · exact block fn
  · rename_i block
    constructor
    · intro selects
      have outer := level_le_of_free free selects.bound
      refine ⟨?_, (boundAt_within outer).mp selects.bound, ?_⟩
      · rcases (visible_within outer).mp selects.visible with bottom | ⟨-, visible⟩
        · exact .inl bottom
        · exact visible
      · intro higher above visible other hides
        have among := hides.level_le
        exact selects.innermost higher above ((visible_within among).mpr (.inr ⟨block, visible⟩))
          other ((boundAt_within among).mpr hides)
    · intro selects
      have outer := selects.bound.level_le
      refine ⟨(visible_within outer).mpr (.inr ⟨block, selects.visible⟩),
        (boundAt_within outer).mpr selects.bound, ?_⟩
      intro higher above visible other hides
      have among := level_le_of_free free hides
      rcases (visible_within among).mp visible with bottom | ⟨-, visible⟩
      · exact absurd bottom (Nat.ne_of_gt (Nat.zero_lt_of_lt above))
      · exact selects.innermost higher above visible other ((boundAt_within among).mp hides)

theorem lookup?_within :
    (env.within scope).lookup? name = match scope.bindings.lookup name with
      | some own => some own
      | none => if scope.kind = .function then env.base.lookup name else env.lookup? name := by
  simp only [lookup?, within, lookupScopes]
  cases scope.bindings.lookup name with
  | some own => rfl
  | none => by_cases fn : scope.kind = .function <;> simp [fn]

end Within

theorem boundAt_zero : env.BoundAt 0 name cell ↔ env.base.lookup name = some cell := by
  simp [BoundAt, levels, outward]

/-- A lookup finds what the innermost visible scope with the name has. -/
theorem lookup?_eq_some_iff :
    env.lookup? name = some cell ↔ ∃ level, env.Selects name level cell := by
  generalize held : env.scopes = scopes
  induction scopes generalizing env with
  | nil =>
    have bottom : env.lookup? name = env.base.lookup name := by
      simp [lookup?, lookupScopes, held]
    have single : env.level = 0 := by simp [level, held]
    rw [bottom, ← boundAt_zero]
    constructor
    · intro bound
      refine ⟨0, .inl rfl, bound, ?_⟩
      intro higher above _ other hides
      exact absurd (single ▸ hides.level_le) (Nat.not_le_of_lt above)
    · rintro ⟨level, selects⟩
      obtain rfl : level = 0 := Nat.le_zero.mp (single ▸ selects.bound.level_le)
      exact selects.bound
  | cons scope scopes ih =>
    obtain ⟨outer, rfl, rfl⟩ : ∃ outer : Environment,
        outer.within scope = env ∧ outer.scopes = scopes :=
      ⟨{ env with scopes }, by rw [within, ← held], rfl⟩
    rw [lookup?_within]
    cases own : scope.bindings.lookup name with
    | some other => simp [selects_within_of_bound own, eq_comm]
    | none =>
      simp only [selects_within_of_free own]
      split
      · simp [boundAt_zero]
      · exact ih rfl

end Environment

end Breadboard
