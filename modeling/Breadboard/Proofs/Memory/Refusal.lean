import Breadboard.Proofs.Memory.Operations

/-!
Declarations that are refused. A scope takes each name once, and a call that gives a name of the
innermost scope a second time is refused. It then leaves memory as it was, with one exception: a
static variable that is declared at a new site has been stored before its name is looked at.
-/

namespace Breadboard

open Environment

inductive NamingCall where
  | declare (declared : Variable)
  | bind (name : String) (cell : Cell)
  | declareStatic (site : NodeId) (declared : Variable)

def NamingCall.name : NamingCall → String
  | .declare declared | .declareStatic _ declared => declared.name
  | .bind name _ => name

namespace Environment

def attempt (env : Environment) : NamingCall → Except MemoryError Cell × Environment
  | .declare declared =>
    match env.declare declared with
    | .ok (cell, next) => (.ok cell, next)
    | .error error => (.error error, env)
  | .bind name cell =>
    match env.bind name cell with
    | .ok next => (.ok cell, next)
    | .error error => (.error error, env)
  | .declareStatic site declared => env.declareStatic site declared

/-- The variable that a call stores for a site that has no cell yet. -/
def newStatic? (env : Environment) : NamingCall → Option Variable
  | .declareStatic site declared => if (env.staticCell? site).isNone then some declared else none
  | _ => none

def afterRefusal (env : Environment) (call : NamingCall) : Environment :=
  match env.newStatic? call with
  | some declared => { env with globals := env.globals.push declared }
  | none => env

variable {env : Environment} {call : NamingCall}

theorem bind_of_taken (taken : env.bindings.lookup name = some other)
    (cell : Cell) : env.bind name cell = .error (.duplicateDeclaration name) := by
  rw [bind, taken]

theorem bind_of_free (free : env.bindings.lookup name = none) (cell : Cell) :
    env.bind name cell = .ok (env.addBinding name cell) := by
  rw [bind, free]

theorem attempt_of_taken (taken : env.bindings.lookup call.name = some other) :
    env.attempt call = (.error (.duplicateDeclaration call.name), env.afterRefusal call) := by
  cases call with
  | declare declared =>
    change env.bindings.lookup declared.name = some other at taken
    simp only [attempt, declare, taken]
    rfl
  | bind name cell =>
    change env.bindings.lookup name = some other at taken
    simp only [attempt, bind_of_taken taken]
    rfl
  | declareStatic site declared =>
    change env.bindings.lookup declared.name = some other at taken
    simp only [attempt, declareStatic, afterRefusal, newStatic?]
    cases env.staticCell? site with
    | some cell =>
      simp only [bind_of_taken taken]
      rfl
    | none =>
      have still : (env.allocateGlobal declared).2.bindings.lookup declared.name = some other :=
        taken
      simp only [bind_of_taken still]
      rfl

theorem attempt_of_free (free : env.bindings.lookup call.name = none) :
    ∃ cell, (env.attempt call).1 = .ok cell := by
  cases call with
  | declare declared =>
    change env.bindings.lookup declared.name = none at free
    simp only [attempt, declare, free]
    exact ⟨_, rfl⟩
  | bind name cell =>
    change env.bindings.lookup name = none at free
    simp only [attempt, bind_of_free free]
    exact ⟨_, rfl⟩
  | declareStatic site declared =>
    change env.bindings.lookup declared.name = none at free
    simp only [attempt, declareStatic]
    cases env.staticCell? site with
    | some cell =>
      simp only [bind_of_free free]
      exact ⟨_, rfl⟩
    | none =>
      have still : (env.allocateGlobal declared).2.bindings.lookup declared.name = none := free
      simp only [bind_of_free still]
      exact ⟨_, rfl⟩

theorem afterRefusal_eq_self_iff : env.afterRefusal call = env ↔ env.newStatic? call = none := by
  rw [afterRefusal]
  constructor
  · intro unchanged
    cases stored : env.newStatic? call with
    | none => rfl
    | some declared =>
      -- A variable more is not the same memory.
      simp only [stored] at unchanged
      have size := congrArg (fun memory => memory.globals.size) unchanged
      simp only [Array.size_push, Nat.succ_ne_self] at size
  · intro none
    rw [none]

/-- A call is refused just if the innermost scope has its name, for that reason. It leaves all of
memory as it was just if it is not the declaration of a static variable at a new site, and such a
declaration leaves its variable behind, and no more than that. -/
theorem refused_call_leaves (env : Environment) (call : NamingCall) :
    ((∃ error, (env.attempt call).1 = .error error) ↔
        ∃ other, env.bindings.lookup call.name = some other) ∧
      ∀ error, (env.attempt call).1 = .error error →
        error = .duplicateDeclaration call.name ∧
        ((env.attempt call).2 = env ↔ env.newStatic? call = none) ∧
        ∀ declared, env.newStatic? call = some declared →
          (env.attempt call).2 = { env with globals := env.globals.push declared } := by
  cases named : env.bindings.lookup call.name with
  | none =>
      obtain ⟨cell, succeeds⟩ := attempt_of_free named
      rw [succeeds]
      exact ⟨⟨nofun, nofun⟩, nofun⟩
  | some other =>
      rw [attempt_of_taken named]
      refine ⟨⟨fun _ => ⟨other, rfl⟩, fun _ => ⟨_, rfl⟩⟩, ?_⟩
      rintro _ ⟨⟩
      refine ⟨rfl, afterRefusal_eq_self_iff, ?_⟩
      intro declared stored
      rw [afterRefusal, stored]

/-- A global of which a static variable then takes the name. -/
def shadowed : Environment := after [.declare { name := "x", type := .of .int, value := .int 1 }]

theorem shadowed_refuses :
    (shadowed.attempt (.declareStatic 7 { name := "x", type := .of .int, value := .int 2 })).1 =
        .error (.duplicateDeclaration "x") ∧
      (shadowed.attempt (.declareStatic 7 { name := "x", type := .of .int, value := .int 2 })).2 ≠
        shadowed := by
  obtain ⟨-, leaves⟩ := refused_call_leaves shadowed
    (.declareStatic 7 { name := "x", type := .of .int, value := .int 2 })
  obtain ⟨-, unchanged, -⟩ := leaves (.duplicateDeclaration "x") rfl
  refine ⟨rfl, ?_⟩
  intro same
  cases unchanged.mp same

end Environment

end Breadboard
