import Breadboard.Proofs.Machine.Upkeep
import Breadboard.Proofs.Memory.Confinement

/-!
What declarations do. A declaration gives its variable a new cell, with the value of the
initializer or the default of the type; a static variable that has a cell gets its name back and
nothing else happens. Parameters are declared with the arguments of a call. No step makes other
variables than those that its frame introduces.
-/

namespace Breadboard

open Environment

/-- The value that a variable of a type is declared with. -/
def Firmware.initial (fw : Firmware) (env : Environment) (type : DataType) :
    Option Value → Except Cause Value
  | some given => (env.givenAs type given).convert fw.structs type
  | none => .ok (type.default fw.structs)

def Environment.introduce (env : Environment) (site : NodeId) (decl : Variable) :
    Except MemoryError Cell × Environment :=
  if decl.isStatic then env.declareStatic site decl
  else
    match env.declare decl with
    | .ok (cell, next) => (.ok cell, next)
    | .error error => (.error error, env)

namespace Act

variable {fw : Firmware} {ctx : Context} {node : NodeId} {name : String} {type : DataType}
  {init : Option NodeId} {isVolatile : Bool} {α : Type}

section Operands

variable {yields : α → Context → Prop} {fails : Fault → Context → Prop}
  (quits : ∀ fault values, fails fault { ctx with values })
include quits

theorem meets_pop_bind (loc : Location)
    (rest : ∀ value below, ctx.values = value :: below →
      (next value).Meets { ctx with values := below } yields fails) :
    (pop loc >>= next).Meets ctx yields fails := by
  cases opds : ctx.values with
  | nil =>
    simp only [meets_bind, pop, meets_get, opds, meets_unsupported]
    exact quits _ ctx.values
  | cons value below =>
    rw [meets_bind, meets_pop loc opds]
    exact rest value below opds

theorem meets_popPlace_bind (loc : Location)
    (rest : ∀ place below, ctx.values = .pointer place :: below →
      (next place).Meets { ctx with values := below } yields fails) :
    (popPlace loc >>= next).Meets ctx yields fails := by
  unfold popPlace
  rw [bind_assoc]
  refine meets_pop_bind quits loc fun value below opds => ?_
  cases value with
  | pointer place => exact rest place below opds
  | _ => exact quits _ below

end Operands

theorem environment_bind_apply (next : Environment → Act α) :
    (environment >>= next) ctx = next ctx.env ctx := rfl

theorem attemptMemory_bind_apply (res : Except MemoryError β) (loc : Location)
    (next : β → Act α) : (attemptMemory res loc >>= next) ctx = match res with
      | .ok value => next value ctx
      | .error error => .error ⟨.ofMemory error, loc⟩ ctx := by
  cases res <;> rfl

/-- A static variable that has been declared before gets its name back. -/
theorem declareVariable_again
    (kind : fw.program.kind node = .varDecl name type init true isVolatile)
    (known : ctx.env.staticCell? node = some cell) (given : Option Value) :
    declareVariable fw node given ctx = match ctx.env.bind name cell with
      | .ok next => .ok .quiet { ctx with env := next }
      | .error error => .error ⟨.ofMemory error, fw.program.location node⟩ ctx := by
  unfold declareVariable
  simp only [kind, environment_bind_apply, if_true, known, attemptMemory_bind_apply]
  cases ctx.env.bind name cell <;> rfl

theorem convert_bind_apply (value : Value) (type : DataType) (loc : Location)
    (next : Value → Act α) : (convert fw value type loc >>= next) ctx =
      match (ctx.env.givenAs type value).convert fw.structs type with
      | .ok value => next value ctx
      | .error cause => .error ⟨cause, loc⟩ ctx := by
  unfold convert
  rw [bind_assoc, environment_bind_apply]
  dsimp only
  unfold givenAs
  cases Value.convert _ _ _ <;> rfl

theorem introduce_bind_apply (ctx : Context) (node : NodeId) (decl : Variable)
    (loc : Location) (report : Cell → Act α) :
    (if decl.isStatic = true then declareStatic node decl loc >>= report
      else declareIn decl loc >>= report) ctx =
      match ctx.env.introduce node decl with
      | (.error error, next) => .error ⟨.ofMemory error, loc⟩ { ctx with env := next }
      | (.ok cell, next) => report cell { ctx with env := next } := by
  unfold introduce
  split
  · unfold declareStatic
    rw [bind_assoc, environment_bind_apply]
    rcases ctx.env.declareStatic node decl with ⟨res, next⟩
    cases res <;> rfl
  · unfold declareIn
    rw [bind_assoc, environment_bind_apply, bind_assoc, attemptMemory_bind_apply]
    cases ctx.env.declare decl <;> rfl

/-- A variable that is not static, or that is declared for the first time. -/
theorem declareVariable_anew
    (kind : fw.program.kind node = .varDecl name type init isStatic isVolatile)
    (unknown : isStatic = true → ctx.env.staticCell? node = none) (given : Option Value) :
    declareVariable fw node given ctx = match fw.initial ctx.env type given with
      | .ok value => match ctx.env.introduce node
            ⟨name, type.sizedBy value, value, isStatic, isVolatile⟩ with
        | (.error error, next) =>
          .error ⟨.ofMemory error, fw.program.location node⟩ { ctx with env := next }
        | (.ok cell, next) => .ok (if given.isSome then
            .emit (.varSet (next.placeName (.of cell)) (next.payload value))
            else .quiet) { ctx with env := next }
      | .error cause => .error ⟨cause, fw.program.location node⟩ ctx := by
  have first : (if isStatic = true then ctx.env.staticCell? node else none) = none := by
    split
    · exact unknown ‹_›
    · rfl
  have allocated (value : Value) (report : Cell → Act Effect) :=
    introduce_bind_apply ctx node ⟨name, type.sizedBy value, value, isStatic, isVolatile⟩
      (fw.program.location node) report
  unfold declareVariable
  simp only [kind, environment_bind_apply, first]
  cases given with
  | none =>
    simp only [pure_bind, Firmware.initial, allocated]
    rfl
  | some given =>
    simp only [convert_bind_apply, Firmware.initial, allocated]
    rfl

end Act

inductive Firmware.Introduces (fw : Firmware) (env : Environment)
    (values : List Value) : Frame → Variable → Prop where
  | default :
      fw.program.kind node = .varDecl name type none isStatic isVolatile →
      Introduces fw env values (.exec node)
        ⟨name, type.sizedBy (type.default fw.structs), type.default fw.structs,
          isStatic, isVolatile⟩
  | initializer {node name type init isStatic isVolatile given value below} :
      fw.program.kind node = .varDecl name type init isStatic isVolatile → values = given :: below →
      (env.givenAs type given).convert fw.structs type = .ok value →
      Introduces fw env values (.declare node)
        ⟨name, type.sizedBy value, value, isStatic, isVolatile⟩
  | object : fw.program.kind node = .objectDecl name className args →
      Introduces fw env values (.construct node)
        { name, type := .of (.library className), value := .object ⟨className, name⟩ }
  /-- An argument is converted when the parameters before its own have been declared. -/
  | parameter {fn : NodeId} {argc : Nat} {loc : Location} {name : String}
      {params : List Field} {retType : DataType} {body : NodeId} {earlier : List Variable}
      {param : Field} {arg value : Value} :
      fw.program.kind fn = .functionDef name params retType body →
      params[earlier.length]? = some param →
      (values.take argc).reverse[earlier.length]? = some arg →
      (((env.pushScope .function).performAll (earlier.map .declare)).givenAs param.type
        arg).convert fw.structs param.type = .ok value →
      Introduces fw env values (.call fn argc loc)
        { name := param.name, type := param.type, value }

namespace Environment

variable {env middle next : Environment} {introduced : Variable → Prop} {decl : Variable}

def Adds (env : Environment) (introduced : Variable → Prop) (next : Environment) : Prop :=
  ∀ cell held, next.resolve? cell = some held → env.resolve? cell = some held ∨ introduced held

theorem Adds.refl : env.Adds introduced env := fun _ _ => .inl

theorem Adds.trans (first : env.Adds introduced middle) (second : middle.Adds introduced next) :
    env.Adds introduced next := by
  intro cell held resolved
  rcases second cell held resolved with before | new
  · exact first cell held before
  · exact .inr new

theorem Gains.adds (gains : env.Gains decl next) (new : introduced decl) :
    env.Adds introduced next := by
  intro cell held resolved
  rcases gains.resolve? resolved with before | rfl
  · exact .inl before
  · exact .inr new

theorem adds_addBinding (env : Environment) (name : String) (cell : Cell) :
    env.Adds introduced (env.addBinding name cell) := by
  intro other held resolved
  cases other with
  | «global» | frame => exact .inl (by simpa [resolve?] using resolved)

theorem gains_introduce (env : Environment) (site : NodeId) (decl : Variable) :
    env.Gains decl (env.introduce site decl).2 := by
  unfold introduce
  split
  · exact env.gains_declareStatic site decl
  · split
    · rename_i out
      exact perform_of_declare out ▸ env.gains_declare decl
    · exact ⟨.inl rfl, .inl rfl⟩

end Environment

namespace Act

variable {fw : Firmware} {ctx : Context} {frame : Frame} {introduced : Variable → Prop}
  (fn : NodeId) {isStatic : Bool} {node : NodeId} {name : String} {type : DataType}
  {init : Option NodeId} {isVolatile : Bool}

def Adds {α : Type} (act : Act α) (ctx : Context) (introduced : Variable → Prop) : Prop :=
  act.Meets ctx (fun _ next => ctx.env.Adds introduced next.env)
    fun _ final => ctx.env.Adds introduced final.env

theorem adds_declareVariable_again
    (kind : fw.program.kind node = .varDecl name type init true isVolatile)
    (known : ctx.env.staticCell? node = some cell) (given : Option Value) :
    (declareVariable fw node given).Adds ctx introduced := by
  unfold Adds Meets
  rw [declareVariable_again kind known]
  cases bound : ctx.env.bind name cell with
  | ok next =>
    unfold Environment.bind at bound
    split at bound <;> cases bound
    exact ctx.env.adds_addBinding name cell
  | error => exact Environment.Adds.refl

theorem adds_declareVariable
    (kind : fw.program.kind node = .varDecl name type init isStatic isVolatile)
    (given : Option Value) (gives : ∀ value, fw.initial ctx.env type given = .ok value →
      introduced ⟨name, type.sizedBy value, value, isStatic, isVolatile⟩) :
    (declareVariable fw node given).Adds ctx introduced := by
  by_cases known : isStatic = true ∧ ∃ cell, ctx.env.staticCell? node = some cell
  · obtain ⟨rfl, cell, known⟩ := known
    exact adds_declareVariable_again kind known given
  · have unknown (static : isStatic = true) : ctx.env.staticCell? node = none :=
      Option.eq_none_iff_forall_ne_some.mpr fun cell found => known ⟨static, cell, found⟩
    unfold Adds Meets
    rw [declareVariable_anew kind unknown]
    cases initial : fw.initial ctx.env type given with
    | error => exact Environment.Adds.refl
    | ok value =>
      have adds := (ctx.env.gains_introduce node _).adds (gives value initial)
      dsimp only
      rcases made : ctx.env.introduce node _ with ⟨res, next⟩
      rw [made] at adds
      cases res <;> exact adds

theorem adds_bindParameters (loc : Location) (params : List Field) (args : List Value)
    (gives : ∀ (earlier : List Variable) param arg value, params[earlier.length]? = some param →
      args[earlier.length]? = some arg →
      ((ctx.env.performAll (earlier.map .declare)).givenAs param.type arg).convert
        fw.structs param.type = .ok value →
      introduced { name := param.name, type := param.type, value }) :
    (bindParameters fw loc params args).Adds ctx introduced := by
  induction params generalizing args ctx with
  | nil => exact Environment.Adds.refl
  | cons param params ih =>
    cases args with
    | nil => exact Environment.Adds.refl
    | cons arg args =>
      unfold bindParameters Adds
      simp only [meets_bind, meets_convert, meets_environment, meets_attemptMemory,
        meets_setEnvironment]
      refine ⟨fun first converted => ⟨?_, fun _ _ => Environment.Adds.refl⟩,
        fun _ _ => Environment.Adds.refl⟩
      rintro ⟨cell, next⟩ out
      have performed := perform_of_declare out
      have adds := (ctx.env.gains_declare _).adds (gives [] param arg first rfl rfl converted)
      rw [performed] at adds
      refine (@ih { ctx with env := next } args ?_).weaken
        (fun _ _ => adds.trans) (fun _ _ => adds.trans)
      -- The parameter just declared comes before those that are left.
      intro earlier other given value found passed converted
      refine gives ({ name := param.name, type := param.type, value := first } :: earlier)
        other given value found passed ?_
      rw [← performed] at converted
      exact converted

theorem adds_enterFunction (args : List Value) (loc : Location)
    (gives : ∀ name params retType body (earlier : List Variable) param arg value,
      fw.program.kind fn = .functionDef name params retType body →
      params[earlier.length]? = some param → args[earlier.length]? = some arg →
      (((ctx.env.pushScope .function).performAll (earlier.map .declare)).givenAs param.type
        arg).convert fw.structs param.type = .ok value →
      introduced { name := param.name, type := param.type, value }) :
    (enterFunction fw fn args loc).Adds ctx introduced := by
  unfold enterFunction
  split
  · rename_i name params retType body kind
    split
    · exact Environment.Adds.refl
    · unfold Adds
      simp only [meets_bind, meets_openScope, meets_get, meets_schedule]
      refine (adds_bindParameters loc params args ?_).weaken (fun _ _ adds => adds)
        fun _ _ adds => adds
      intro earlier param arg value found passed converted
      exact gives name params retType body earlier param arg value kind found passed converted
  · exact Environment.Adds.refl

theorem adds_exec (kind : fw.program.kind node = .varDecl name type init isStatic isVolatile) :
    (exec fw node).Adds ctx (fw.Introduces ctx.env ctx.values (.exec node)) := by
  unfold exec Adds
  simp only [kind, meets_bind, meets_environment]
  cases init with
  | none =>
    refine adds_declareVariable kind none ?_
    rintro _ ⟨⟩
    exact .default kind
  | some expr =>
    dsimp only
    split
    · rename_i before
      obtain ⟨rfl, known⟩ := Bool.and_eq_true_iff.mp before
      obtain ⟨cell, known⟩ := Option.isSome_iff_exists.mp known
      exact adds_declareVariable_again kind known none
    · exact Environment.Adds.refl

theorem adds_popMany
    (rest : (next (ctx.values.take count).reverse).Adds
      { ctx with values := ctx.values.drop count } introduced) :
    (popMany count loc >>= next).Adds ctx introduced := by
  unfold Adds
  rw [meets_bind]
  by_cases enough : count ≤ ctx.values.length
  · rw [meets_popMany loc enough]
    exact rest
  · simp only [popMany, meets_bind, meets_get, enough, if_false, meets_unsupported]
    exact Environment.Adds.refl

theorem adds_constructObject (node : NodeId) : (constructObject fw node).Adds ctx
      (fw.Introduces ctx.env ctx.values (.construct node)) := by
  unfold constructObject
  dsimp only
  split
  · rename_i name className args kind
    refine adds_popMany ?_
    unfold Adds
    simp only [declareIn, meets_bind, meets_environment, meets_attemptMemory, meets_setEnvironment,
      meets_pure]
    refine ⟨?_, fun _ _ => Environment.Adds.refl⟩
    rintro ⟨cell, next⟩ out
    exact perform_of_declare out ▸ (ctx.env.gains_declare _).adds (.object kind)
  · exact Environment.Adds.refl

theorem adds_callMain : (callMain fw fn).Adds ctx introduced := by
  refine (adds_enterFunction fn [] _ ?_).weaken (fun _ _ adds => adds) fun _ _ adds => adds
  intro name params retType body earlier param arg value _ _ passed
  simp at passed

theorem adds_runProgram (phase : ProgramPhase) : (runProgram fw phase).Adds ctx introduced := by
  have returned (frames : List Frame) (fn : NodeId) : (do
      schedule frames
      callMain fw fn
      pure .quiet : Act Effect).Adds ctx introduced := by
    unfold Adds
    simp only [meets_bind, meets_schedule, meets_pure]
    exact adds_callMain fn
  cases phase with simp only [runProgram]
  | globals next => split <;> exact Environment.Adds.refl
  | setup =>
    split
    · exact returned _ _
    · exact Environment.Adds.refl
  | loop completed =>
    split
    · exact Environment.Adds.refl
    · split
      · exact Environment.Adds.refl
      · exact returned _ _

/-- A step that declares variables makes those that its frame introduces. -/
theorem adds_declaring (declares : fw.declares frame = true) : (runFrame fw frame).Adds ctx
      (fw.Introduces ctx.env ctx.values frame) := by
  cases frame with
  | program phase => exact adds_runProgram phase
  | exec node =>
    simp only [Firmware.declares] at declares
    split at declares
    · exact adds_exec ‹_›
    · cases declares
  | declare node =>
    refine meets_pop_bind (fun _ _ => Environment.Adds.refl) _ fun given below opds => ?_
    cases kind : fw.program.kind node with
    | varDecl name type init isStatic isVolatile =>
      exact adds_declareVariable kind (some given)
        fun value converted => .initializer kind opds converted
    | _ =>
      simp only [declareVariable, kind]
      exact Environment.Adds.refl
  | construct node => exact adds_constructObject node
  | call fn argc loc =>
    refine adds_popMany ?_
    unfold Adds
    simp only [meets_bind, meets_pure]
    refine adds_enterFunction fn _ loc ?_
    intro name params retType body earlier param arg value kind found passed converted
    exact .parameter kind found passed converted
  | _ => cases declares

end Act

end Breadboard
