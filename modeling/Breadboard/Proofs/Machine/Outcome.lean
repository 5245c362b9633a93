import Breadboard.Machine.Reading

/-!
Outcomes of acts. `act.Meets context yields fails` says what an act does when it
starts in a context: if it succeeds, its result and the context it leaves satisfy
`yields`, and if it fails, its fault and the context satisfy `fails`. The lemmas
below take an act apart, so that a claim about it becomes one about data.
-/

namespace Breadboard

/-- What a conversion to a type works on: where a single text is wanted, a pointer into
characters is their text. -/
def Environment.givenAs (env : Environment) (type : DataType) (value : Value) : Value :=
  if type.base = .text && type.pointerDepth = 0 && !type.isArray then env.textOf value else value

namespace Act

variable {α β : Type} (loc : Location) (value : Value) {final : Context}

def Meets (act : Act α) (ctx : Context) (yields : α → Context → Prop)
    (fails : Fault → Context → Prop) : Prop :=
  match act ctx with
  | .ok value final => yields value final
  | .error fault final => fails fault final

variable {ctx : Context} {yields : α → Context → Prop} {fails : Fault → Context → Prop}
  {leaves : Unit → Context → Prop}

theorem Meets.of_ok {act : Act α} (meets : act.Meets ctx yields fails) {value : α}
    (out : act ctx = .ok value final) : yields value final := by
  simpa only [Meets, out] using meets

theorem Meets.of_error {act : Act α} (meets : act.Meets ctx yields fails)
    (out : act ctx = .error fault final) : fails fault final := by
  simpa only [Meets, out] using meets

theorem Meets.weaken {act : Act α} (meets : act.Meets ctx yields fails)
    (onOk : ∀ value final, yields value final → yields' value final)
    (onError : ∀ fault final, fails fault final → fails' fault final) :
    act.Meets ctx yields' fails' := by
  unfold Meets at meets ⊢
  cases out : act ctx with rw [out] at meets
  | ok value final => exact onOk value final meets
  | error fault final => exact onError fault final meets

theorem eq_ok_of_meets {act : Act α} {value : α}
    (meets : act.Meets ctx (fun given left => given = value ∧ left = final)
      fun _ _ => False) : act ctx = .ok value final := by
  cases out : act ctx with
  | ok given left =>
    obtain ⟨rfl, rfl⟩ := meets.of_ok out
    rfl
  | error fault left => exact (meets.of_error out).elim

@[simp] theorem meets_pure (value : α) :
    (pure value : Act α).Meets ctx yields fails ↔ yields value ctx := Iff.rfl

@[simp] theorem meets_bind (act : Act β) (next : β → Act α) :
    (act >>= next).Meets ctx yields fails ↔
      act.Meets ctx (fun value middle => (next value).Meets middle yields fails) fails := by
  simp only [Meets, bind, EStateM.bind]
  cases act ctx <;> rfl

theorem Meets.bind {next : β → Act α} (meets : act.Meets ctx middle fails')
    (onOk : ∀ value reached, middle value reached → (next value).Meets reached yields fails)
    (onError : ∀ fault final, fails' fault final → fails fault final) :
    (act >>= next).Meets ctx yields fails :=
  (meets_bind act next).mpr (meets.weaken onOk onError)

@[simp] theorem meets_get {yields : Context → Context → Prop} :
    (get : Act Context).Meets ctx yields fails ↔ yields ctx ctx := Iff.rfl

@[simp] theorem meets_set {yields : PUnit → Context → Prop} (final : Context) :
    (set final : Act PUnit).Meets ctx yields fails ↔ yields ⟨⟩ final := Iff.rfl

@[simp] theorem meets_modify {yields : PUnit → Context → Prop} (change : Context → Context) :
    (modify change : Act PUnit).Meets ctx yields fails ↔ yields ⟨⟩ (change ctx) := Iff.rfl

@[simp] theorem meets_raise (cause : Cause) (loc : Location) :
    (raise cause loc : Act α).Meets ctx yields fails ↔
      fails ⟨cause, loc⟩ ctx := Iff.rfl

@[simp] theorem meets_mismatch (fault : Mismatch) (loc : Location) :
    (mismatch fault loc : Act α).Meets ctx yields fails ↔
      fails ⟨.typeMismatch fault, loc⟩ ctx := Iff.rfl

@[simp] theorem meets_unsupported (construct : Unsupported) (loc : Location) :
    (unsupported construct loc : Act α).Meets ctx yields fails ↔
      fails ⟨.unsupported construct, loc⟩ ctx := Iff.rfl

theorem meets_attempt (res : Except Cause α) (loc : Location) :
    (attempt res loc).Meets ctx yields fails ↔ (∀ value, res = .ok value → yields value ctx) ∧
        ∀ cause, res = .error cause → fails ⟨cause, loc⟩ ctx := by
  cases res <;> simp [attempt]

theorem meets_attemptMemory (res : Except MemoryError α) (loc : Location) :
    (attemptMemory res loc).Meets ctx yields fails ↔ (∀ value, res = .ok value → yields value ctx) ∧
        ∀ error, res = .error error → fails ⟨.ofMemory error, loc⟩ ctx := by
  cases res <;> simp [attemptMemory]

@[simp] theorem meets_environment {yields : Environment → Context → Prop} :
    environment.Meets ctx yields fails ↔ yields ctx.env ctx := Iff.rfl

@[simp] theorem meets_setEnvironment (env : Environment) :
    (setEnvironment env).Meets ctx leaves fails ↔ leaves () { ctx with env } := Iff.rfl

@[simp] theorem meets_push :
    (push value).Meets ctx leaves fails ↔
      leaves () { ctx with values := value :: ctx.values } := Iff.rfl

theorem meets_pop {yields : Value → Context → Prop} {value}
    (opds : ctx.values = value :: below) : (pop loc).Meets ctx yields fails ↔
      yields value { ctx with values := below } := by
  simp only [pop, meets_bind, meets_get, opds, meets_set, meets_pure]

theorem meets_popMany {yields : List Value → Context → Prop}
    (enough : count ≤ ctx.values.length) : (popMany count loc).Meets ctx yields fails ↔
      yields (ctx.values.take count).reverse { ctx with values := ctx.values.drop count } := by
  simp only [popMany, meets_bind, meets_get, enough, if_true, meets_set, meets_pure]

@[simp] theorem meets_truncate (height : Nat) :
    (truncate height).Meets ctx leaves fails ↔ leaves () { ctx with
      values := ctx.values.drop (ctx.values.length - height) } := Iff.rfl

@[simp] theorem meets_schedule (frames : List Frame) :
    (schedule frames).Meets ctx leaves fails ↔
      leaves () { ctx with frames := frames ++ ctx.frames } := Iff.rfl

@[simp] theorem meets_openScope (kind : ScopeKind) :
    (openScope kind).Meets ctx leaves fails ↔
      leaves () { ctx with env := ctx.env.pushScope kind } := Iff.rfl

@[simp] theorem meets_closeScope :
    closeScope.Meets ctx leaves fails ↔
      leaves () { ctx with env := ctx.env.popScope } := Iff.rfl

theorem meets_truth {yields : Bool → Context → Prop} (loc : Location) :
    (truth value loc).Meets ctx yields fails ↔
      (∀ holds, value.truth? = some holds → yields holds ctx) ∧ (value.truth? = none →
          fails ⟨.typeMismatch (.condition value.typeName), loc⟩ ctx) := by
  unfold truth
  cases value.truth? <;> simp

theorem meets_convert {yields : Value → Context → Prop} (fw : Firmware) (value : Value)
    (type : DataType) (loc : Location) :
    (convert fw value type loc).Meets ctx yields fails ↔
      (∀ converted, (ctx.env.givenAs type value).convert fw.structs type =
          .ok converted → yields converted ctx) ∧
        ∀ cause, (ctx.env.givenAs type value).convert fw.structs type =
          .error cause → fails ⟨cause, loc⟩ ctx := by
  simp only [convert, meets_bind, meets_environment, meets_attempt, Environment.givenAs]

@[simp] theorem meets_varSet {yields : Effect → Context → Prop} (place : Place) (value : Value) :
    (varSet place value).Meets ctx yields fails ↔
      yields (.emit (.varSet (ctx.env.placeName place) (ctx.env.payload value)))
        ctx := Iff.rfl

end Act

end Breadboard
