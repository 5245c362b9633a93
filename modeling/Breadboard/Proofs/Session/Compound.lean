import Breadboard.Proofs.Session.Callee
import Breadboard.Proofs.Session.Indexing
import Breadboard.Proofs.Typing.Run

/-!
Compound assignments and increments. `t op= e` and `t = t op e` read the place of `t`, combine and
store in the same way, but the short form takes an array as it is where the long one takes a pointer
to its first element. So they differ in one case: an array of characters is a text beside a text,
and only the long form can append to it. `++t` and `--t` are `t += 1` and `t -= 1`.
-/

namespace Breadboard

open Environment Act BinaryOp

theorem mapError_eq_ok {ε δ α : Type} {res : Except ε α} {change : ε → δ} {value : α} :
    res.mapError change = .ok value ↔ res = .ok value := by
  cases res <;> simp [Except.mapError]

theorem BinaryOp.of_apply_eq_text {op : BinaryOp} (out : op.apply left right = .ok (.text str)) :
    op = .add ∧ joinsText left = true ∧ joinsText right = true ∧
      str = left.render ++ right.render := by
  unfold apply at out
  split at out
  · simp only [onPointer] at out
    split at out <;> repeat' first | cases out | split at out
  · split at out
    · unfold onText at out
      split at out
      · rename_i joins
        cases out
        simpa [and_assoc] using joins
      · split at out
        · split at out <;> cases out
        · cases out
    · split at out
      · simp only [shift] at out
        repeat' first | cases out | split at out
      · split at out
        · cases op <;> simp only [onInt32] at out <;>
            first | cases out | split at out <;> cases out
        · cases op <;> simp only [onUInt32] at out <;>
            first | cases out | split at out <;> cases out
        · cases op <;> simp only [onInt64] at out <;>
            first | cases out | split at out <;> cases out
        · simp only [onFloat] at out
          repeat' first | cases out | split at out
        · cases out

/-- The operator that an increment or decrement abbreviates. -/
def IncDecOp.binary (op : IncDecOp) : BinaryOp := if op.increments then .add else .sub

/-- Truth values, characters, integers and pointers. -/
def Value.counts : Value → Bool
  | .bool _ | .char _ | .int _ | .unsigned _ | .long _ | .pointer _ => true
  | _ => false

theorem BinaryOp.apply_int (op : BinaryOp) (a b : Int32) (plain : op ≠ .shl ∧ op ≠ .shr) :
    op.apply (.int a) (.int b) = op.onInt32 a b := by
  simp [apply, isPointer, isText, plain, Value.promote?, Value.rank?, Value.integer?]

theorem BinaryOp.apply_unsigned (op : BinaryOp) (a : UInt32) (b : Int32)
    (plain : op ≠ .shl ∧ op ≠ .shr) :
    op.apply (.unsigned a) (.int b) = op.onUInt32 a b.toInt64.toUInt64.toUInt32 := by
  simp [apply, isPointer, isText, plain, Value.promote?, Value.rank?, Value.integer?]

theorem stepped_eq_operate (op : IncDecOp) (counts : old.counts = true)
    (notChar : ∀ c, old ≠ .char c) : stepped env op old = env.operate op.binary old (.int 1) := by
  cases old with
  | char c => exact absurd rfl (notChar c)
  | bool b => cases op <;> cases b <;> rfl
  | int n =>
    have summed : env.operate op.binary (.int n) (.int 1) = op.binary.onInt32 n 1 := by
      rw [← apply_int _ _ _ (by cases op <;> decide)]
      cases op <;> rfl
    rw [summed]
    cases op <;> rfl
  | unsigned n =>
    have summed : env.operate op.binary (.unsigned n) (.int 1) = op.binary.onUInt32 n 1 := by
      rw [show (1 : UInt32) = (1 : Int32).toInt64.toUInt64.toUInt32 from rfl,
        ← apply_unsigned _ _ _ (by cases op <;> decide)]
      cases op <;> rfl
    rw [summed]
    cases op <;> rfl
  | long | pointer => cases op <;> rfl
  | _ => cases counts

namespace Firmware

attribute [local simp] step runFrame

/-- What a store leaves: the value as the place takes it, and memory with the value there. -/
def stored (fw : Firmware) (env : Environment) (place : Place) (value : Value) :
    Except Cause (Value × Environment) := do
  let type ← (env.placeType fw.structs place).mapError Cause.ofMemory
  let kept ← (env.givenAs type value).convert fw.structs type
  let final ← (env.write place kept).mapError Cause.ofMemory
  .ok (kept, final)

def assigned (fw : Firmware) (env : Environment) (place : Place) (value : Value) :
    Except Cause (Value × Environment) := do
  env.checkWritable place
  fw.stored env place value

def combined (fw : Firmware) (env : Environment) (op : BinaryOp) (place : Place)
    (operand : Value) : Except Cause (Value × Environment) := do
  env.checkWritable place
  let current ← (env.read place).mapError Cause.ofMemory
  fw.stored env place (← env.operate op current operand)

def moved (fw : Firmware) (env : Environment) (op : IncDecOp) (place : Place) :
    Except Cause (Value × Value × Environment) := do
  env.checkWritable place
  let old ← (env.read place).mapError Cause.ofMemory
  let kept ← fw.stored env place (← stepped env op old)
  .ok (old, kept)

def report (place : Place) (kept : Value × Environment) : Command :=
  .varSet (kept.2.placeName place) (kept.2.payload kept.1)

def settled (random : UInt64) (place : Place) (left : Value) (kept : Value × Environment) :
    List Command × Context :=
  ([report place kept], ⟨kept.2, [], [left], random⟩)

variable {fw : Firmware} {env : Environment} {random : UInt64} {node target value : NodeId}
  {op : BinaryOp} {place : Except Cause Place} {operand : Except Cause Value}

@[simp] theorem result_store (place : Place) (value : Value) (loc : Location)
    (frames : List Frame) (values : List Value) :
    result (store fw place value loc ⟨env, frames, values, random⟩) =
      fw.stored env place value >>= fun kept =>
        .ok ((kept.1, .emit (report place kept)), ⟨kept.2, frames, values, random⟩) := by
  simp [store, stored, report]

theorem Ends.settles {place : Place} {kept : α → Value × Environment} {left : α → Value}
    (stepped : result (fw.step ⟨env, [frame], values, random⟩ frame []) = out >>= fun made =>
        .ok (.emit (report place (kept made)), ⟨(kept made).2, [], [left made], random⟩)) :
    fw.Ends ⟨env, [frame], values, random⟩
      (out >>= fun made => .ok (settled random place (left made) (kept made))) :=
  .commanded rfl stepped fun _ => rfl

theorem Ends.assign {operand : Place → Except Cause Value}
    (kind : fw.program.kind node = .assign target value)
    (locates : fw.Locates env random target place)
    (yields : ∀ found, place = .ok found → fw.Yields env random value (operand found)) :
    fw.Ends ⟨env, [.eval node], [], random⟩ (do
      let place ← place
      let operand ← operand place
      let kept ← fw.assigned env place operand
      .ok (settled random place kept.1 kept)) := by
  have starts : result (fw.step ⟨env, [.eval node], [], random⟩ (.eval node) []) =
      .ok (.quiet, ⟨env, [.evalPlace target, .eval value, .assign node], [], random⟩) := by
    simp [eval, kind]
  refine .scheduled rfl starts (locates.andThen fun place found =>
    (yields place found).andThen fun operand _ => ?_)
  refine .settles ?_
  simp [runAssign, assigned]

theorem Ends.compoundAssign (kind : fw.program.kind node = .compoundAssign op target value)
    (locates : fw.Locates env random target place) (yields : fw.Yields env random value operand) :
    fw.Ends ⟨env, [.eval node], [], random⟩ (do
      let place ← place
      let operand ← operand
      let kept ← fw.combined env op place operand
      .ok (settled random place kept.1 kept)) := by
  have starts : result (fw.step ⟨env, [.eval node], [], random⟩ (.eval node) []) =
      .ok (.quiet, ⟨env, [.evalPlace target, .eval value, .compoundAssign node], [], random⟩) := by
    simp [eval, kind]
  refine .scheduled rfl starts (locates.andThen fun place _ => yields.andThen fun operand _ => ?_)
  refine .settles ?_
  simp [runCompoundAssign, kind, combined]

theorem Ends.incDec {op : IncDecOp} (kind : fw.program.kind node = .incDec op target)
    (locates : fw.Locates env random target place) :
    fw.Ends ⟨env, [.eval node], [], random⟩ (do
      let place ← place
      let made ← fw.moved env op place
      .ok (settled random place (if op.yieldsNew then made.2.1 else made.1) made.2)) := by
  have starts : result (fw.step ⟨env, [.eval node], [], random⟩ (.eval node) []) =
      .ok (.quiet, ⟨env, [.evalPlace target, .incDec node], [], random⟩) := by
    simp [eval, kind]
  refine .scheduled rfl starts (locates.andThen fun place _ => ?_)
  refine .settles ?_
  simp [runIncDec, kind, moved]

/-! The long form of a compound assignment. -/

def reassigned (fw : Firmware) (env : Environment) (op : BinaryOp) (place : Place)
    (operand : Value) : Except Cause (Value × Environment) := do
  let current ← (env.load place).mapError Cause.ofMemory
  fw.assigned env place (← env.operate op current operand)

/-- A text can be appended to the text in an array of characters, and the array takes it. -/
structure Lengthens (fw : Firmware) (env : Environment) (op : BinaryOp) (place : Place)
    (operand : Value) : Prop where
  adds : op = .add
  writable : env.checkWritable place = .ok ()
  fits : ∃ items old added kept, env.read place = .ok (.array items) ∧
    env.textAt? (place.index 0) = some old ∧ operand = .text added ∧
    fw.stored env place (.text (old ++ added)) = .ok kept

section Forms

variable {place : Place} {operand current : Value} {items : List Value}

theorem combined_of_single (held : env.read place = .ok current)
    (single : ∀ items, current ≠ .array items) :
    (fw.combined env op place operand).toOption =
      (fw.reassigned env op place operand).toOption := by
  rw [combined, reassigned, held, load_of_value held single]
  simp only [Except.mapError, ok_bind, assigned]
  cases env.checkWritable place <;> cases env.operate op current operand <;> rfl

theorem combined_of_error (fails : env.read place = .error error) :
    (fw.combined env op place operand).toOption =
      (fw.reassigned env op place operand).toOption := by
  rw [combined, reassigned, fails, load_of_error fails]
  cases env.checkWritable place <;> rfl

theorem stored_of_array (typed : env.Typed fw.structs) (held : env.read place = .ok (.array items))
    {value : Value} (single : ∀ items, value ≠ .array items)
    (out : fw.stored env place value = .ok kept) : ∃ str, value = .text str := by
  obtain ⟨type, placed, out⟩ := bind_eq_ok.mp out
  obtain ⟨converted, out, -⟩ := bind_eq_ok.mp out
  have inhabits := typed.inhabits (mapError_eq_ok.mp placed) held
  obtain ⟨dim, dims, shape, -⟩ := Inhabits.array_iff.mp inhabits
  have isArray : type.isArray = true := by
    simp [DataType.isArray, shape]
  have given : env.givenAs type value = value := by
    simp [givenAs, isArray]
  rw [given] at out
  cases value with
  | array items => exact absurd rfl (single items)
  | text str => exact ⟨str, rfl⟩
  | _ => simp [Value.convert, isArray] at out

theorem operate_pointer_eq_text_iff : env.operate op (.pointer pointee) operand = .ok (.text str) ↔
      op = .add ∧ ∃ old added, env.textAt? pointee = some old ∧ operand = .text added ∧
        str = old ++ added := by
  constructor
  · intro out
    unfold operate at out
    generalize opds : env.textOperands (.pointer pointee) operand = pair at out
    obtain ⟨left, right⟩ := pair
    dsimp only at out
    split at out
    · cases moved : env.offsetPlace _ _ with
      | error | ok => rw [moved] at out; cases out
    · obtain ⟨adds, joins, -, rfl⟩ := of_apply_eq_text out
      cases operand with
      | text added =>
        cases held : env.textAt? pointee with simp only [textOperands, textOf, held] at opds
        | none =>
          cases opds
          cases joins
        | some old =>
          cases opds
          exact ⟨adds, old, added, rfl, rfl, rfl⟩
      | _ =>
        cases opds
        cases joins
  · rintro ⟨rfl, old, added, held, rfl, rfl⟩
    simp only [operate, textOperands, textOf, held]
    rfl

theorem operate_ne_array (made : env.operate op left operand = .ok current) :
    ∀ items, current ≠ .array items := by
  have stems := (env.operate_answers op left operand).of_ok made
  rintro items rfl
  cases stems with
  | bare bare => cases bare

variable (typed : env.Typed fw.structs)
include typed

/-- An array itself takes part in no operation, so that nothing is stored in its place. -/
theorem combined_of_array (held : env.read place = .ok (.array items)) :
    ∃ cause, fw.combined env op place operand = .error cause := by
  cases out : fw.combined env op place operand with
  | error cause => exact ⟨cause, rfl⟩
  | ok kept =>
    obtain ⟨-, -, out⟩ := bind_eq_ok.mp out
    obtain ⟨current, found, out⟩ := bind_eq_ok.mp out
    obtain ⟨value, made, stores⟩ := bind_eq_ok.mp out
    cases held.symm.trans (mapError_eq_ok.mp found)
    obtain ⟨str, rfl⟩ := stored_of_array typed held (operate_ne_array made) stores
    have applied : env.operate op (.array items) operand = op.apply (.array items) operand := by
      cases operand <;> cases op <;> rfl
    obtain ⟨-, joins, -⟩ := of_apply_eq_text (applied ▸ made)
    cases joins

theorem reassigned_of_array (held : env.read place = .ok (.array items)) :
    (∃ kept, fw.reassigned env op place operand = .ok kept) ↔
      fw.Lengthens env op place operand := by
  have loaded := load_of_array held
  constructor
  · rintro ⟨kept, out⟩
    obtain ⟨current, found, out⟩ := bind_eq_ok.mp out
    obtain ⟨value, made, out⟩ := bind_eq_ok.mp out
    obtain ⟨_, writable, stores⟩ := bind_eq_ok.mp out
    cases loaded.symm.trans (mapError_eq_ok.mp found)
    obtain ⟨str, rfl⟩ := stored_of_array typed held (operate_ne_array made) stores
    obtain ⟨adds, old, added, text, isText, rfl⟩ := operate_pointer_eq_text_iff.mp made
    exact ⟨adds, writable, items, old, added, kept, held, text, isText, stores⟩
  · rintro ⟨adds, writable, _, old, added, kept, -, text, isText, out⟩
    have made : env.operate op (.pointer (place.index 0)) operand = .ok (.text (old ++ added)) :=
      operate_pointer_eq_text_iff.mpr ⟨adds, old, added, text, isText, rfl⟩
    refine ⟨kept, ?_⟩
    simp [reassigned, assigned, loaded, Except.mapError, made, writable, out]

theorem combined_eq_reassigned_iff : (fw.combined env op place operand).toOption =
        (fw.reassigned env op place operand).toOption ↔
      ¬ fw.Lengthens env op place operand := by
  have single (held : ∀ items, env.read place ≠ .ok (.array items)) :
      ¬ fw.Lengthens env op place operand := by
    rintro ⟨-, -, items, _, _, _, found, -⟩
    exact held items found
  cases held : env.read place with
  | error error =>
    exact ⟨fun _ => single (by simp [held]), fun _ => combined_of_error held⟩
  | ok current =>
    by_cases isArray : ∃ items, current = .array items
    · obtain ⟨items, rfl⟩ := isArray
      obtain ⟨cause, fails⟩ : ∃ cause, fw.combined env op place operand = .error cause :=
        combined_of_array typed held
      rw [fails, ← reassigned_of_array typed held]
      cases fw.reassigned env op place operand <;> simp [Except.toOption]
    · have notArray : ∀ items, current ≠ .array items := fun items same => isArray ⟨items, same⟩
      refine ⟨fun _ => single fun items found => ?_, fun _ => combined_of_single held notArray⟩
      exact notArray items (Except.ok.inj (held.symm.trans found))

theorem stored_int_of_char (held : env.read place = .ok (.char c)) (n : Int32) :
    fw.stored env place (.int n) = fw.stored env place (.char n.toInt64.toInt8) := by
  unfold stored
  cases placed : env.placeType fw.structs place with
  | error => rfl
  | ok type =>
    cases typed.inhabits placed held with
    | scalar single base =>
      generalize isChar : type.base = shape at base
      cases base
      have taken (value : Value) (n : Int64) (whole : value.truncated? = some n) :
          (env.givenAs type value).convert fw.structs type = .ok (.char n.toInt8) := by
        have given : env.givenAs type value = value := by
          simp [givenAs, isChar]
        rw [given, Value.convert_integer single (by rw [isChar]; rfl) whole, isChar]
        rfl
      simp only [Except.mapError, ok_bind]
      rw [taken (.int n) _ rfl, taken (.char n.toInt64.toInt8) _ rfl, Int8.toInt8_toInt64]

theorem moved_eq_combined (op : IncDecOp) (held : env.read place = .ok old)
    (counts : old.counts = true) : fw.moved env op place =
      fw.combined env op.binary place (.int 1) >>= fun kept => .ok (old, kept) := by
  have same : (stepped env op old >>= fw.stored env place) =
      env.operate op.binary old (.int 1) >>= fw.stored env place := by
    cases old with
    | char c =>
      have summed : env.operate op.binary (.char c) (.int 1) =
          .ok (.int (if op.increments then c.toInt64.toInt32 + 1
            else c.toInt64.toInt32 - 1)) := by
        cases op <;> rfl
      rw [summed, ok_bind, stored_int_of_char typed held]
      cases op <;> simp [stepped, IncDecOp.apply, IncDecOp.increments]
    | _ => rw [stepped_eq_operate op counts nofun]
  calc fw.moved env op place
      = env.checkWritable place >>= fun _ => (stepped env op old >>= fw.stored env place)
          >>= fun kept => .ok (old, kept) := by
        simp [moved, held, Except.mapError]
    _ = _ := by
        simp [same, combined, held, Except.mapError]

end Forms

theorem toOption_settled_iff {place : Place} {one two : Except Cause (Value × Environment)} :
    (one >>= fun kept => .ok (settled random place kept.1 kept)).toOption =
        (two >>= fun kept => .ok (settled random place kept.1 kept)).toOption ↔
      one.toOption = two.toOption := by
  cases one with
  | error => cases two <;> simp [Except.toOption]
  | ok kept =>
    cases two with
    | error => simp [Except.toOption]
    | ok kept' =>
      obtain ⟨left, final⟩ := kept
      obtain ⟨left', final'⟩ := kept'
      simp only [settled, report, Except.toOption, ok_bind, Option.some.injEq, Prod.mk.injEq,
        Context.mk.injEq, List.cons.injEq, and_true, true_and]
      constructor
      · rintro ⟨-, rfl, rfl⟩
        exact ⟨rfl, rfl⟩
      · rintro ⟨rfl, rfl⟩
        exact ⟨rfl, rfl, rfl⟩

end Firmware

namespace Program

/-- One node is `t op= e` and another is `t = t op e`. -/
structure Abbreviates (prog : Program) (op : BinaryOp) (target value short long : NodeId) :
    Prop where
  short : prog.kind short = .compoundAssign op target value
  long : ∃ target' sum again value', prog.kind long = .assign target' sum ∧
    prog.kind sum = .binary op again value' ∧ prog.Copies target target' ∧
    prog.Copies target again ∧ prog.Copies value value'

/-- One node increments or decrements `t` and another is `t += 1` or `t -= 1`. -/
structure Increments (prog : Program) (op : IncDecOp) (target counted short : NodeId) :
    Prop where
  counted : prog.kind counted = .incDec op target
  short : ∃ target' one, prog.kind short = .compoundAssign op.binary target' one ∧
    prog.kind one = .intLiteral 1 false ∧ prog.Copies target target'

end Program

namespace Firmware

section Outcomes

variable {fw : Firmware} {ctx : Context} {target value short long counted : NodeId}
  {op : BinaryOp} {place : Except Cause Place} {operand : Except Cause Value}

section

variable (typed : ctx.env.Typed fw.structs)
include typed

theorem sameOutcome_of_abbreviates (forms : fw.program.Abbreviates op target value short long)
    (locates : fw.Locates ctx.env ctx.random target place)
    (yields : fw.Yields ctx.env ctx.random value operand) :
    fw.SameOutcome ctx short long ↔ ¬ ∃ found given, place = .ok found ∧
      operand = .ok given ∧ fw.Lengthens ctx.env op found given := by
  obtain ⟨target', sum, again, value', assign, binary, copies, repeats, copiesValue⟩ := forms.long
  have sums (found : Place) (located : place = .ok found) :
      fw.Yields ctx.env ctx.random sum (do
        ctx.env.operate op (← (ctx.env.load found).mapError Cause.ofMemory) (← operand)) := by
    subst located
    exact .binary binary (locates.copied repeats).yields (yields.copied copiesValue)
  have shortly := Ends.compoundAssign forms.short locates yields
  have atLength := Ends.assign assign (locates.copied copies) sums
  rw [sameOutcome_iff shortly atLength]
  cases place with
  | error => simp [Except.toOption]
  | ok found =>
    cases operand with
    | error =>
      simp only [ok_bind]
      cases (ctx.env.load found).mapError Cause.ofMemory <;> simp [Except.toOption]
    | ok given =>
      have reads : (do
          let operand ← ctx.env.operate op
            (← (ctx.env.load found).mapError Cause.ofMemory) given
          let kept ← fw.assigned ctx.env found operand
          Except.ok (settled ctx.random found kept.1 kept)) =
          fw.reassigned ctx.env op found given >>= fun kept =>
            .ok (settled ctx.random found kept.1 kept) := by
        simp [reassigned]
      simp only [ok_bind, bind_assoc] at reads ⊢
      rw [reads, toOption_settled_iff, combined_eq_reassigned_iff typed]
      simp

theorem refuses_of_lengthens (kind : fw.program.kind short = .compoundAssign op target value)
    (locates : fw.Locates ctx.env ctx.random target (.ok found))
    (yields : fw.Yields ctx.env ctx.random value (.ok given))
    (lengthens : fw.Lengthens ctx.env op found given) : fw.Refuses ctx short := by
  obtain ⟨items, _, _, _, held, -⟩ := lengthens.fits
  obtain ⟨cause, fails⟩ : ∃ cause, fw.combined ctx.env op found given = .error cause :=
    combined_of_array typed held
  have ends := Ends.compoundAssign kind locates yields
  simp only [ok_bind, fails, error_bind] at ends
  exact ends.refuses

theorem outcomes_of_increments {op : IncDecOp}
    (forms : fw.program.Increments op target counted short)
    (locates : fw.Locates ctx.env ctx.random target (.ok found))
    (held : ctx.env.read found = .ok old) (counts : old.counts = true) :
    fw.Refuses ctx counted ∧ fw.Refuses ctx short ∨ ∃ commands env new, fw.Gives ctx short commands
          { ctx with env, values := new :: ctx.values } ∧
        fw.Gives ctx counted commands { ctx with
          env, values := (if op.yieldsNew then new else old) :: ctx.values } := by
  obtain ⟨target', one, assign, literal, copies⟩ := forms.short
  have yields : fw.Yields ctx.env ctx.random one (.ok (.int 1)) := .intLiteral literal
  have shortly := Ends.compoundAssign assign (locates.copied copies) yields
  have counting := Ends.incDec forms.counted locates
  simp only [ok_bind, moved_eq_combined typed op held counts, bind_assoc] at shortly counting
  cases out : fw.combined ctx.env op.binary found (.int 1) with rw [out] at shortly counting
  | error cause => exact .inl ⟨counting.refuses, shortly.refuses⟩
  | ok kept => exact .inr ⟨_, _, _, shortly.gives, counting.gives⟩

end

variable {firmware : Firmware}

/-- In every context of a run, `t op= e` and `t = t op e` end alike for parts that only compute, and
fail if one of these does, unless a text is appended to the text in an array of characters that can
take it: then only the long form succeeds. Where `t` holds a truth value, a character, an integer or
a pointer, an increment fails with its compound assignment, or it gives the same commands, leaves
the same memory, and its value is the new or the old one as its operator says. -/
theorem compoundAssign_agrees_iff {pending : Option Request} (acyclic : Acyclic firmware.structs)
    (computes : firmware.library.Computes firmware.structs)
    (reached : firmware.Reaches pending context)
    (locates : firmware.Locates context.env context.random target place) :
    (∀ op value operand short long,
      firmware.Yields context.env context.random value operand →
      firmware.program.Abbreviates op target value short long →
      (firmware.SameOutcome context short long ↔ ¬ ∃ found given, place = .ok found ∧
        operand = .ok given ∧ firmware.Lengthens context.env op found given) ∧
      ∀ found given, place = .ok found → operand = .ok given →
        firmware.Lengthens context.env op found given → firmware.Refuses context short) ∧
    ∀ op counted short found old, firmware.program.Increments op target counted short →
      place = .ok found → context.env.read found = .ok old → old.counts = true →
      firmware.Refuses context counted ∧ firmware.Refuses context short ∨
        ∃ commands env new,
          firmware.Gives context short commands
            { context with env, values := new :: context.values } ∧
          firmware.Gives context counted commands { context with
            env, values := (if op.yieldsNew then new else old) :: context.values } := by
  have typed : context.env.Typed firmware.structs := (reached.typed acyclic computes).env
  constructor
  · intro op value operand short long yields forms
    refine ⟨sameOutcome_of_abbreviates typed forms locates yields, ?_⟩
    rintro found given rfl rfl lengthens
    exact refuses_of_lengthens typed forms.short locates yields lengthens
  · rintro op counted short found old forms rfl held counts
    exact outcomes_of_increments typed forms locates held counts

end Outcomes

/-- A sketch with a text in an array and a counter. The nodes 6 and 11 are `note += "x"` and
`note = note + "x"`, the nodes 13, 16 and 21 are `count++`, `count += 1` and `count = count + 1`. -/
def tally : Firmware where
  program := {
    nodes := #[
      ⟨.stringLiteral "ab", ⟨1, 16⟩⟩,
      ⟨.varDecl "note" { base := .char, dims := [some 8] } (some 0) false false, ⟨1, 1⟩⟩,
      ⟨.intLiteral 5 false, ⟨2, 13⟩⟩, ⟨.varDecl "count" (.of .int) (some 2) false false, ⟨2, 1⟩⟩,
      ⟨.identifier "note", ⟨4, 3⟩⟩, ⟨.stringLiteral "x", ⟨4, 11⟩⟩,
      ⟨.compoundAssign .add 4 5, ⟨4, 3⟩⟩, ⟨.identifier "note", ⟨5, 3⟩⟩,
      ⟨.identifier "note", ⟨5, 10⟩⟩, ⟨.stringLiteral "x", ⟨5, 17⟩⟩, ⟨.binary .add 8 9, ⟨5, 15⟩⟩,
      ⟨.assign 7 10, ⟨5, 3⟩⟩, ⟨.identifier "count", ⟨6, 3⟩⟩, ⟨.incDec .postInc 12, ⟨6, 8⟩⟩,
      ⟨.identifier "count", ⟨7, 3⟩⟩, ⟨.intLiteral 1 false, ⟨7, 12⟩⟩,
      ⟨.compoundAssign .add 14 15, ⟨7, 3⟩⟩, ⟨.identifier "count", ⟨8, 3⟩⟩,
      ⟨.identifier "count", ⟨8, 11⟩⟩, ⟨.intLiteral 1 false, ⟨8, 19⟩⟩, ⟨.binary .add 18 19, ⟨8, 17⟩⟩,
      ⟨.assign 17 20, ⟨8, 3⟩⟩, ⟨.exprStmt 6, ⟨4, 3⟩⟩, ⟨.exprStmt 11, ⟨5, 3⟩⟩,
      ⟨.exprStmt 13, ⟨6, 3⟩⟩, ⟨.exprStmt 16, ⟨7, 3⟩⟩, ⟨.exprStmt 21, ⟨8, 3⟩⟩,
      ⟨.block [22, 23, 24, 25, 26], ⟨3, 14⟩⟩, ⟨.functionDef "setup" [] (.of .void) 27, ⟨3, 1⟩⟩]
    items := [1, 3, 28] }

def tallying : Context := (tally.callRun (.initial Session.defaultSeed) [] [] 12).context

theorem tallying_reached : tally.Reaches none tallying := by
  refine (Reaches.start.callRun [] [] 12).going ?_
  decide +kernel

theorem tally_acyclic : Acyclic tally.structs :=
  .of_flat (by simp [show tally.structs = [] from rfl])

theorem tallying_note : tally.Locates tallying.env tallying.random 4 (.ok (.of (.global 1))) ∧
      tally.Yields tallying.env tallying.random 5 (.ok (.text "x")) ∧
      tally.program.Abbreviates .add 4 5 6 11 :=
  ⟨.identifier rfl rfl, .pushed rfl, rfl,
    7, 10, 8, 9, rfl, rfl, .leaf rfl rfl, .leaf rfl rfl, .leaf rfl rfl⟩

theorem tallying_lengthens : tally.Lengthens tallying.env .add (.of (.global 1)) (.text "x") where
  adds := rfl
  writable := rfl
  fits := ⟨_, "ab", "x", _, rfl, by decide +kernel, rfl, rfl⟩

theorem tallying_count (kind : tally.program.kind node = .identifier "count") :
    tally.Locates tallying.env tallying.random node (.ok (.of (.global 2))) :=
  .identifier kind rfl

theorem tally_count_forms :
    tally.program.Abbreviates .add 14 15 16 21 ∧ tally.program.Increments .postInc 12 13 16 :=
  ⟨⟨rfl, 17, 20, 18, 19, rfl, rfl, .leaf rfl rfl, .leaf rfl rfl, .leaf rfl rfl⟩,
    ⟨rfl, 14, 15, rfl, rfl, .leaf rfl rfl⟩⟩

/-- `count += 1` and `count = count + 1` end alike, and `count++` does the same and has the value 5.
The text can not be lengthened in the short way. -/
theorem tally_steps :
    Acyclic tally.structs ∧ tally.library.Computes tally.structs ∧ tally.Reaches none tallying ∧
      tally.SameOutcome tallying 16 21 ∧
      (∃ commands env new,
        tally.Gives tallying 16 commands { tallying with env, values := new :: tallying.values } ∧
        tally.Gives tallying 13 commands
          { tallying with env, values := .int 5 :: tallying.values }) ∧
      tally.Refuses tallying 6 := by
  have computes := Library.standard_computes tally.structs
  obtain ⟨long, increments⟩ := tally_count_forms
  obtain ⟨note, added, appends⟩ := tallying_note
  have literal : tally.Yields tallying.env tallying.random 15 (.ok (.int 1)) := .pushed rfl
  have agree {node : NodeId} {place : Place}
      (locates : tally.Locates tallying.env tallying.random node (.ok place)) :=
    compoundAssign_agrees_iff tally_acyclic computes tallying_reached locates
  refine ⟨tally_acyclic, computes, tallying_reached, ?_, ?_, ?_⟩
  · refine ((agree (tallying_count rfl)).1 _ _ _ _ _ literal long).1.mpr ?_
    rintro ⟨_, _, ⟨rfl⟩, ⟨rfl⟩, lengthens⟩
    obtain ⟨_, _, _, _, held, -⟩ := lengthens.fits
    cases held
  · have ends := Ends.compoundAssign long.short (tallying_count rfl) literal
    obtain ⟨kept, counted⟩ : ∃ kept, tally.combined tallying.env .add (.of (.global 2)) (.int 1) =
        .ok kept := ⟨_, rfl⟩
    simp only [ok_bind, counted] at ends
    refine ((agree (tallying_count rfl)).2 _ _ _ _ _ increments rfl rfl rfl).resolve_left ?_
    exact fun refused => ends.gives.not_refuses refused.2
  · exact ((agree note).1 _ _ _ _ _ added appends).2 _ _ rfl rfl tallying_lengthens

end Firmware

end Breadboard
