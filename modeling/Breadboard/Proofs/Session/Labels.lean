import Breadboard.Proofs.Machine.Arithmetic
import Breadboard.Proofs.Session.Quiet

/-!
Constant expressions: literals, names, negations, operators and casts. `Firmware.Means` is what such
an expression comes to in the types of its parts. The label of a switch is computed in 64 bits
without casts. The two agree where no part leaves the range of its type.
-/

namespace Breadboard.Firmware

open Act

attribute [local simp] step runFrame

variable {n : Int64} {rank fuel : Nat}

def nameValue (fw : Firmware) (env : Environment) (name : String) : Except Cause Value :=
  match env.lookup? name with
  | some cell => (env.load (.of cell)).mapError Cause.ofMemory
  | none => fw.resolve name

/-- What a constant expression comes to. -/
inductive Means (fw : Firmware) (env : Environment) : NodeId → Except Cause Value → Prop where
  | intLiteral {node n unsigned} (kind : fw.program.kind node = .intLiteral n unsigned) :
      Means fw env node (.ok (.ofLiteral n unsigned))
  | charLiteral {node c} (kind : fw.program.kind node = .charLiteral c) :
      Means fw env node (.ok (.char c))
  | boolLiteral {node b} (kind : fw.program.kind node = .boolLiteral b) :
      Means fw env node (.ok (.bool b))
  | identifier {node name} (kind : fw.program.kind node = .identifier name) :
      Means fw env node (fw.nameValue env name)
  | neg {node operand out} (kind : fw.program.kind node = .unary .neg operand)
      (part : Means fw env operand out) : Means fw env node (out >>= UnaryOp.neg.apply)
  | binary {node left right op a b} (kind : fw.program.kind node = .binary op left right)
      (first : Means fw env left a) (second : Means fw env right b) :
      Means fw env node (do env.operate op (← a) (← b))
  | cast {node expr type out} (kind : fw.program.kind node = .cast type expr)
      (part : Means fw env expr out) : Means fw env node
        (out >>= fun value => (env.givenAs type value).convert fw.structs type)

variable {fw : Firmware} {env : Environment} {random : UInt64} {node part : NodeId}
  {out : Except Cause Value}

theorem Yields.finished (frame : Frame)
    (starts : result (fw.step ⟨env, [.eval node], [], random⟩ (.eval node) []) =
      .ok (.quiet, ⟨env, [.eval part, frame], [], random⟩))
    (finishes : ∀ value, result (fw.step ⟨env, [frame], [value], random⟩ frame []) =
      finish value >>= fun left => .ok (.quiet, ⟨env, [], [left], random⟩))
    (yields : fw.Yields env random part out) : fw.Yields env random node (out >>= finish) := by
  unfold Yields
  rw [bind_assoc]
  exact .scheduled rfl starts (yields.andThen fun value _ =>
    .computed rfl (finishes value) fun left _ => .gone rfl)

theorem Yields.name {name : String} (kind : fw.program.kind node = .identifier name) :
    fw.Yields env random node (fw.nameValue env name) := by
  refine Ends.computed rfl ?_ fun value _ => .gone rfl
  cases known : env.lookup? name <;>
    simp [eval, kind, evalName, known, nameValue]

theorem Means.yields (means : fw.Means env node out) (random : UInt64) :
    fw.Yields env random node out := by
  induction means with
  | intLiteral kind => exact .intLiteral kind
  | charLiteral kind | boolLiteral kind =>
    exact .pushed (by simp [eval, kind])
  | identifier kind => exact .name kind
  | @neg node operand _ kind _ yields =>
    refine yields.finished (.unary node) ?_ fun value => ?_
    · simp [eval, kind]
    · simp [runUnary, kind]
  | binary kind _ _ first second => exact .binary kind first second
  | @cast node expr _ _ kind _ yields =>
    refine yields.finished (.cast node) ?_ fun value => ?_
    · simp [eval, kind]
    · simp [runCast, kind]

theorem Means.unique (one : fw.Means env node out) (two : fw.Means env node other) : out = other :=
  (one.yields 0).unique (two.yields 0)

/-! Labels of a switch. -/

theorem exists_means_of_labelAt (constant : fw.labelAt env fuel node = .ok n) :
    ∃ out, fw.Means env node out := by
  induction fuel generalizing node n with
  | zero => cases constant
  | succ fuel ih =>
    simp only [labelAt] at constant
    split at constant
    · rename_i kind
      exact ⟨_, .intLiteral kind⟩
    · rename_i kind
      exact ⟨_, .charLiteral kind⟩
    · rename_i kind
      exact ⟨_, .boolLiteral kind⟩
    · rename_i kind
      exact ⟨_, .identifier kind⟩
    · rename_i kind
      obtain ⟨_, operand, -⟩ := bind_eq_ok.mp constant
      obtain ⟨_, part⟩ := ih operand
      exact ⟨_, .neg kind part⟩
    · rename_i kind
      obtain ⟨_, left, constant⟩ := bind_eq_ok.mp constant
      obtain ⟨_, right, -⟩ := bind_eq_ok.mp constant
      obtain ⟨_, first⟩ := ih left
      obtain ⟨_, second⟩ := ih right
      exact ⟨_, .binary kind first second⟩
    · rename_i kind
      obtain ⟨_, part⟩ := ih constant
      exact ⟨_, .cast kind part⟩
    · cases constant

/-- A constant expression is a number, and no part of it leaves the range of its type. -/
inductive Stays (fw : Firmware) (env : Environment) : NodeId → Nat → Int64 → Prop where
  | leaf {node value rank n} (childless : (fw.program.kind node).children = [])
      (means : fw.Means env node (.ok value)) (integral : value.Integral rank n) :
      Stays fw env node rank n
  | neg {node operand rank n} (kind : fw.program.kind node = .unary .neg operand)
      (part : Stays fw env operand rank n) (inside : InRank rank (-n)) : Stays fw env node rank (-n)
  | binary {node left right op a b l r n} (kind : fw.program.kind node = .binary op left right)
      (first : Stays fw env left a l) (second : Stays fw env right b r)
      (stays : op.Stays a b l r n) : Stays fw env node (op.resultRank a b) n
  | cast {node expr type rank n} (kind : fw.program.kind node = .cast type expr)
      (part : Stays fw env expr rank n) (single : type.isSingle = true)
      (has : type.base.Has n) : Stays fw env node type.base.integerRank n

theorem Stays.means (stays : fw.Stays env node rank n) :
    ∃ value, fw.Means env node (.ok value) ∧ value.Integral rank n := by
  induction stays with
  | leaf _ means integral => exact ⟨_, means, integral⟩
  | neg kind _ inside ih =>
    obtain ⟨value, part, integral⟩ := ih
    obtain ⟨negated, out, integral⟩ := integral.neg inside
    have means := Means.neg kind part
    rw [ok_bind, out] at means
    exact ⟨negated, means, integral⟩
  | binary kind _ _ stays one two =>
    obtain ⟨left, first, one⟩ := one
    obtain ⟨right, second, two⟩ := two
    obtain ⟨value, out, integral⟩ := one.operate two stays env
    have means := Means.binary kind first second
    rw [ok_bind, ok_bind, out] at means
    exact ⟨value, means, integral⟩
  | cast kind _ single has ih =>
    obtain ⟨value, part, integral⟩ := ih
    obtain ⟨converted, out, integral⟩ := integral.convert single has fw.structs env
    have means := Means.cast kind part
    rw [ok_bind, out] at means
    exact ⟨converted, means, integral⟩

theorem labelName_of_integral (known : fw.nameValue env name = .ok value)
    (integral : value.Integral rank n) : fw.labelName env name = .ok n := by
  have label : value.label = .ok n := by
    cases integral <;> rfl
  unfold labelName
  unfold nameValue at known
  cases found : env.lookup? name with rw [found] at known
  | none => simp only [known, ok_bind, label]
  | some cell =>
    cases resolved : env.resolve cell with
    | error error =>
      simp [Environment.load, Environment.read, Place.of, resolved, Except.mapError] at known
    | ok decl =>
      have held : env.read (.of cell) = .ok decl.value := by
        simp [Environment.read, Place.of, resolved, Value.read]
      have same : decl.value = value := by
        simp only [Environment.load, held, ok_bind] at known
        split at known
        · cases known
          cases integral
        · cases known
          rfl
      simp only [resolved, Except.map, Except.mapError, same, ok_bind, label]

theorem Stays.eq_label (stays : fw.Stays env node rank m)
    (constant : fw.labelAt env fuel node = .ok n) : m = n := by
  induction stays generalizing fuel n with
  | leaf childless means integral =>
    obtain _ | fuel := fuel
    · cases constant
    generalize same : Except.ok _ = out at means
    cases means with
    | intLiteral kind =>
      simp only [labelAt, kind] at constant
      cases same
      cases constant
      obtain ⟨_, literal⟩ := Value.ofLiteral_integral n _
      cases literal.whole.symm.trans integral.whole
      rfl
    | charLiteral kind | boolLiteral kind =>
      simp only [labelAt, kind] at constant
      cases same
      cases constant
      cases integral
      rfl
    | identifier kind =>
      simp only [labelAt, kind] at constant
      rw [labelName_of_integral same.symm integral] at constant
      cases constant
      rfl
    | neg kind | binary kind | cast kind =>
      rw [kind] at childless
      cases childless
  | neg kind _ inside ih =>
    obtain _ | fuel := fuel
    · cases constant
    simp only [labelAt, kind] at constant
    obtain ⟨_, operand, same⟩ := bind_eq_ok.mp constant
    cases same
    rw [ih operand]
  | binary kind _ _ stays one two =>
    obtain _ | fuel := fuel
    · cases constant
    simp only [labelAt, kind] at constant
    obtain ⟨_, left, constant⟩ := bind_eq_ok.mp constant
    obtain ⟨_, right, constant⟩ := bind_eq_ok.mp constant
    obtain ⟨wide, out, view⟩ := stays.result
    cases one left
    cases two right
    simp only [out, view] at constant
    cases constant
    rfl
  | cast kind _ _ _ ih =>
    obtain _ | fuel := fuel
    · cases constant
    simp only [labelAt, kind] at constant
    exact ih constant

/-! Selection. -/

/-- A switch comes to the arm with a position: its selector has a value, and the step behind goes on
with that arm. -/
def Selects (fw : Firmware) (ctx : Context) (node : NodeId) (arm : Nat) : Prop :=
  ∃ selector cases value next, fw.program.kind node = .switch selector cases ∧
    fw.Gives { ctx with frames := .switchSelect node :: ctx.frames } selector []
      { ctx with
        frames := .switchSelect node :: ctx.frames
        values := value :: ctx.values } ∧
    fw.step { ctx with
        frames := .switchSelect node :: ctx.frames
        values := value :: ctx.values } (.switchSelect node) ctx.frames = .ok .quiet next ∧
    next.frames = .switch node arm 0 :: ctx.frames

theorem position_le_of_selectArm
    (out : selectArm valueOf selector pos fallback arms = .ok (some arm)) :
    pos ≤ arm ∨ fallback = some arm := by
  induction arms generalizing pos fallback with
  | nil =>
    cases out
    exact .inr rfl
  | cons first rest ih =>
    simp only [selectArm] at out
    split at out
    · obtain ⟨n, -, out⟩ := bind_eq_ok.mp out
      split at out
      · cases out
        exact .inl (Nat.le_refl _)
      · rcases ih out with behind | default
        · exact .inl (Nat.le_of_succ_le behind)
        · exact .inr default
    · rcases ih out with behind | default
      · exact .inl (Nat.le_of_succ_le behind)
      · cases fallback with
        | none =>
          cases default
          exact .inl (Nat.le_refl _)
        | some => exact .inr default

section Selection

variable {ctx : Context} {label selector : NodeId} {n : Int64} {value : Value}
  {body : List NodeId} {rest : List SwitchCase}

theorem result_switchSelect (kind : fw.program.kind node = .switch selector cases)
    (whole : value.wholeNumber? = some n) :
    result (fw.step ⟨env, .switchSelect node :: frames, value :: values, random⟩
        (.switchSelect node) frames) = match selectArm (fw.labelValue env) n 0 none cases with
      | .error fault => .error fault.cause
      | .ok none => .ok (.quiet, ⟨env, frames, values, random⟩)
      | .ok (some arm) => .ok (.quiet,
          ⟨env.pushScope .block, .switch node arm 0 :: frames, values, random⟩) := by
  cases selected : selectArm (fw.labelValue env) n 0 none cases with
  | error => simp [runSwitchSelect, kind, whole, selected]
  | ok arm =>
    cases arm <;> simp [runSwitchSelect, kind, whole, selected]

theorem selects_first_iff
    (kind : fw.program.kind node = .switch selector (⟨some label, body⟩ :: rest))
    (constant : fw.labelValue ctx.env label = .ok n) :
    (∃ next, fw.step { ctx with
        frames := .switchSelect node :: ctx.frames
        values := value :: ctx.values } (.switchSelect node) ctx.frames = .ok .quiet next ∧
      next.frames = .switch node 0 0 :: ctx.frames) ↔ value.wholeNumber? = some n := by
  simp only [← result_eq_ok_iff]
  cases whole : value.wholeNumber? with
  | none =>
    refine ⟨?_, nofun⟩
    rintro ⟨next, out, -⟩
    simp [runSwitchSelect, kind, whole] at out
  | some m =>
    have first : selectArm (fw.labelValue ctx.env) m 0 none (⟨some label, body⟩ :: rest) =
        if n = m then .ok (some 0)
        else selectArm (fw.labelValue ctx.env) m 1 none rest := by
      simp only [selectArm, constant, ok_bind]
    rw [result_switchSelect kind whole, first, Option.some.injEq]
    by_cases same : n = m
    · rw [if_pos same]
      exact ⟨fun _ => same.symm, fun _ => ⟨_, rfl, rfl⟩⟩
    · rw [if_neg same]
      refine ⟨?_, fun equal => absurd equal.symm same⟩
      rintro ⟨next, out, left⟩
      split at out
      · cases out
      · cases out
        simp at left
      · rename_i arm selected
        cases out
        simp only [List.cons.injEq, Frame.switch.injEq, and_true, true_and] at left
        cases left
        simpa using position_le_of_selectArm selected

theorem gives_iff_means (means : fw.Means ctx.env node out) :
    (∃ value, fw.Gives ctx node [] { ctx with values := value :: ctx.values } ∧
      value.wholeNumber? = some n) ↔
    ∃ value, fw.Means ctx.env node (.ok value) ∧ value.wholeNumber? = some n := by
  constructor
  · rintro ⟨value, gives, whole⟩
    cases (means.yields ctx.random).eq_of_gives gives
    exact ⟨value, means, whole⟩
  · rintro ⟨value, means, whole⟩
    exact ⟨value, (means.yields ctx.random).gives, whole⟩

/-- A switch whose selector is the label of its first arm selects that arm just if the label has its
number also as an expression. -/
theorem selects_own_label_iff
    (kind : fw.program.kind node = .switch selector (⟨some label, body⟩ :: rest))
    (copies : fw.program.Copies label selector) (constant : fw.labelValue ctx.env label = .ok n) :
    fw.Selects ctx node 0 ↔
      ∃ value, fw.Means ctx.env label (.ok value) ∧ value.wholeNumber? = some n := by
  obtain ⟨out, means⟩ := exists_means_of_labelAt constant
  let waiting := { ctx with frames := .switchSelect node :: ctx.frames }
  have yields : fw.Yields waiting.env waiting.random selector out :=
    (means.yields ctx.random).copied copies
  constructor
  · rintro ⟨selector', cases', value, next, kind', gives, stepped, left⟩
    cases kind.symm.trans kind'
    cases yields.eq_of_gives gives
    exact ⟨value, means, (selects_first_iff kind constant).mp ⟨next, stepped, left⟩⟩
  · rintro ⟨value, meaning, whole⟩
    cases means.unique meaning
    obtain ⟨next, stepped, left⟩ := (selects_first_iff kind constant).mpr whole
    exact ⟨selector, _, value, next, kind, yields.gives, stepped, left⟩

variable {firmware : Firmware}

/-- A label whose number is known is an expression that only computes. It has that number just if
it means it in the types of its parts, and just then a switch with the label as its selector comes
to the arm of the label. This is so if no part of the label leaves the range of its type. -/
theorem label_agrees_iff (constant : firmware.labelValue context.env label = .ok n) :
    ((∃ value, firmware.Gives context label [] { context with values := value :: context.values } ∧
        value.wholeNumber? = some n) ↔
      ∃ value, firmware.Means context.env label (.ok value) ∧ value.wholeNumber? = some n) ∧
    (∀ node selector body rest,
      firmware.program.kind node = .switch selector (⟨some label, body⟩ :: rest) →
      firmware.program.Copies label selector →
      (firmware.Selects context node 0 ↔
        ∃ value, firmware.Means context.env label (.ok value) ∧ value.wholeNumber? = some n)) ∧
    ∀ rank m, firmware.Stays context.env label rank m →
      ∃ value, firmware.Means context.env label (.ok value) ∧ value.wholeNumber? = some n := by
  refine ⟨?_, ?_, ?_⟩
  · obtain ⟨outcome, means⟩ := exists_means_of_labelAt constant
    exact gives_iff_means means
  · intro node selector body rest kind copies
    exact selects_own_label_iff kind copies constant
  · intro rank m stays
    obtain ⟨value, means, integral⟩ := stays.means
    rw [stays.eq_label constant] at integral
    exact ⟨value, means, integral.whole⟩

end Selection

/-- The node 6 is a switch with `40 + 2` as its selector and as its label. -/
def dial : Firmware where
  program := {
    nodes := #[
      ⟨.intLiteral 40 false, ⟨2, 11⟩⟩,
      ⟨.intLiteral 2 false, ⟨2, 16⟩⟩, ⟨.binary .add 0 1, ⟨2, 14⟩⟩, ⟨.intLiteral 40 false, ⟨3, 10⟩⟩,
      ⟨.intLiteral 2 false, ⟨3, 15⟩⟩, ⟨.binary .add 3 4, ⟨3, 13⟩⟩,
      ⟨.switch 2 [⟨some 5, []⟩], ⟨2, 3⟩⟩]
    items := [] }

theorem dial_stays (env : Environment) : dial.Stays env 5 0 42 := by
  have left : dial.program.kind 3 = .intLiteral 40 false := rfl
  have right : dial.program.kind 4 = .intLiteral 2 false := rfl
  have stays : BinaryOp.add.Stays 0 0 40 2 42 := ⟨⟨_, rfl, rfl⟩, by decide, by decide⟩
  exact .binary rfl (.leaf rfl (.intLiteral left) (.int 40))
    (.leaf rfl (.intLiteral right) (.int 2)) stays

/-- In range, a label is its number and is selected by it. -/
theorem dial_selects :
    let context := Context.initial Session.defaultSeed
    dial.labelValue context.env 5 = .ok 42 ∧
      (∃ value, dial.Gives context 5 [] { context with values := value :: context.values } ∧
        value.wholeNumber? = some 42) ∧ dial.Selects context 6 0 := by
  intro context
  have constant : dial.labelValue context.env 5 = .ok 42 := rfl
  have copies : dial.program.Copies 5 2 := .binary rfl rfl (.leaf rfl rfl) (.leaf rfl rfl)
  obtain ⟨gives, selects, agrees⟩ := label_agrees_iff constant
  have means := agrees 0 42 (dial_stays _)
  exact ⟨constant, gives.mpr means, (selects 6 2 [] [] rfl copies).mpr means⟩

end Breadboard.Firmware
