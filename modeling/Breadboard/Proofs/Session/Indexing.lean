import Breadboard.Proofs.Memory.ReadWrite
import Breadboard.Proofs.Session.Callee
import Breadboard.Proofs.Session.Quiet

/-!
Indexing and pointer arithmetic. `a[i]` finds the element from the place of `a`, while `*(a + i)`
takes the value of `a`, adds to it and follows what comes out. For whatever a variable holds the two
come to the same, with one exception: a text can be indexed, but a number that is added to it is
appended, and a text cannot be followed.
-/

namespace Breadboard

open Act Text

def Value.pointee : Value → Except Cause Place
  | .pointer place => .ok place
  | .null => .error .nullDereference
  | value => .error (.typeMismatch (.notDereferenceable value.typeName))

namespace Firmware

variable {fw : Firmware} {env : Environment} {random : UInt64} {node array pos operand : NodeId}

theorem Locates.index (kind : fw.program.kind node = .index array pos)
    (placed : fw.hasPlace env array = true) (base : fw.Locates env random array out)
    (yields : fw.Yields env random pos (.ok value)) (whole : value.wholeNumber? = some n) :
    fw.Locates env random node (out >>= fun place => env.elementOf place n) := by
  have starts : result (fw.step ⟨env, [.evalPlace node], [], random⟩ (.evalPlace node) [])
      = .ok (.quiet, ⟨env, [.evalPlace array, .eval pos, .indexPlace node true], [], random⟩) := by
    simp [step, runFrame, evalPlace, kind, operand, placed]
  have finishes (place : Place) : result (fw.step
      ⟨env, [.indexPlace node true], [value, .pointer place], random⟩ (.indexPlace node true) []) =
        env.elementOf place n >>= fun found =>
          .ok (.quiet, ⟨env, [], [.pointer found], random⟩) := by
    simp [step, runFrame, runIndexPlace, whole]
  unfold Locates
  rw [bind_assoc]
  exact .scheduled rfl starts (base.andThen fun place _ =>
    yields.ok_then (.computed rfl (finishes place) fun found _ => .gone rfl))

theorem Locates.deref (kind : fw.program.kind node = .unary .deref operand)
    (unplaced : fw.hasPlace env operand = false) (yields : fw.Yields env random operand out) :
    fw.Locates env random node (out >>= Value.pointee) := by
  have starts : result (fw.step ⟨env, [.evalPlace node], [], random⟩ (.evalPlace node) [])
      = .ok (.quiet, ⟨env, [.eval operand, .derefPlace node false], [], random⟩) := by
    simp [step, runFrame, evalPlace, kind, Firmware.operand, unplaced]
  have finishes (value : Value) : result (fw.step
      ⟨env, [.derefPlace node false], [value], random⟩ (.derefPlace node false) []) =
        value.pointee >>= fun found => .ok (.quiet, ⟨env, [], [.pointer found], random⟩) := by
    cases value <;> simp [step, runFrame, runDerefPlace, Value.pointee]
  unfold Locates
  rw [bind_assoc]
  exact .scheduled rfl starts (yields.andThen fun value _ =>
    .computed rfl (finishes value) fun found _ => .gone rfl)

end Firmware

namespace Environment

variable {env : Environment} {place : Place} {value : Value} {n : Int64} {items : List Value}
  {error : MemoryError} {pointee : Place} {stored : Value}

def indexed (env : Environment) (place : Place) (n : Int64) : Except Cause Value := do
  (env.load (← env.elementOf place n)).mapError Cause.ofMemory

def reached (env : Environment) (place : Place) (value : Value) : Except Cause Value := do
  let sum ← env.operate .add (← (env.load place).mapError Cause.ofMemory) value
  (env.load (← sum.pointee)).mapError Cause.ofMemory

theorem load_of_array (held : env.read place = .ok (.array items)) :
    env.load place = .ok (.pointer (place.index 0)) := by
  rw [load, held]
  rfl

theorem load_of_value (held : env.read place = .ok value) (single : ∀ items, value ≠ .array items) :
    env.load place = .ok value := by
  rw [load, held]
  cases value with
  | array items => exact absurd rfl (single items)
  | _ => rfl

theorem load_of_error (fails : env.read place = .error error) : env.load place = .error error := by
  rw [load, fails]
  rfl

theorem offsetPlace_first (forward : 0 ≤ n.toInt) :
    env.offsetPlace (place.index 0) n = .ok (place.index n.toInt.toNat) := by
  have within : n.toInt ≤ Int64.maxValue.toInt := n.toInt_le
  unfold offsetPlace
  split
  · rename_i zero
    rw [zero]
    rfl
  · simp [Place.lastIndex?, Place.offset?, Place.index, Place.container, forward, within]

theorem offsetPlace_first_of_neg (backward : n.toInt < 0) :
    ∃ cause, env.offsetPlace (place.index 0) n = .error cause := by
  have nonzero : n ≠ 0 := by
    rintro rfl
    cases backward
  simp [offsetPlace, nonzero, Place.lastIndex?, Place.offset?, Place.index, Int.not_le.mpr backward]

theorem reached_of_error (fails : env.read place = .error error) :
    (env.reached place value).toOption = (env.indexed place n).toOption := by
  rw [reached, indexed, load_of_error fails, elementOf, fails]
  rfl

section

variable (whole : value.wholeNumber? = some n)
include whole

theorem operate_add_pointer (pointee : Place) : env.operate .add (.pointer pointee) value =
      env.offsetPlace pointee n >>= fun moved => .ok (.pointer moved) := by
  cases value with
  | text => cases whole
  | _ =>
    simp only [operate, textOperands, pointerOffset?, whole, Option.map_some]
    cases env.offsetPlace pointee n <;> rfl

/-- A pointer that the variable holds or stands for is moved and followed. -/
theorem reached_of_load
    (loaded : env.load place = .ok (.pointer pointee)) : env.reached place value =
      env.offsetPlace pointee n >>= fun moved => (env.load moved).mapError Cause.ofMemory := by
  rw [reached, loaded]
  simp only [Except.mapError, ok_bind, operate_add_pointer whole, bind_assoc]
  rfl

theorem reached_of_array (held : env.read place = .ok (.array items)) :
    (env.reached place value).toOption = (env.indexed place n).toOption := by
  rw [reached_of_load whole (load_of_array held), indexed, elementOf, held]
  dsimp only
  rcases Int.lt_or_le n.toInt 0 with backward | forward
  · obtain ⟨cause, fails⟩ := offsetPlace_first_of_neg backward
    rw [fails, if_pos]
    · rfl
    · simp [Int64.lt_iff_toInt_lt, backward]
  · rw [offsetPlace_first forward, ok_bind]
    split
    · rename_i outside
      have beyond : items.length ≤ n.toInt.toNat := by
        simpa [Int64.lt_iff_toInt_lt, Int.not_lt.mpr forward] using outside
      have fails : env.read (place.index n.toInt.toNat) =
          .error (.indexOutOfBounds n.toInt.toNat items.length) := by
        rw [read_index held nofun, Value.step, List.getElem?_eq_none beyond]
      rw [load_of_error fails]
      rfl
    · rfl

theorem reached_of_pointer (held : env.read place = .ok (.pointer pointee)) :
    env.reached place value = env.indexed place n := by
  rw [reached_of_load whole (load_of_value held nofun), indexed, elementOf, held]

/-- An operator yields no pointer but by moving one, so that nothing else can be followed. -/
theorem reached_of_other (held : env.read place = .ok stored)
    (single : ∀ items, stored ≠ .array items) (other : ∀ pointee, stored ≠ .pointer pointee) :
    ∃ cause, env.reached place value = .error cause := by
  have applied : env.operate .add stored value = BinaryOp.add.apply stored value := by
    cases stored with
    | pointer pointee => exact absurd rfl (other pointee)
    | _ =>
      cases value with
      | pointer => cases whole
      | _ => rfl
  rw [reached, load_of_value held single]
  simp only [Except.mapError, ok_bind, applied]
  cases out : BinaryOp.add.apply stored value with
  | error cause => exact ⟨cause, rfl⟩
  | ok sum =>
    have bare : sum.isBare = true := (BinaryOp.apply_answers .add stored value).of_ok out
    cases sum with
    | pointer => cases bare
    | _ => exact ⟨_, rfl⟩

end

theorem indexed_of_other (held : env.read place = .ok stored)
    (single : ∀ items, stored ≠ .array items) (other : ∀ pointee, stored ≠ .pointer pointee)
    (noText : ∀ text, stored ≠ .text text) : ∃ cause, env.indexed place n = .error cause := by
  rw [indexed, elementOf, held]
  cases stored with
  | array items => exact absurd rfl (single items)
  | pointer pointee => exact absurd rfl (other pointee)
  | text text => exact absurd rfl (noText text)
  | _ => exact ⟨_, rfl⟩

theorem indexed_of_text (held : env.read place = .ok (.text text)) :
    (env.indexed place n).toOption = if 0 ≤ n.toInt ∧ n.toInt.toNat ≤ size text then
        some (.char ((bytes text)[n.toInt.toNat]?.getD 0).toInt8) else none := by
  rw [indexed, elementOf, held]
  simp only [Int64.lt_iff_toInt_lt, Bool.or_eq_true, decide_eq_true_eq]
  split
  · rename_i outside
    have beyond : ¬ (0 ≤ n.toInt ∧ n.toInt.toNat ≤ size text) := by
      rw [Int64.toInt_zero] at outside
      omega
    rw [if_neg beyond]
    rfl
  · rename_i inside
    have within : 0 ≤ n.toInt ∧ n.toInt.toNat ≤ size text := by
      rw [Int64.toInt_zero] at inside
      omega
    have found : env.read (place.index n.toInt.toNat) =
        .ok (.char ((bytes text)[n.toInt.toNat]?.getD 0).toInt8) := by
      rw [read_index held (by simp), Value.step]
      cases byte : (bytes text)[n.toInt.toNat]? with
      | some => rfl
      | none =>
        have last : n.toInt.toNat = (bytes text).length :=
          Nat.le_antisymm within.2 (List.getElem?_eq_none_iff.mp byte)
        exact if_pos last
    rw [if_pos within, ok_bind, load_of_value found (by simp)]
    rfl

theorem reached_eq_indexed_iff (whole : value.wholeNumber? = some n) :
    (env.reached place value).toOption = (env.indexed place n).toOption ↔
      ¬ ∃ text, env.read place = .ok (.text text) ∧ 0 ≤ n.toInt ∧ n.toInt.toNat ≤ size text := by
  cases held : env.read place with
  | error error => exact ⟨fun _ => nofun, fun _ => reached_of_error held⟩
  | ok stored =>
    cases stored with
    | array items => exact ⟨fun _ => nofun, fun _ => reached_of_array whole held⟩
    | pointer pointee =>
      exact ⟨fun _ => nofun, fun _ => congrArg Except.toOption (reached_of_pointer whole held)⟩
    | text text =>
      obtain ⟨cause, fails⟩ := reached_of_other whole held nofun nofun
      rw [fails, indexed_of_text held]
      constructor
      · rintro same ⟨text, ⟨⟩, inside⟩
        rw [if_pos inside] at same
        cases same
      · intro outside
        rw [if_neg fun inside => outside ⟨text, rfl, inside⟩]
        rfl
    | _ =>
      obtain ⟨cause, fails⟩ := reached_of_other whole held nofun nofun
      obtain ⟨cause', fails'⟩ := indexed_of_other held nofun nofun nofun
      rw [fails, fails']
      exact ⟨fun _ => nofun, fun _ => rfl⟩

end Environment

/-- One node is `name[position]` and another is `*(name + position)`. -/
structure Program.IndexForms (prog : Program) (name : String)
    (pos indexed dereferenced : NodeId) : Prop where
  index : ∃ array, prog.kind indexed = .index array pos ∧
    prog.kind array = .identifier name
  sum : ∃ sum array position', prog.kind dereferenced = .unary .deref sum ∧
    prog.kind sum = .binary .add array position' ∧ prog.kind array = .identifier name ∧
    prog.Copies pos position'

namespace Firmware

variable {fw : Firmware} {env : Environment} {random : UInt64} {name : String} {cell : Cell}
  {pos indexed dereferenced : NodeId} {value : Value} {n : Int64}

theorem yields_of_indexForms (forms : fw.program.IndexForms name pos indexed dereferenced)
    (known : env.lookup? name = some cell) (yields : fw.Yields env random pos (.ok value))
    (whole : value.wholeNumber? = some n) :
    fw.Yields env random indexed (env.indexed (.of cell) n) ∧
      fw.Yields env random dereferenced (env.reached (.of cell) value) := by
  constructor
  · obtain ⟨array, index, isName⟩ := forms.index
    have placed : fw.hasPlace env array = true := by
      simp [hasPlace, isName, known]
    have located : fw.Locates env random indexed (env.elementOf (.of cell) n) :=
      .index index placed (.identifier isName known) yields whole
    exact located.loads (by simp [step, runFrame, eval, index])
  · obtain ⟨sum, array, position', deref, add, isName, again⟩ := forms.sum
    have unplaced : fw.hasPlace env sum = false := by
      simp [hasPlace, add]
    have summed := Yields.binary add (.identifier isName known) (yields.copied again)
    have followed := (Locates.deref deref unplaced summed).loads
      (by simp [step, runFrame, eval, deref])
    simpa [Environment.reached] using followed

variable {position : NodeId}

variable {firmware : Firmware}

/-- For a variable and a whole number, `a[i]` and `*(a + i)` end alike in every context, unless the
variable holds a text and the number is a position in it or its end. With a text, `a[i]` is the byte
at the position, or the zero behind the last one, and fails outside, while `*(a + i)` fails for
every number. -/
theorem indexing_agrees_iff {context : Context}
    (forms : firmware.program.IndexForms name position indexed dereferenced)
    (known : context.env.lookup? name = some cell)
    (yields : firmware.Yields context.env context.random position (.ok value))
    (whole : value.wholeNumber? = some n) :
    (firmware.SameOutcome context indexed dereferenced ↔
      ¬ ∃ text, context.env.read (.of cell) = .ok (.text text) ∧
        0 ≤ n.toInt ∧ n.toInt.toNat ≤ Text.size text) ∧
    ∀ text, context.env.read (.of cell) = .ok (.text text) →
      firmware.Refuses context dereferenced ∧
      if 0 ≤ n.toInt ∧ n.toInt.toNat ≤ Text.size text then
        firmware.Gives context indexed [] { context with
          values := .char ((Text.bytes text)[n.toInt.toNat]?.getD 0).toInt8 :: context.values }
      else firmware.Refuses context indexed := by
  obtain ⟨one, two⟩ := yields_of_indexForms forms known yields whole
  constructor
  · rw [one.sameOutcome_iff two, ← Environment.reached_eq_indexed_iff whole]
    exact eq_comm
  · intro text held
    obtain ⟨cause, fails⟩ := Environment.reached_of_other whole held nofun nofun
    rw [fails] at two
    refine ⟨two.refuses, ?_⟩
    have found : (context.env.indexed (.of cell) n).toOption = _ := Environment.indexed_of_text held
    generalize context.env.indexed (.of cell) n = outcome at one found
    split <;> rename_i inside
    · rw [if_pos inside] at found
      cases outcome with
      | error => cases found
      | ok value =>
          cases found
          exact one.gives
    · rw [if_neg inside] at found
      cases outcome with
      | error => exact one.refuses
      | ok => cases found

/-- The nodes 2 and 6 are `row[1]` and `*(row + 1)`, in a function with a text of the name of a
global array. -/
def strip : Firmware where
  program := {
    nodes := #[
      ⟨.identifier "row", ⟨4, 3⟩⟩,
      ⟨.intLiteral 1 false, ⟨4, 7⟩⟩,
      ⟨.index 0 1, ⟨4, 3⟩⟩, ⟨.identifier "row", ⟨5, 5⟩⟩, ⟨.intLiteral 1 false, ⟨5, 11⟩⟩,
      ⟨.binary .add 3 4, ⟨5, 9⟩⟩,
      ⟨.unary .deref 5, ⟨5, 3⟩⟩, ⟨.intLiteral 7 false, ⟨1, 15⟩⟩, ⟨.intLiteral 8 false, ⟨1, 18⟩⟩,
      ⟨.initList [7, 8], ⟨1, 14⟩⟩,
      ⟨.varDecl "row" { base := .int, dims := [some 2] } (some 9) false false, ⟨1, 1⟩⟩,
      ⟨.stringLiteral "abc", ⟨3, 15⟩⟩,
      ⟨.varDecl "row" (DataType.of .char).pointerTo (some 11) false false, ⟨3, 3⟩⟩,
      ⟨.exprStmt 2, ⟨4, 3⟩⟩, ⟨.exprStmt 6, ⟨5, 3⟩⟩, ⟨.block [12, 13, 14], ⟨2, 14⟩⟩,
      ⟨.functionDef "setup" [] (.of .void) 15, ⟨2, 1⟩⟩]
    items := [10, 16] }

/-- The array is declared after 7 steps, and the text after 13. -/
def stripAt (steps : Nat) : Context :=
  (strip.callRun (.initial Session.defaultSeed) [] [] steps).context

theorem stripAt_reached : strip.Reaches none (stripAt 7) ∧ strip.Reaches none (stripAt 13) :=
  ⟨(Reaches.start.callRun [] [] 7).going (by decide +kernel),
    (Reaches.start.callRun [] [] 13).going (by decide +kernel)⟩

theorem stripAt_text : (stripAt 13).env.lookup? "row" = some (.frame 0 0) ∧
    (stripAt 13).env.read (.of (.frame 0 0)) = .ok (.text "abc") :=
  ⟨rfl, rfl⟩

theorem strip_forms : strip.program.IndexForms "row" 1 2 6 where
  index := ⟨0, rfl, rfl⟩
  sum := ⟨5, 3, 4, rfl, rfl, rfl, .leaf rfl rfl⟩

theorem strip_yields (ctx : Context) : strip.Yields ctx.env ctx.random 1 (.ok (.int 1)) :=
  .pushed rfl

/-- An array reads alike in both ways. A text has an element 1, but nothing lies behind the text
with a 1 appended. -/
theorem strip_reads :
    strip.Reaches none (stripAt 7) ∧ strip.SameOutcome (stripAt 7) 2 6 ∧
      strip.Reaches none (stripAt 13) ∧
      strip.Gives (stripAt 13) 2 [] { stripAt 13 with values := [.char 98] } ∧
      strip.Refuses (stripAt 13) 6 := by
  refine ⟨stripAt_reached.1, ?_, stripAt_reached.2, ?_⟩
  · have known : (stripAt 7).env.lookup? "row" = some (.global 1) := rfl
    refine (indexing_agrees_iff strip_forms known (strip_yields _) rfl).1.mpr ?_
    rintro ⟨text, held, -⟩
    cases held
  · obtain ⟨refuses, gives⟩ :=
      (indexing_agrees_iff strip_forms stripAt_text.1 (strip_yields _) rfl).2 "abc" stripAt_text.2
    rw [if_pos (by decide)] at gives
    exact ⟨gives, refuses⟩

theorem strip_differs : strip.Reaches none (stripAt 13) ∧ ¬ strip.SameOutcome (stripAt 13) 2 6 := by
  refine ⟨stripAt_reached.2, ?_⟩
  obtain ⟨one, two⟩ := yields_of_indexForms strip_forms stripAt_text.1 (strip_yields _) rfl
  rw [one.sameOutcome_iff two, eq_comm, Environment.reached_eq_indexed_iff rfl, not_not]
  exact ⟨"abc", stripAt_text.2, by decide, by decide⟩

end Firmware

end Breadboard
