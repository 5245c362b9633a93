import Breadboard.Proofs.Memory.Pointers
import Breadboard.Proofs.Session.Indexing

/-!
Types without evaluation. An expression that picks elements and fields of a variable has a type
that is found without running it, and a place whose storage has a type too. The two are found by
the same steps, except for an element of a text: its storage holds a character, while its
expression has the type of the text.
-/

namespace Breadboard

open Act Environment

/-- A node picks from a variable, by whole numbers and names of fields, what a path leads to. -/
inductive Firmware.Picks (fw : Firmware) (env : Environment) (random : UInt64) (name : String) :
    NodeId → List PathStep → Prop where
  | named (kind : fw.program.kind node = .identifier name) :
      Picks fw env random name node []
  | element {node array pos path value n} (kind : fw.program.kind node = .index array pos)
      (yields : fw.Yields env random pos (.ok value)) (whole : value.wholeNumber? = some n)
      (picks : Picks fw env random name array path) :
      Picks fw env random name node (path ++ [.index n.toInt.toNat])
  | field (kind : fw.program.kind node = .member object field false)
      (picks : Picks fw env random name object path) :
      Picks fw env random name node (path ++ [.field field])

variable {env : Environment} {cell : Cell} {found : Variable} {path : List PathStep}
  {place : Place} {type : DataType}

/-- The type of one text, or of a pointer to texts. -/
def DataType.IsLine (type : DataType) : Prop :=
  type.base = .text ∧ type.dims = []

namespace DataType.IsLine

theorem element (line : type.IsLine) : type.element.IsLine := by
  obtain ⟨text, single⟩ := line
  unfold DataType.element
  rw [single]
  dsimp only
  split
  · exact ⟨text, rfl⟩
  · exact ⟨text, single⟩

theorem size_ne_one (line : type.IsLine) (structs : StructTable) :
    Int32.ofNat (type.size structs) ≠ 1 := by
  obtain ⟨text, single⟩ := line
  simp only [size, sizeAt, text, single]
  split <;> decide

end DataType.IsLine

namespace Environment

variable {structs : StructTable}

theorem placeType_concat (resolved : env.resolve? cell = some found) (step : PathStep) :
    env.placeType structs ⟨cell, path ++ [step]⟩ =
      env.placeType structs ⟨cell, path⟩ >>= fun type => stepType structs found.name type step := by
  simp [placeType, resolve_eq_ok_iff.mpr resolved]

theorem eq_index_of_elementOf {reached : Place}
    (solid : ∀ pointee, env.read place ≠ .ok (.pointer pointee))
    (out : env.elementOf place n = .ok reached) : reached = place.index n.toInt.toNat := by
  unfold elementOf at out
  split at out <;> first | cases out | skip
  · split at out <;> cases out
    rfl
  · dsimp only at out
    split at out <;> cases out
    rfl
  · rename_i held
    exact absurd held (solid _)

end Environment

namespace Firmware

variable {fw : Firmware} {random : UInt64} {name : String} {node : NodeId}

theorem Locates.field (kind : fw.program.kind node = .member object wanted false)
    (base : fw.Locates env random object out) :
    fw.Locates env random node (out >>= fun place => .ok (place.field wanted)) := by
  have starts : result (fw.step ⟨env, [.evalPlace node], [], random⟩ (.evalPlace node) []) =
      .ok (.quiet, ⟨env, [.evalPlace object, .fieldPlace node], [], random⟩) := by
    simp [step, runFrame, evalPlace, kind]
  have finishes (place : Place) : result (fw.step
      ⟨env, [.fieldPlace node], [.pointer place], random⟩ (.fieldPlace node) []) =
        .ok (.quiet, ⟨env, [], [.pointer (place.field wanted)], random⟩) := by
    simp [step, runFrame, runFieldPlace, kind]
  unfold Locates
  rw [bind_assoc]
  exact .scheduled rfl starts (base.andThen fun place _ =>
    .scheduled rfl (finishes place) (.gone rfl))

section

variable (known : env.lookup? name = some cell)
include known

theorem Picks.hasPlace (picks : fw.Picks env random name node path) :
    fw.hasPlace env node = true := by
  cases picks with
  | named kind => simp [Firmware.hasPlace, kind, known]
  | element kind | field kind => simp [Firmware.hasPlace, kind]

/-- Without pointers on the way, a selection is found where its path leads, or not at all. -/
theorem Picks.exists_locates (resolved : env.resolve? cell = some found)
    (solid : found.value.Within fun _ => False) (picks : fw.Picks env random name node path) :
    ∃ out, fw.Locates env random node out ∧ ∀ place, out = .ok place → place = ⟨cell, path⟩ := by
  induction picks with
  | named kind =>
    refine ⟨_, .identifier kind known, ?_⟩
    rintro place ⟨⟩
    rfl
  | @element node array pos path value n kind yields whole picks ih =>
    obtain ⟨out, located, leads⟩ := ih
    refine ⟨_, .index kind (picks.hasPlace known) located yields whole, fun place reached => ?_⟩
    obtain ⟨start, rfl, reached⟩ := bind_eq_ok.mp reached
    obtain rfl := leads start rfl
    refine eq_index_of_elementOf (fun pointee held => ?_) reached
    rw [read_of_resolve? resolved] at held
    exact Value.within_pointer.mp (solid.read held)
  | field kind picks ih =>
    obtain ⟨out, located, leads⟩ := ih
    refine ⟨_, .field kind located, fun place reached => ?_⟩
    obtain ⟨start, rfl, ⟨⟩⟩ := bind_eq_ok.mp reached
    rw [leads start rfl]
    rfl

end

theorem Picks.typeAt_mono (picks : fw.Picks env random name node path)
    (typed : fw.typeAt env fuel node = .ok type) (le : fuel ≤ more) :
    fw.typeAt env more node = .ok type := by
  induction picks generalizing fuel more type with
  | named kind =>
    cases le <;> cases fuel <;> first | cases typed | simpa [typeAt, typeBy, kind] using typed
  | element kind yields whole picks ih | field kind picks ih =>
    obtain _ | fuel := fuel
    · cases typed
    obtain _ | more := more
    · cases le
    simp only [typeAt, typeBy, kind, bind_eq_ok] at typed ⊢
    obtain ⟨whole, held, made⟩ := typed
    exact ⟨whole, ih held (Nat.le_of_succ_le_succ le), made⟩

/-- The node is an element of a text, by the type that what it indexes has without evaluation. -/
def TakesLetter (fw : Firmware) (env : Environment) (node : NodeId) : Prop :=
  ∃ array pos type, fw.program.kind node = .index array pos ∧
    fw.staticType env array = .ok type ∧ type.IsLine

/-- How the type of a selection goes with its storage. They agree, but an element of a text is a
character in storage and a text by its type. -/
structure TypedAs (fw : Firmware) (env : Environment) (node : NodeId) (place : Place)
    (type : DataType) : Prop where
  agrees : ¬ fw.TakesLetter env node → env.placeType fw.structs place = .ok type
  differs : fw.TakesLetter env node →
    env.placeType fw.structs place = .ok (.of .char) ∧ type.IsLine

section

variable (resolved : env.resolve? cell = some found) {part : NodeId}
  (typed : fw.TypedAs env part ⟨cell, path⟩ type)
include resolved typed

theorem TypedAs.element (kind : fw.program.kind node = .index part pos)
    (held : fw.staticType env part = .ok type) (n : Nat) :
    fw.TypedAs env node ⟨cell, path ++ [.index n]⟩ type.element := by
  have takes_iff : fw.TakesLetter env node ↔ type.IsLine := by
    simp [TakesLetter, kind, held]
  by_cases line : type.IsLine
  · refine ⟨fun other => absurd (takes_iff.mpr line) other, fun _ => ⟨?_, line.element⟩⟩
    rw [placeType_concat resolved]
    by_cases inner : fw.TakesLetter env part
    · rw [(typed.differs inner).1]
      rfl
    · rw [typed.agrees inner]
      simp [stepType, DataType.isArray, line.1, line.2]
  · refine ⟨fun _ => ?_, fun takes => absurd (takes_iff.mp takes) line⟩
    have outer : ¬ fw.TakesLetter env part := fun takes => line (typed.differs takes).2
    rw [placeType_concat resolved, typed.agrees outer]
    refine if_neg fun both => line ?_
    simpa [DataType.isArray, DataType.IsLine] using both

theorem TypedAs.field {field : Field}
    (kind : fw.program.kind node = .member part wanted false) (record : type.base = .record tag)
    (declared : (fw.structs.lookup tag).bind (·.find? fun field => field.name = wanted) =
      some field) : fw.TypedAs env node ⟨cell, path ++ [.field wanted]⟩ field.type := by
  have outer : ¬ fw.TakesLetter env part := fun takes => by
    cases record.symm.trans (typed.differs takes).2.1
  refine ⟨fun _ => ?_, fun ⟨_, _, _, index, _⟩ => by cases kind.symm.trans index⟩
  rw [placeType_concat resolved, typed.agrees outer]
  simp [stepType, record, declared]

end

theorem Picks.typedAs (known : env.lookup? name = some cell)
    (resolved : env.resolve? cell = some found) (picks : fw.Picks env random name node path)
    (typed : fw.staticType env node = .ok type) : fw.TypedAs env node ⟨cell, path⟩ type := by
  induction picks generalizing type with
  | named kind =>
    simp only [staticType, typeAt, typeBy, kind, known] at typed
    refine ⟨fun _ => ?_, fun ⟨_, _, _, index, _⟩ => by cases kind.symm.trans index⟩
    cases stored : env.placeType fw.structs (.of cell) <;> rw [stored] at typed <;> cases typed
    exact stored
  | element kind yields whole picks ih =>
    simp only [staticType, typeAt, typeBy, kind, bind_eq_ok] at typed
    obtain ⟨container, held, ⟨⟩⟩ := typed
    have held := picks.typeAt_mono held (Nat.le_succ _)
    exact (ih held).element resolved kind held _
  | field kind picks ih =>
    simp only [staticType, typeAt, typeBy, kind, bind_eq_ok] at typed
    obtain ⟨container, held, made⟩ := typed
    split at made
    · rename_i record
      split at made <;> cases made
      rename_i declared
      exact (ih (picks.typeAt_mono held (Nat.le_succ _))).field resolved kind record declared
    · cases made

/-- The type that a selection has without evaluation is the type of the storage that it is found to
have, and its size that of the storage, unless it is an element of a text. Then the storage is a
character, and the selection has the type of the text. -/
theorem static_type_agrees_iff (known : env.lookup? name = some cell)
    (resolved : env.resolve? cell = some found) (solid : found.value.Within fun _ => False)
    (picks : fw.Picks env random name node path)
    (typed : fw.staticType env node = .ok type)
    (located : fw.Locates env random node (.ok place)) :
    (env.placeType fw.structs place = .ok type ↔ ¬ fw.TakesLetter env node) ∧
    (fw.TakesLetter env node →
      env.placeType fw.structs place = .ok (.of .char) ∧ type.IsLine) ∧
    ∀ outer, fw.program.kind outer = .sizeofExpr node →
      ∃ stored size, env.placeType fw.structs place = .ok stored ∧
        fw.Yields env random outer (.ok (.int size)) ∧
        (size = Int32.ofNat (stored.size fw.structs) ↔ ¬ fw.TakesLetter env node) := by
  obtain ⟨out, reached, leads⟩ := picks.exists_locates known resolved solid
  obtain rfl : place = ⟨cell, path⟩ := by
    have same := located.unique reached
    cases out with
    | error => cases same
    | ok other =>
      cases same
      exact leads place rfl
  obtain ⟨agrees, differs⟩ := picks.typedAs known resolved typed
  refine ⟨⟨fun same takes => ?_, agrees⟩, differs, fun outer kind => ?_⟩
  · obtain ⟨stored, text, -⟩ := differs takes
    cases same.symm.trans stored
    cases text
  have yields : fw.Yields env random outer (.ok (.int (Int32.ofNat (type.size fw.structs)))) :=
    .pushed (by simp [step, runFrame, eval, kind, typed])
  by_cases takes : fw.TakesLetter env node
  · obtain ⟨stored, line⟩ := differs takes
    exact ⟨_, _, stored, yields, fun same => absurd same (line.size_ne_one _), (absurd takes ·)⟩
  · exact ⟨_, _, agrees takes, yields, fun _ => takes, fun _ => rfl⟩

/-- Node 2 is `word[0]`, and node 3 its size. -/
def caption : Firmware where
  program := {
    nodes := #[⟨.identifier "word", ⟨2, 16⟩⟩, ⟨.intLiteral 0 false, ⟨2, 21⟩⟩,
      ⟨.index 0 1, ⟨2, 20⟩⟩, ⟨.sizeofExpr 2, ⟨2, 9⟩⟩]
    items := [] }

def captioned : Environment where
  globals := #[{ name := "word", type := .of .text, value := .text "abc" }]
  base := [("word", .global 0)]

/-- A character of a text takes one byte in storage, and another number by its expression. -/
theorem caption_oversized :
    captioned.placeType caption.structs ⟨.global 0, [.index 0]⟩ = .ok (.of .char) ∧
    caption.staticType captioned 2 = .ok (.of .text) ∧
    ∃ size, caption.Yields captioned 1 3 (.ok (.int size)) ∧
      size ≠ Int32.ofNat ((DataType.of .char).size caption.structs) := by
  have index : caption.program.kind 2 = .index 0 1 := rfl
  have zero : caption.Yields captioned 1 1 (.ok (.ofLiteral 0 false)) := .intLiteral rfl
  have whole : (Value.ofLiteral 0 false).wholeNumber? = some 0 := rfl
  have known : captioned.lookup? "word" = some (.global 0) := rfl
  have typed : caption.staticType captioned 2 = .ok (.of .text) := rfl
  obtain ⟨-, differs, sizes⟩ := static_type_agrees_iff known rfl (Value.within_of_isBare rfl)
    (.element index zero whole (.named rfl)) typed
    (.index index rfl (.identifier rfl known) zero whole)
  have takes : caption.TakesLetter captioned 2 := ⟨0, 1, .of .text, rfl, rfl, rfl, rfl⟩
  obtain ⟨stored, size, held, yields, fits⟩ := sizes 3 rfl
  cases held.symm.trans (differs takes).1
  exact ⟨held, typed, size, yields, fun same => fits.mp same takes⟩

end Firmware

end Breadboard
