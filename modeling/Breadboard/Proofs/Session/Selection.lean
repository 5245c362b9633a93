import Breadboard.Proofs.Session.Indexing

/-!
Parts of values that have none. Elements are read out of arrays and texts, and fields out of
records; behind any other value a path leads nowhere, however it goes on. A character of a text is
the exception: what follows it on a path is not looked at, so the path reads as the character.
-/

namespace Breadboard

/-- Whether a value has parts of the kind that a step leads to. -/
def Value.Opens : Value → PathStep → Prop
  | .array _, .index _ | .text _, .index _ | .record _ _, .field _ => True
  | _, _ => False

/-- The place at the end of a path that starts at a place. -/
def Place.inside (place : Place) (path : List PathStep) : Place :=
  { place with path := place.path ++ path }

namespace Value

variable {value inner : Value} {step : PathStep} {path : List PathStep} {error : MemoryError}

theorem exists_error_of_not_opens (closed : ¬ value.Opens step) :
    ∃ error, value.step step = .error error := by
  cases value <;> cases step <;> first | exact ⟨_, rfl⟩ | exact absurd trivial closed

/-- Behind a value that has no such part a path fails, unless it went through a character. -/
theorem read_append_of_error (held : value.read path = .ok inner)
    (refused : inner.step step = .error error) (tail : List PathStep) :
    value.read (path ++ step :: tail) =
      if value.stopsAtBytes (path ++ step :: tail) then .error error else .ok inner := by
  induction path generalizing value with
  | nil =>
    cases held
    cases inner <;> simp [read, stopsAtBytes, refused]
  | cons first path ih =>
    by_cases stored : ∀ str, value ≠ .text str
    · rw [read_cons stored] at held
      obtain ⟨middle, leads, held⟩ := bind_eq_ok.mp held
      rw [List.cons_append, read_cons stored, stopsAtBytes_cons stored leads, leads]
      exact ih held
    · obtain ⟨str, rfl⟩ := not_forall_not.mp stored
      have character : (text str).step first = .ok inner := held
      simp [read, stopsAtBytes, character]

end Value

namespace Environment

variable {env : Environment} {place : Place} {value : Value} {step : PathStep}

theorem read_inside (held : env.read place = .ok value) (closed : ¬ value.Opens step)
    (tail : List PathStep) : ∃ error, env.read (place.inside (step :: tail)) =
      if env.stopsAtBytes (place.inside (step :: tail)) then .error error else .ok value := by
  obtain ⟨error, refused⟩ := Value.exists_error_of_not_opens closed
  obtain ⟨found, resolved, held⟩ := bind_eq_ok.mp held
  rw [resolve_eq_ok_iff] at resolved
  have inside : env.resolve? (place.inside (step :: tail)).cell = some found := resolved
  refine ⟨error, ?_⟩
  rw [read_of_resolve? inside, stopsAtBytes, inside]
  exact Value.read_append_of_error held refused tail

theorem exists_read_of_write (stops : env.stopsAtBytes place = true)
    (written : env.write place value = .ok next) : ∃ old, env.read place = .ok old := by
  obtain ⟨found, replaced, resolved, writes, -⟩ := exists_writes_of_write stops written
  rw [read_of_resolve? resolved]
  exact writes.exists_read

/-- What is found behind a value without parts: an error for readers and writers, or, behind a
character of a text, still the character. -/
structure Closed (env : Environment) (beyond : Place) (value : Value) : Prop where
  fails_iff : (∃ error, env.read beyond = .error error) ↔ env.stopsAtBytes beyond = true
  refuses : env.stopsAtBytes beyond = true →
    ∀ new, ∃ error, env.write beyond new = .error error
  sees : env.stopsAtBytes beyond = false → env.read beyond = .ok value

theorem closed_inside (held : env.read place = .ok value) (closed : ¬ value.Opens step)
    (tail : List PathStep) : env.Closed (place.inside (step :: tail)) value := by
  obtain ⟨error, reads⟩ := read_inside held closed tail
  cases stops : env.stopsAtBytes (place.inside (step :: tail)) with
  | false =>
    rw [stops, if_neg Bool.false_ne_true] at reads
    refine ⟨?_, by simp [stops], fun _ => reads⟩
    simp [reads, stops]
  | true =>
    rw [stops, if_pos rfl] at reads
    refine ⟨?_, fun _ new => ?_, by simp [stops]⟩
    · simp [reads, stops]
    · cases written : env.write (place.inside (step :: tail)) new with
      | error error => exact ⟨error, rfl⟩
      | ok next =>
        obtain ⟨old, found⟩ := exists_read_of_write stops written
        cases found.symm.trans reads

end Environment

namespace Firmware

variable {fw : Firmware} {ctx : Context} {node : NodeId} {rest : List Frame}
  {place : Place} {field : String} {value : Value}

/-- A context in which a field is about to be selected at a place, to be loaded from there. -/
structure Projects (fw : Firmware) (ctx : Context) (node : NodeId) (rest : List Frame)
    (place : Place) (field : String) : Prop where
  kind : ∃ object throughPointer, fw.program.kind node = .member object field throughPointer
  frames : ctx.frames = .fieldPlace node :: .load node :: rest
  operand : ∃ values, ctx.values = .pointer place :: values

/-- The context when the field has been selected. -/
def selected (ctx : Context) (node : NodeId) (rest : List Frame) (place : Place)
    (field : String) : Context :=
  { ctx with
    frames := .load node :: rest
    values := .pointer (place.field field) :: ctx.values.tail }

theorem Projects.step (selects : fw.Projects ctx node rest place field) :
    fw.step ctx (.fieldPlace node) (.load node :: rest) =
      .ok .quiet (selected ctx node rest place field) := by
  obtain ⟨⟨object, throughPointer, kind⟩, frames, values, operand⟩ := selects
  obtain ⟨env, _, _, random⟩ := ctx
  cases frames
  cases operand
  apply (Act.result_eq_ok_iff _).mp
  simp [Firmware.step, Act.runFrame, Act.runFieldPlace, kind, selected]

variable (fw ctx node rest place field) in
theorem result_step_load :
    Act.result (fw.step (selected ctx node rest place field) (.load node) rest) =
      (ctx.env.load (place.field field)).mapError Cause.ofMemory >>= fun found =>
        .ok (.quiet, ⟨ctx.env, rest, found :: ctx.values.tail, ctx.random⟩) := by
  simp [Firmware.step, Act.runFrame, Act.runLoad, selected]

theorem exists_load_iff : (∃ error, ctx.env.load place = .error error) ↔
    ∃ error, ctx.env.read place = .error error := by
  cases held : ctx.env.read place with
  | error error => simp [Environment.load_of_error held]
  | ok value =>
    cases value with
    | array items => simp [Environment.load_of_array held]
    | _ => simp [Environment.load_of_value held nofun]

/-- Nothing lies behind a value without parts, except that a path goes on behind a character of a
text without being looked at. In a run, a field of such a value is selected without a check, and
loading it fails with the same exception. -/
theorem parts_refused_iff {context : Context} {place : Place} {value : Value} {step : PathStep}
    (held : context.env.read place = .ok value) (closed : ¬ value.Opens step) :
    (∀ tail, context.env.Closed (place.inside (step :: tail)) value) ∧
    ∀ (firmware : Firmware) (node : NodeId) (rest : List Frame) (field : String),
      step = .field field → firmware.Projects context node rest place field →
        firmware.step context (.fieldPlace node) (.load node :: rest) =
          .ok .quiet (selected context node rest place field) ∧
        ((∃ fault final, firmware.step (selected context node rest place field) (.load node) rest =
          .error fault final) ↔ context.env.stopsAtBytes (place.field field) = true) := by
  refine ⟨Environment.closed_inside held closed, ?_⟩
  rintro firmware node rest field rfl selects
  refine ⟨selects.step, ?_⟩
  have fails := (Environment.closed_inside held closed []).fails_iff
  rw [← exists_load_iff] at fails
  refine Iff.trans ?_ fails
  have loads := result_step_load firmware context node rest place field
  change _ ↔ ∃ error, context.env.load (place.field field) = .error error
  cases loaded : context.env.load (place.field field) <;>
    cases stepped : firmware.step (selected context node rest place field) (.load node) rest <;>
    simp [loaded, stepped, Act.result, Except.mapError] at loads ⊢

/-- Node 2 is `word[0].size`, where no character has a size. -/
def emblem : Firmware where
  program := {
    nodes := #[⟨.identifier "word", ⟨3, 16⟩⟩, ⟨.index 0 3, ⟨3, 20⟩⟩,
      ⟨.member 1 "size" false, ⟨3, 23⟩⟩, ⟨.intLiteral 0 false, ⟨3, 21⟩⟩]
    items := [] }

def lettering (value : Value) (path : List PathStep) : Context where
  env := {
    globals := #[{ name := "word", type := .of .text, value }]
    base := [("word", .global 0)] }
  frames := [.fieldPlace 2, .load 2]
  values := [.pointer ⟨.global 0, path⟩]
  random := 1

/-- Of a character of a text any field can be loaded, and it is the character; an integer has
none. -/
theorem emblem_unchecked :
    (lettering (.text "abc") []).env.read ⟨.global 0, [.index 0, .field "size"]⟩ =
      .ok (.char 97) ∧
    (¬ ∃ fault final, emblem.step (selected (lettering (.text "abc") [.index 0]) 2 []
      ⟨.global 0, [.index 0]⟩ "size") (.load 2) [] = .error fault final) ∧
    ∃ fault final, emblem.step (selected (lettering (.int 7) []) 2 [] ⟨.global 0, []⟩ "size")
      (.load 2) [] = .error fault final := by
  have selects (value : Value) (path : List PathStep) :
      emblem.Projects (lettering value path) 2 [] ⟨.global 0, path⟩ "size" :=
    ⟨⟨1, false, rfl⟩, rfl, [], rfl⟩
  have first : (lettering (.text "abc") [.index 0]).env.read ⟨.global 0, [.index 0]⟩ =
      .ok (.char 97) := rfl
  have closed : ¬ (Value.char 97).Opens (.field "size") := id
  have whole : (lettering (.int 7) []).env.read ⟨.global 0, []⟩ = .ok (.int 7) := rfl
  have solid : ¬ (Value.int 7).Opens (.field "size") := id
  refine ⟨((parts_refused_iff first closed).1 []).sees rfl, ?_, ?_⟩
  · rw [((parts_refused_iff first closed).2 _ _ _ _ rfl (selects _ _)).2]
    exact Bool.false_ne_true
  · exact ((parts_refused_iff whole solid).2 _ _ _ _ rfl (selects _ _)).2.mpr rfl

end Firmware

end Breadboard
