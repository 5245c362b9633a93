import Breadboard.Proofs.Session.Indexing
import Breadboard.Proofs.Session.Statics

/-!
Texts in arrays of characters. A text is stored as its bytes with a zero behind them and more zeros
up to the size of the array. Wherever the array is, a pointer to the first byte of a character in it
stands for the text from there on, so what is copied back into a text is the text that was stored.
-/

open List

namespace Breadboard

open Environment

namespace Text

variable {str : String} {pos : Nat}

theorem ofBytesLossy_encoded (chars : List Char) :
    ofBytesLossy (chars.flatMap String.utf8EncodeChar) = String.ofList chars := by
  rw [ofBytesLossy, (pieces_chars _).2]

/-- Zero is a byte of the zero character only. -/
theorem zero_notMem_bytes (plain : Char.ofNat 0 ∉ str.toList) : 0 ∉ bytes str := by
  rw [bytes, mem_flatMap]
  rintro ⟨c, among, zero⟩
  obtain ⟨lead, tail, encoded, form⟩ := utf8EncodeChar_isForm c
  rw [encoded] at zero
  rcases mem_cons.mp zero with rfl | continues
  · cases form.alone.mp (by decide)
    obtain ⟨length, pieces⟩ := pieces_utf8EncodeChar [] c
    rw [encoded] at pieces
    have same : Char.ofNat 0 = c := congrArg Piece.toChar (List.cons.inj pieces).1
    exact plain (same ▸ among)
  · cases form.continues 0 continues

/-- From the first byte of a character on, or from the end, the bytes are those of a text. -/
theorem exists_suffix (boundary : isBoundary (bytes str) pos = true) :
    pos ≤ (bytes str).length ∧ ∃ suffix, bytes suffix = (bytes str).drop pos ∧
      ofBytesLossy ((bytes str).drop pos) = suffix := by
  by_cases inside : pos < (bytes str).length
  · obtain ⟨front, c, back, chars, length⟩ := exists_front_of_isBoundary inside boundary
    have rest : (bytes str).drop pos = (c :: back).flatMap String.utf8EncodeChar := by
      rw [bytes, chars, flatMap_append, ← length, drop_left]
    refine ⟨Nat.le_of_lt inside, String.ofList (c :: back), ?_, ?_⟩
    · rw [rest, bytes, String.toList_ofList]
    · rw [rest, ofBytesLossy_encoded]
  · have ends : pos = (bytes str).length := by
      rw [isBoundary, List.getElem?_eq_none (Nat.le_of_not_lt inside)] at boundary
      exact beq_iff_eq.mp boundary
    refine ⟨Nat.le_of_eq ends, "", ?_, ?_⟩ <;> rw [ends, drop_length] <;> rfl

end Text

/-- A type of arrays of characters that have room for a text and the zero behind it. -/
structure DataType.HoldsText (type : DataType) (str : String) : Prop where
  base : type.base = .char
  pointerDepth : type.pointerDepth = 0
  dims : ∃ dim, type.dims = [dim] ∧ ∀ size ∈ dim, Text.size str < size

namespace Value

variable {str : String}

/-- A part that is no character can be replaced. -/
theorem exists_writes_read (held : value.read path = .ok part) (notChar : ∀ c, part ≠ .char c)
    (new : Value) : ∃ next, Writes new value path next ∧ next.read path = .ok new := by
  induction path generalizing value with
  | nil => exact ⟨new, .whole, rfl⟩
  | cons step path ih =>
    by_cases stored : ∀ str, value ≠ .text str
    · rw [read_cons stored] at held
      obtain ⟨middle, leads, held⟩ := bind_eq_ok.mp held
      obtain ⟨replaced, writes, reads⟩ := ih held
      refine ⟨value.exchange step replaced, .inside stored leads writes, ?_⟩
      rw [read_cons (exchange_ne_text stored _ _), step_exchange leads stored]
      exact reads
    · obtain ⟨str, rfl⟩ := not_forall_not.mp stored
      obtain ⟨c, rfl⟩ := exists_char_of_step held
      exact absurd rfl (notChar c)

theorem convert_into_array (structs : StructTable) (holds : type.HoldsText str) :
    ∃ more, (text str).convert structs type = .ok (.array (characters str ++ more)) := by
  obtain ⟨base, pointerDepth, dim, dims, room⟩ := holds
  have element : type.element = { type with dims := [] } := by simp [DataType.element, dims]
  have made : (text str).convert structs type = pad structs type (characters str) := by
    simp [convert, DataType.isArray, dims, element, base, pointerDepth]
  rw [made, pad, dims]
  cases dim with
  | none => exact ⟨[], by simp⟩
  | some size =>
    have fits : (characters str).length ≤ size := by
      simpa [characters, Text.size, Nat.succ_le_iff] using room size rfl
    exact ⟨_, if_neg (Nat.not_lt.mpr fits)⟩

end Value

namespace Environment

variable {env : Environment} {place : Place} {value : Value} {items : List Value}
  {str : String} {pos : Nat}

theorem charactersUntilZero_bytes (plain : 0 ∉ bytes) (more : List Value) :
    charactersUntilZero (bytes.map (fun byte => .char byte.toInt8) ++ .char 0 :: more) =
      some bytes := by
  induction bytes with
  | nil => simp [charactersUntilZero]
  | cons byte bytes ih =>
    rw [mem_cons, not_or] at plain
    obtain ⟨nonzero, plain⟩ := plain
    have differs : byte.toInt8 ≠ 0 := fun zero =>
      nonzero (congrArg Int8.toUInt8 zero.symm)
    simp [charactersUntilZero, differs, ih plain]

/-- The text behind a pointer into an array that begins with the characters of a text. -/
theorem textOf_characters (plain : 0 ∉ Text.bytes str)
    (held : env.read place = .ok (.array (Value.characters str ++ more)))
    (boundary : Text.isBoundary (Text.bytes str) pos = true) :
    ∃ suffix, Text.bytes suffix = (Text.bytes str).drop pos ∧
      env.textOf (.pointer (place.index pos)) = .text suffix := by
  obtain ⟨inside, suffix, same, decoded⟩ := Text.exists_suffix boundary
  refine ⟨suffix, same, ?_⟩
  have last : (place.index pos).lastIndex? = some pos := by
    simp [Place.lastIndex?, Place.index]
  have container : (place.index pos).container = place := by
    simp [Place.container, Place.index]
  have later : (Value.characters str ++ more).drop pos =
      ((Text.bytes str).drop pos).map (fun byte => .char byte.toInt8) ++ .char 0 :: more := by
    rw [Value.characters, append_assoc, drop_append_of_le_length (by simpa using inside),
      map_drop]
    rfl
  have found : env.textAt? (place.index pos) = some suffix := by
    simp only [textAt?, last, container, held, later,
      charactersUntilZero_bytes fun zero => plain (mem_of_mem_drop zero), Option.map_some,
      decoded]
  simp only [textOf, found]

/-- A place that holds an array takes any value, which is read back from there. -/
theorem exists_write_of_array (held : env.read place = .ok (.array items)) (value : Value) :
    ∃ next, env.write place value = .ok next ∧ next.read place = .ok value := by
  obtain ⟨found, resolved, held⟩ := bind_eq_ok.mp held
  rw [resolve_eq_ok_iff] at resolved
  obtain ⟨replaced, writes, reads⟩ := Value.exists_writes_read held nofun value
  refine ⟨_, write_of_writes resolved writes, ?_⟩
  have here : (env.setValue place.cell replaced).resolve? place.cell =
      some { found with value := replaced } := by
    rw [resolve?_setValue resolved, if_pos rfl]
  rw [read_of_resolve? here]
  exact reads

theorem bindings_addBinding (env : Environment) (name : String) (cell : Cell) :
    (env.addBinding name cell).bindings = (name, cell) :: env.bindings := by
  unfold addBinding bindings
  cases env.scopes <;> rfl

theorem bindings_introduce {next} (plain : declared.isStatic = false)
    (made : env.introduce site declared = (.ok cell, next)) :
    next.bindings = (declared.name, cell) :: env.bindings := by
  rw [introduce, plain, if_neg Bool.false_ne_true] at made
  unfold declare at made
  cases free : env.bindings.lookup declared.name with rw [free] at made
  | some other => cases made
  | none =>
    cases outermost : env.isGlobal <;> rw [outermost] at made <;> cases made <;>
      exact bindings_addBinding _ _ _

end Environment

namespace Firmware

variable {fw : Firmware} {ctx : Context} {rest : List Frame} {node : NodeId}
  {name : String} {type : DataType} {init : Option NodeId} {isVolatile : Bool}
  {given value : Value} {below : List Value}

/-- A declaration of a free name whose initializer has been evaluated. -/
theorem step_declare_free (rest : List Frame)
    (kind : fw.program.kind node = .varDecl name type init false isVolatile)
    (free : ctx.env.bindings.lookup name = none) (operand : ctx.values = given :: below)
    (made : (ctx.env.givenAs type given).convert fw.structs type = .ok value) :
    ∃ cell command env, fw.step ctx (.declare node) rest =
        .ok (.emit command) { ctx with env, frames := rest, values := below } ∧
      env.bindings = (name, cell) :: ctx.env.bindings ∧ env.lookup? name = some cell ∧
      env.read (.of cell) = .ok value ∧ env.get? name = some value := by
  have popped : fw.step ctx (.declare node) rest = Act.declareVariable fw node (some given)
        { ctx with frames := rest, values := below } := by
    simp only [step, Act.runFrame, Act.pop, operand]
    rfl
  have unknown : (false : Bool) = true → ctx.env.staticCell? node = none := by simp
  obtain ⟨cell, env, introduced, -, named, held, -⟩ :=
    introduce_free ⟨name, type.sizedBy value, value, false, isVolatile⟩ free unknown
  have here : env.resolve? (Place.of cell).cell =
    some ⟨name, type.sizedBy value, value, false, isVolatile⟩ := held
  refine ⟨cell, .varSet (env.placeName (.of cell)) (env.payload value), env, ?_,
    bindings_introduce rfl introduced, named, read_of_resolve? here, ?_⟩
  · rw [popped, Act.declareVariable_anew kind (by simp)]
    simp only [initial, made, introduced]
    rfl
  · simp only [get?, named, Option.bind_eq_bind, Option.bind_some, held]

/-- `String t = b;` where `b` holds an array of characters that begins with those of a text. -/
theorem leads_copied (plain : 0 ∉ Text.bytes str)
    (leads : fw.Leads (fun _ _ _ => True) none start none ctx)
    (top : ctx.frames = .exec copy :: rest)
    (kind : fw.program.kind copy = .varDecl other (.of .text) (some expr) false isVolatile)
    (reads : fw.program.kind expr = .identifier name) (free : ctx.env.bindings.lookup other = none)
    (known : ctx.env.lookup? name = some cell)
    (held : ctx.env.read (.of cell) = .ok (.array (Value.characters str ++ more))) :
    ∃ next, fw.Leads (fun _ _ _ => True) none start none next ∧ next.frames = rest ∧
      next.values = ctx.values ∧ next.env.get? other = some (.text str) := by
  obtain ⟨suffix, same, shown⟩ := textOf_characters plain held (Text.isBoundary_zero _)
  have whole : suffix = str := by
    have decoded := congrArg Text.ofBytes? same
    rw [drop_zero, Text.ofBytes?_bytes, Text.ofBytes?_bytes] at decoded
    exact Option.some.inj decoded
  subst whole
  let scheduled : Context := { ctx with frames := .eval expr :: .declare copy :: rest }
  have starts : fw.step ctx (.exec copy) rest = .ok .quiet scheduled :=
    step_exec_initializer kind nofun
  let loaded : Context := { ctx with
    frames := .declare copy :: rest
    values := .pointer ((Place.of cell).index 0) :: ctx.values }
  have loads : fw.step scheduled (.eval expr) (.declare copy :: rest) = .ok .quiet loaded := by
    apply (Act.result_eq_ok_iff _).mp
    simp [step, Act.runFrame, Act.eval, reads, Act.evalName, scheduled, loaded, known,
      load_of_array held, Except.mapError]
  have made : (loaded.env.givenAs (.of .text) (.pointer ((Place.of cell).index 0))).convert
      fw.structs (.of .text) = .ok (.text suffix) := by
    have given : loaded.env.givenAs (.of .text) (.pointer ((Place.of cell).index 0)) =
      .text suffix := shown
    rw [given]
    rfl
  have free : loaded.env.bindings.lookup other = none := free
  obtain ⟨-, command, env, declares, -, -, -, copied⟩ := step_declare_free rest kind free rfl made
  exact ⟨_, ((leads.step top starts trivial).step rfl loads trivial).step rfl declares trivial,
    rfl, rfl, copied⟩

variable {position : Nat}

/-- Arrays of characters carry texts. A text without zeros can be stored in an array with room for
it, wherever one is; the pointer to an element where a character begins stands for the rest of the
text, and a text that is declared from the array, after the array was declared from the text, is
the same text. -/
theorem characters_carry_text {string : String} {type : DataType} {structs : StructTable}
    (plain : Char.ofNat 0 ∉ string.toList) (holds : type.HoldsText string) :
    ∃ stored, (Value.text string).convert structs type = .ok stored ∧
      (∀ env place items, Environment.read env place = .ok (.array items) → ∃ next,
        env.write place stored = .ok next ∧ next.read place = .ok stored ∧
        ∀ position, Text.isBoundary (Text.bytes string) position = true →
          ∃ suffix, Text.bytes suffix = (Text.bytes string).drop position ∧
            next.textOf (.pointer (place.index position)) = .text suffix) ∧
      ∀ (firmware : Firmware) (context : Context) (rest : List Frame) (below : List Value)
        (node copy expr : NodeId) (name other : String) (init : Option NodeId)
        (isVolatile isVolatile' : Bool), firmware.structs = structs →
        firmware.program.kind node = .varDecl name type init false isVolatile →
        firmware.program.kind copy = .varDecl other (.of .text) (some expr) false isVolatile' →
        firmware.program.kind expr = .identifier name →
        context.frames = .declare node :: .exec copy :: rest →
        context.values = .text string :: below → context.env.bindings.lookup name = none →
        context.env.bindings.lookup other = none → other ≠ name →
        ∃ next, firmware.Leads (fun _ _ _ => True) none context none next ∧ next.frames = rest ∧
          next.values = below ∧ next.env.get? other = some (.text string) := by
  have plain := Text.zero_notMem_bytes plain
  obtain ⟨more, converted⟩ := Value.convert_into_array structs holds
  refine ⟨_, converted, ?_, ?_⟩
  · intro env place items held
    obtain ⟨next, written, reads⟩ := Environment.exists_write_of_array held _
    exact ⟨next, written, reads, fun position => Environment.textOf_characters plain reads⟩
  · intro firmware context rest below node copy expr name other init isVolatile isVolatile' same
      kind copies reads top operand free freeOther apart
    subst same
    have given : context.env.givenAs type (.text string) = .text string := ite_self _
    obtain ⟨cell, command, env, declares, bound, known, held, -⟩ :=
      step_declare_free (.exec copy :: rest) kind free operand (given ▸ converted)
    have freeThen : env.bindings.lookup other = none := by
      rw [bound, lookup_cons, beq_false_of_ne apart]
      exact freeOther
    exact leads_copied plain (Leads.refl.step top declares trivial) rfl copies reads freeThen known
      held

/-- `char label[8] = "né";` in a structure's field, and then in declarations. -/
def tag : Environment where
  globals := #[⟨"tag", .of (.record "Tag"),
    .record "Tag" [("label", .array (List.replicate 8 (.char 0)))], false, false⟩]

def tagging : Firmware where
  program := {
    nodes := #[⟨.stringLiteral "né", ⟨2, 17⟩⟩,
      ⟨.varDecl "label" { base := .char, dims := [some 8] } (some 0) false false, ⟨2, 8⟩⟩,
      ⟨.identifier "label", ⟨3, 16⟩⟩,
      ⟨.varDecl "copy" (.of .text) (some 2) false false, ⟨3, 10⟩⟩]
    items := [1, 3] }

theorem tag_carries :
    Char.ofNat 0 ∉ "né".toList ∧
    (∃ stored next, tag.write ⟨.global 0, [.field "label"]⟩ stored = .ok next ∧
      ∃ suffix, Text.bytes suffix = [0xC3, 0xA9] ∧
        next.textOf (.pointer ⟨.global 0, [.field "label", .index 1]⟩) = .text suffix) ∧
    ∃ next, tagging.Leads (fun _ _ _ => True) none
      ⟨{}, [.declare 1, .exec 3], [.text "né"], 1⟩ none next ∧
      next.env.get? "copy" = some (.text "né") := by
  have plain : Char.ofNat 0 ∉ "né".toList := by decide
  have holds : DataType.HoldsText { base := .char, dims := [some 8] } "né" :=
    ⟨rfl, rfl, some 8, rfl, by decide⟩
  obtain ⟨stored, -, anywhere, declared⟩ := @characters_carry_text "né" _ [] plain holds
  refine ⟨plain, ?_, ?_⟩
  · obtain ⟨next, written, -, shown⟩ := anywhere tag ⟨.global 0, [.field "label"]⟩ _ rfl
    exact ⟨stored, next, written, shown 1 (by decide)⟩
  · obtain ⟨next, leads, -, -, copied⟩ := declared tagging ⟨{}, [.declare 1, .exec 3], [.text "né"], 1⟩
      [] [] 1 3 2 "label" "copy" (some 0) false false rfl rfl rfl rfl rfl rfl rfl rfl (by decide)
    exact ⟨next, leads, copied⟩

end Firmware

end Breadboard
