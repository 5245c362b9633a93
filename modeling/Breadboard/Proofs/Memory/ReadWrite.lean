import Breadboard.Proofs.Memory.Confinement
import Breadboard.Proofs.Text.Boundary

/-!
The laws of reading and writing. A path leads step by step into a value, and writing exchanges what
is there at its end; the bytes of a text are the exception, since a byte is written as part of its
text. What was written is read back, what lies on a path that branches off reads as before, and
nothing but the value of one variable changes.
-/

open List

namespace Breadboard

open Environment Text Value

namespace Value

variable {str : String} {pos : Nat} {wanted : String} {old inner : Value}

/-! Bytes of a text. -/

section Bytes

variable {str changed : String} {pos : Nat} {byte : UInt8}

theorem writeByte_of_ascii (ascii : byte < 0x80)
    (old : ∃ old < 0x80, (bytes str)[pos]? = some old) :
    writeByte str pos byte = .ok (ofBytesLossy ((bytes str).set pos byte)) := by
  obtain ⟨old, plain, found⟩ := old
  obtain ⟨inside, -⟩ := List.getElem?_eq_some_iff.mp found
  obtain ⟨before, after⟩ : isBoundary (bytes str) pos = true ∧
      isBoundary (bytes str) (pos + 1) = true :=
    isBoundary_of_ascii found plain
  apply if_pos
  simp only [inside, ascii, before, after, decide_true, Bool.and_self]

/-- Only an ASCII byte replaces a byte, and it replaces an ASCII byte. The text keeps its other
bytes. -/
theorem of_writeByte (written : writeByte str pos byte = .ok changed) :
    byte < 0x80 ∧ (∃ old < 0x80, (bytes str)[pos]? = some old) ∧
      bytes changed = (bytes str).set pos byte := by
  simp only [writeByte] at written
  split at written
  · rename_i fits
    simp only [Bool.and_eq_true, decide_eq_true_eq] at fits
    obtain ⟨⟨⟨inside, ascii⟩, before⟩, after⟩ := fits
    cases written
    exact ⟨ascii, getElem?_of_isBoundary inside before after,
      bytes_ofBytesLossy_set inside ascii before after⟩
  · cases written

theorem step_text (found : (bytes str)[pos]? = some byte) :
    (text str).step (.index pos) = .ok (.char byte.toInt8) := by
  simp only [step, found]

theorem step_text_ne {step : PathStep} (set : bytes changed = (bytes str).set pos byte)
    (apart : step ≠ .index pos) : (text changed).step step = (text str).step step := by
  cases step with
  | field => rfl
  | index other =>
    have different : pos ≠ other := by
      rintro rfl
      exact apart rfl
    simp only [step, set, List.getElem?_set_ne different, length_set]

end Bytes

/-! One step into a value. -/

def exchange (value : Value) (step : PathStep) (new : Value) : Value :=
  match value, step with
  | .array items, .index pos => .array (items.set pos new)
  | .record name fields, .field wanted => .record name (setField wanted new fields)
  | value, _ => value

theorem lookup_setField (found : fields.lookup wanted = some old) :
    (setField wanted new fields).lookup wanted = some new := by
  induction fields with
  | nil => cases found
  | cons field fields ih =>
    obtain ⟨name, value⟩ := field
    by_cases same : name = wanted
    · rw [setField, if_pos same, same, lookup_cons_self]
    · have different : (wanted == name) = false := beq_false_of_ne (Ne.symm same)
      rw [lookup_cons, different] at found
      rw [setField, if_neg same, lookup_cons, different]
      exact ih found

theorem lookup_setField_ne (apart : other ≠ wanted) (new : Value) (fields : List (String × Value)) :
    (setField wanted new fields).lookup other = fields.lookup other := by
  induction fields with
  | nil => rfl
  | cons field fields ih =>
    obtain ⟨name, value⟩ := field
    by_cases same : name = wanted
    · have different : (other == name) = false := beq_false_of_ne (same ▸ apart)
      rw [setField, if_pos same, lookup_cons, lookup_cons, different]
    · rw [setField, if_neg same, lookup_cons, lookup_cons, ih]

variable {value inner new next : Value} {step : PathStep} {path : List PathStep}

theorem step_exchange (leads : value.step step = .ok inner) (stored : ∀ str, value ≠ .text str)
    (new : Value) : (value.exchange step new).step step = .ok new := by
  cases value with
  | text str => exact absurd rfl (stored str)
  | array items =>
    cases step with
    | field => cases leads
    | index pos =>
      have inside : pos < items.length := by
        by_contra beyond
        simp only [step, List.getElem?_eq_none (Nat.le_of_not_lt beyond)] at leads
        cases leads
      simp only [exchange, step, List.getElem?_set_self inside]
  | record name fields =>
    cases step with
    | index => cases leads
    | field wanted =>
      cases found : fields.lookup wanted with
      | none =>
        simp only [step, found] at leads
        cases leads
      | some old => simp only [exchange, step, lookup_setField found]
  | _ => cases step <;> cases leads

theorem step_exchange_ne (apart : other ≠ step) (value new : Value) :
    (value.exchange step new).step other = value.step other := by
  cases value with
  | array items =>
    cases step with
    | field => rfl
    | index pos =>
      cases other with
      | field => rfl
      | index elsewhere =>
        have different : pos ≠ elsewhere := by
          rintro rfl
          exact apart rfl
        simp only [exchange, step, List.getElem?_set_ne different, length_set]
  | record name fields =>
    cases step with
    | index => rfl
    | field wanted =>
      cases other with
      | index => rfl
      | field elsewhere =>
        have different : elsewhere ≠ wanted := by
          rintro rfl
          exact apart rfl
        simp only [exchange, step, lookup_setField_ne different]
  | _ => rfl

theorem exists_char_of_step (leads : (text str).step step = .ok inner) : ∃ c, inner = .char c := by
  cases step with
  | field => cases leads
  | index pos =>
    simp only [step] at leads
    split at leads
    · cases leads
      exact ⟨_, rfl⟩
    · split at leads <;> cases leads
      exact ⟨_, rfl⟩

section

variable (stored : ∀ str, value ≠ .text str)
include stored

theorem exchange_ne_text (step : PathStep) (new : Value) (str : String) :
    value.exchange step new ≠ .text str := by
  cases value with
  | text str => exact absurd rfl (stored str)
  | array | record => cases step <;> nofun
  | _ => nofun

theorem read_cons (step : PathStep) (path : List PathStep) :
    value.read (step :: path) = (value.step step).bind fun inner => inner.read path := by
  cases value with
  | text str => exact absurd rfl (stored str)
  | _ =>
    simp only [read]
    cases Value.step _ step <;> rfl

theorem write_cons (step : PathStep) (path : List PathStep) (new : Value) :
    value.write (step :: path) new = (value.step step).bind fun inner =>
      (inner.write path new).bind fun replaced => .ok (value.exchange step replaced) := by
  cases value with
  | text str => exact absurd rfl (stored str)
  | array items =>
    cases step with
    | field => rfl
    | index pos =>
      simp only [write, step]
      cases items[pos]? <;> rfl
  | record name fields =>
    cases step with
    | index => rfl
    | field wanted =>
      simp only [write, step]
      cases fields.lookup wanted <;> rfl
  | _ => cases step <;> rfl

/-! Paths. -/

/-- Whether a path has no step behind a byte of a text. -/
def stopsAtBytes (value : Value) : List PathStep → Bool
  | [] => true
  | step :: path =>
    match value, value.step step with
    | .text _, .ok _ => path.isEmpty
    | _, .ok inner => inner.stopsAtBytes path
    | _, .error _ => true

/-- The text in which a path ends and the position there, if it ends at a byte of a text. -/
def byteAt? (value : Value) (path : List PathStep) : Option (String × Nat) :=
  match path.getLast?, value.read path.dropLast with
  | some (.index pos), .ok (.text str) => some (str, pos)
  | _, _ => none

/-- The byte that is written into a text for a value: the low bits of the integer it stands for. -/
def lowByte (value : Value) : UInt8 := ((value.integer?).getD 0).toUInt64.toUInt8

theorem stopsAtBytes_cons (leads : value.step step = .ok inner) :
    value.stopsAtBytes (step :: path) = inner.stopsAtBytes path := by
  cases value with
  | text str => exact absurd rfl (stored str)
  | _ => simp only [stopsAtBytes, leads]

theorem byteAt?_cons (leads : value.step step = .ok inner) :
    value.byteAt? (step :: path) = inner.byteAt? path := by
  cases path with
  | nil =>
    cases value with
    | text str => exact absurd rfl (stored str)
    | _ => cases step <;> rfl
  | cons second path =>
    simp only [byteAt?, List.getLast?_cons_cons, dropLast_cons_cons, read_cons stored, leads]
    rfl

theorem byteAt?_of_error
    (leads : value.step step = .error error) : value.byteAt? (step :: path) = none := by
  cases path with
  | nil =>
    cases value with
    | text str => exact absurd rfl (stored str)
    | _ => cases step <;> rfl
  | cons second path =>
    simp only [byteAt?, dropLast_cons_cons, read_cons stored, leads]
    split
    · rename_i found
      cases found
    · rfl

end

theorem read_concat (held : value.read path = .ok inner) (notChar : ∀ c, inner ≠ .char c)
    (step : PathStep) : value.read (path ++ [step]) = inner.step step := by
  induction path generalizing value with
  | nil =>
    cases held
    cases inner with
    | text => rfl
    | _ =>
      simp only [nil_append, read]
      cases Value.step _ step <;> rfl
  | cons first path ih =>
    by_cases stored : ∀ str, value ≠ .text str
    · rw [read_cons stored] at held
      obtain ⟨middle, leads, held⟩ := bind_eq_ok.mp held
      rw [cons_append, read_cons stored, leads]
      exact ih held
    · obtain ⟨str, rfl⟩ := not_forall_not.mp stored
      obtain ⟨c, rfl⟩ := exists_char_of_step held
      exact absurd rfl (notChar c)

theorem toInt8_lowByte (value : Value) :
    value.lowByte.toInt8 = ((value.integer?).getD 0).toInt8 := by
  apply Int8.toBitVec_inj.mp
  simp [lowByte, BitVec.signExtend_eq_setWidth_of_le]

theorem step_text_ne_text (str inner : String) (step : PathStep) :
    (text str).step step ≠ .ok (.text inner) := by
  intro found
  obtain ⟨c, same⟩ := exists_char_of_step found
  cases same

theorem byteAt?_text_cons (str : String) (step second : PathStep) (path : List PathStep) :
    (text str).byteAt? (step :: second :: path) = none := by
  simp only [byteAt?, dropLast_cons_cons, read]
  split
  · rename_i found
    exact absurd found (step_text_ne_text _ _ _)
  · rfl

inductive EndsAt (str : String) (pos : Nat) : Value → List PathStep → Prop where
  | byte : EndsAt str pos (.text str) [.index pos]
  | inside {value inner : Value} {step : PathStep} {path : List PathStep} :
      (∀ str, value ≠ .text str) → value.step step = .ok inner →
      EndsAt str pos inner path → EndsAt str pos value (step :: path)

theorem endsAt_of_byteAt? (ends : value.byteAt? path = some (str, pos)) :
    EndsAt str pos value path := by
  induction path generalizing value with
  | nil => cases ends
  | cons step path ih =>
    by_cases stored : ∀ str, value ≠ .text str
    · cases leads : value.step step with
      | error error =>
        rw [byteAt?_of_error stored leads] at ends
        cases ends
      | ok inner =>
        rw [byteAt?_cons stored leads] at ends
        exact .inside stored leads (ih ends)
    · obtain ⟨whole, rfl⟩ := not_forall_not.mp stored
      cases path with
      | nil =>
        cases step with
        | field => cases ends
        | index =>
          cases ends
          exact .byte
      | cons second path =>
        rw [byteAt?_text_cons] at ends
        cases ends

theorem EndsAt.read (ends : EndsAt str pos value path) :
    value.read path = (text str).step (.index pos) := by
  induction ends with
  | byte => rfl
  | inside stored leads _ ih =>
    rw [read_cons stored, leads]
    exact ih

/-! Writing as a relation. -/

inductive Writes (new : Value) : Value → List PathStep → Value → Prop where
  | whole {value : Value} : Writes new value [] new
  | byte {str changed pos} : writeByte str pos new.lowByte = .ok changed →
      Writes new (.text str) [.index pos] (.text changed)
  | inside {value inner replaced step path} :
      (∀ str, value ≠ .text str) → value.step step = .ok inner → Writes new inner path replaced →
      Writes new value (step :: path) (value.exchange step replaced)

theorem Writes.write (writes : Writes new value path next) : value.write path new = .ok next := by
  induction writes with
  | whole => rfl
  | byte written =>
    simp only [Value.write]
    rw [← lowByte, written]
    rfl
  | inside stored leads _ ih =>
    rw [write_cons stored, leads]
    simp only [Except.bind, ih]

theorem writes_of_write (stops : value.stopsAtBytes path = true)
    (written : value.write path new = .ok next) : Writes new value path next := by
  induction path generalizing value next with
  | nil =>
    cases written
    exact .whole
  | cons step path ih =>
    by_cases stored : ∀ str, value ≠ .text str
    · rw [write_cons stored] at written
      obtain ⟨inner, leads, written⟩ := bind_eq_ok.mp written
      obtain ⟨replaced, within, written⟩ := bind_eq_ok.mp written
      cases written
      rw [stopsAtBytes_cons stored leads] at stops
      exact .inside stored leads (ih stops within)
    · obtain ⟨str, rfl⟩ := not_forall_not.mp stored
      cases step with
      | field => cases written
      | index pos =>
        obtain ⟨changed, replaced, written⟩ := bind_eq_ok.mp written
        cases written
        obtain ⟨-, ⟨old, -, found⟩, -⟩ := of_writeByte replaced
        simp only [stopsAtBytes, step_text found, List.isEmpty_iff] at stops
        subst stops
        exact .byte replaced

namespace Writes

variable {other : List PathStep} {str : String} {pos : Nat}

variable (writes : Writes new value path next)
include writes

theorem read (whole : value.byteAt? path = none) : next.read path = .ok new := by
  induction writes with
  | whole => rfl
  | byte => cases whole
  | inside stored leads _ ih =>
    rw [byteAt?_cons stored leads] at whole
    rw [read_cons (exchange_ne_text stored _ _), step_exchange leads stored]
    exact ih whole

/-- A path that ends at a byte still ends there, in the text in which the byte was replaced. -/
theorem byteAt? (ends : value.byteAt? path = some (str, pos)) :
    ∃ changed, writeByte str pos new.lowByte = .ok changed ∧
      next.byteAt? path = some (changed, pos) := by
  induction writes with
  | whole => cases ends
  | byte written =>
    cases ends
    exact ⟨_, written, rfl⟩
  | inside stored leads _ ih =>
    rw [byteAt?_cons stored leads] at ends
    rw [byteAt?_cons (exchange_ne_text stored _ _) (step_exchange leads stored _)]
    exact ih ends

theorem read_apart {index : Nat} (onPath : path[index]? = some here)
    (onOther : other[index]? = some there)
    (apart : there ≠ here) : next.read other = value.read other := by
  induction writes generalizing other index with
  | whole => cases onPath
  | byte written =>
    obtain ⟨-, -, set⟩ := of_writeByte written
    cases other with
    | nil => cases onOther
    | cons step other =>
      cases index with
      | succ index => cases onPath
      | zero =>
        cases onPath
        cases onOther
        simp only [Value.read, step_text_ne set apart]
  | @inside value inner replaced step path stored leads writes ih =>
    cases other with
    | nil => cases onOther
    | cons first other =>
      rw [read_cons (exchange_ne_text stored _ _), read_cons stored]
      by_cases same : first = step
      · subst same
        rw [step_exchange leads stored, leads]
        cases index with
        | zero =>
          cases onPath
          cases onOther
          exact absurd rfl apart
        | succ index => exact ih onPath onOther
      · rw [step_exchange_ne same]

theorem exists_read : ∃ old, value.read path = .ok old := by
  induction writes with
  | whole => exact ⟨_, rfl⟩
  | byte written =>
    obtain ⟨-, ⟨old, -, found⟩, -⟩ := of_writeByte written
    exact ⟨_, step_text found⟩
  | inside stored leads _ ih =>
    rw [read_cons stored, leads]
    exact ih

end Writes

theorem exists_writes (stops : value.stopsAtBytes path = true) (whole : value.byteAt? path = none)
    (found : value.read path = .ok old) (new : Value) : ∃ next, Writes new value path next := by
  induction path generalizing value with
  | nil => exact ⟨new, .whole⟩
  | cons step path ih =>
    by_cases stored : ∀ str, value ≠ .text str
    · rw [read_cons stored] at found
      obtain ⟨inner, leads, found⟩ := bind_eq_ok.mp found
      rw [stopsAtBytes_cons stored leads] at stops
      rw [byteAt?_cons stored leads] at whole
      obtain ⟨replaced, writes⟩ := ih stops whole found
      exact ⟨value.exchange step replaced, .inside stored leads writes⟩
    · -- A path that stops in a text and has a step there ends at a byte.
      obtain ⟨str, rfl⟩ := not_forall_not.mp stored
      simp only [read] at found
      simp only [stopsAtBytes, found, List.isEmpty_iff] at stops
      subst stops
      cases step with
      | field => cases found
      | index => cases whole

theorem EndsAt.exists_writes (ends : EndsAt str pos value path)
    (written : writeByte str pos new.lowByte = .ok changed) :
    ∃ next, Writes new value path next := by
  induction ends with
  | byte => exact ⟨_, .byte written⟩
  | inside stored leads _ ih =>
    obtain ⟨replaced, writes⟩ := ih
    exact ⟨_, .inside stored leads writes⟩

end Value

/-- Whether two places are in different variables or their paths branch. -/
def Place.IsApart (place other : Place) : Prop :=
  other.cell ≠ place.cell ∨ ∃ (index : Nat) (here there : PathStep),
    place.path[index]? = some here ∧ other.path[index]? = some there ∧ there ≠ here

namespace Environment

variable {replaced : Value}

/-- Whether a place has no step behind a byte of a text. -/
def stopsAtBytes (env : Environment) (place : Place) : Bool :=
  (env.resolve? place.cell).all fun found => found.value.stopsAtBytes place.path

/-- The text in which a place ends and the position there, if it ends at a byte of a text. -/
def byteAt? (env : Environment) (place : Place) : Option (String × Nat) :=
  (env.resolve? place.cell).bind fun found => found.value.byteAt? place.path

/-- Whether a value can be written: something is there, and an ASCII character in a text stays
one. -/
def Accepts (env : Environment) (place : Place) (value : Value) : Prop :=
  match env.byteAt? place with
  | none => ∃ old, env.read place = .ok old
  | some (str, pos) =>
    value.lowByte < 0x80 ∧ ∃ old < 0x80, (bytes str)[pos]? = some old

structure WrittenAt (env : Environment) (place : Place) (value : Value) (next : Environment) :
    Prop where
  whole : env.byteAt? place = none → next.read place = .ok value
  byte : ∀ str pos, env.byteAt? place = some (str, pos) →
    next.read place = .ok (.char ((value.integer?).getD 0).toInt8) ∧
      ∃ changed, next.byteAt? place = some (changed, pos) ∧
        size changed = size str ∧
        ∀ other ≠ pos, (bytes changed)[other]? = (bytes str)[other]?
  apart : ∀ other, place.IsApart other → next.read other = env.read other
  cells : ∀ cell ≠ place.cell, next.resolve? cell = env.resolve? cell
  itself : ∃ found written, env.resolve? place.cell = some found ∧
    next.resolve? place.cell = some { found with value := written }
  frame : next = { env with globals := next.globals, locals := next.locals }
  globals : next.globals.size = env.globals.size
  generations : next.locals.map LocalSlot.generation = env.locals.map LocalSlot.generation

variable {env next : Environment} {place : Place} {value : Value} {found : Variable}

theorem read_of_resolve? (resolved : env.resolve? place.cell = some found) :
    env.read place = found.value.read place.path := by
  rw [read, resolve_eq_ok_iff.mpr resolved]
  rfl

theorem read_index (held : env.read place = .ok part) (notChar : ∀ c, part ≠ .char c)
    (pos : Nat) : env.read (place.index pos) = part.step (.index pos) := by
  obtain ⟨found, resolved, held⟩ := bind_eq_ok.mp held
  have known : env.resolve? (place.index pos).cell = some found := resolve_eq_ok_iff.mp resolved
  rw [read_of_resolve? known]
  exact read_concat held notChar _

/-- A write that succeeds replaces the value of a variable by what the path says. -/
theorem exists_writes_of_write (stops : env.stopsAtBytes place = true)
    (written : env.write place value = .ok next) :
    ∃ found replaced, env.resolve? place.cell = some found ∧
      Value.Writes value found.value place.path replaced ∧
      next = env.setValue place.cell replaced := by
  obtain ⟨found, resolved, written⟩ := bind_eq_ok.mp written
  obtain ⟨replaced, within, made⟩ := bind_eq_ok.mp written
  rw [resolve_eq_ok_iff] at resolved
  rw [stopsAtBytes, resolved] at stops
  cases made
  exact ⟨found, replaced, resolved, writes_of_write stops within, rfl⟩

theorem setValue_frame (env : Environment) (cell : Cell) (value : Value) :
    env.setValue cell value = { env with
      globals := (env.setValue cell value).globals, locals := (env.setValue cell value).locals } ∧
    (env.setValue cell value).globals.size = env.globals.size ∧
    (env.setValue cell value).locals.map LocalSlot.generation =
      env.locals.map LocalSlot.generation := by
  cases cell with
  | «global» index => exact ⟨rfl, Array.size_modify, rfl⟩
  | frame index generation =>
    refine ⟨rfl, rfl, ?_⟩
    apply Array.ext_getElem?
    intro slot
    simp only [setValue, Array.getElem?_map, Array.getElem?_modify]
    split
    · cases env.locals[slot]? <;> rfl
    · rfl

theorem writtenAt_setValue (resolved : env.resolve? place.cell = some found)
    (writes : Value.Writes value found.value place.path replaced) :
    env.WrittenAt place value (env.setValue place.cell replaced) := by
  have here : (env.setValue place.cell replaced).resolve? place.cell =
      some { found with value := replaced } := by
    rw [resolve?_setValue resolved, if_pos rfl]
  have elsewhere (cell : Cell) (apart : cell ≠ place.cell) :
      (env.setValue place.cell replaced).resolve? cell = env.resolve? cell := by
    rw [resolve?_setValue resolved, if_neg apart]
  obtain ⟨frame, globals, generations⟩ := env.setValue_frame place.cell replaced
  refine ⟨?_, ?_, ?_, elsewhere, ⟨found, replaced, resolved, here⟩, frame, globals, generations⟩
  · intro whole
    rw [byteAt?, resolved] at whole
    rw [read_of_resolve? here]
    exact writes.read whole
  · intro str pos ends
    rw [byteAt?, resolved] at ends
    obtain ⟨changed, written, remains⟩ := writes.byteAt? ends
    obtain ⟨-, ⟨old, -, inside⟩, set⟩ := of_writeByte written
    obtain ⟨inside, -⟩ := List.getElem?_eq_some_iff.mp inside
    refine ⟨?_, changed, ?_, ?_, ?_⟩
    · have byte : (bytes changed)[pos]? = some value.lowByte := by
        rw [set, List.getElem?_set_self inside]
      rw [read_of_resolve? here, (endsAt_of_byteAt? remains).read, step_text byte,
        toInt8_lowByte]
    · rw [byteAt?, here]
      exact remains
    · rw [size, size, set, length_set]
    · intro other apart
      rw [set, List.getElem?_set_ne (Ne.symm apart)]
  · intro other apart
    by_cases same : other.cell = place.cell
    · obtain ⟨index, step, there, onPath, onOther, apart⟩ := apart.resolve_left (absurd same)
      rw [← same] at resolved here
      rw [read_of_resolve? resolved, ← same, read_of_resolve? here]
      exact writes.read_apart onPath onOther apart
    · rw [read, read, resolve, resolve, elsewhere _ same]

theorem write_of_writes (resolved : env.resolve? place.cell = some found)
    (writes : Value.Writes value found.value place.path replaced) :
    env.write place value = .ok (env.setValue place.cell replaced) := by
  rw [write, resolve_eq_ok_iff.mpr resolved]
  simp only [Bind.bind, Except.bind, writes.write]

theorem exists_write_iff (stops : env.stopsAtBytes place = true) :
    (∃ next, env.write place value = .ok next) ↔ env.Accepts place value := by
  constructor
  · rintro ⟨next, written⟩
    obtain ⟨found, replaced, resolved, writes, -⟩ := exists_writes_of_write stops written
    rw [Accepts, byteAt?, resolved, Option.bind_some, read_of_resolve? resolved]
    split
    · exact writes.exists_read
    · rename_i str pos ends
      obtain ⟨changed, written, -⟩ := writes.byteAt? ends
      obtain ⟨ascii, old, -⟩ := of_writeByte written
      exact ⟨ascii, old⟩
  · intro accepts
    cases resolved : env.resolve? place.cell with
    | none =>
      rw [Accepts, byteAt?, resolved, read, resolve, resolved] at accepts
      obtain ⟨old, found⟩ := accepts
      cases found
    | some found =>
      rw [stopsAtBytes, resolved] at stops
      rw [Accepts, byteAt?, resolved, Option.bind_some, read_of_resolve? resolved] at accepts
      obtain ⟨replaced, writes⟩ :
          ∃ replaced, Value.Writes value found.value place.path replaced := by
        split at accepts
        · rename_i whole
          obtain ⟨old, there⟩ := accepts
          exact exists_writes stops whole there value
        · rename_i str pos ends
          obtain ⟨ascii, old⟩ := accepts
          exact (endsAt_of_byteAt? ends).exists_writes (writeByte_of_ascii ascii old)
      exact ⟨_, write_of_writes resolved writes⟩

/-- Reading and writing a place whose path stops at bytes. A write that fails changes nothing. One
that succeeds is read back, as a character if it went into a text, and nothing that lies apart
changes. Writing succeeds where there is something to replace. -/
theorem write_laws (env : Environment) (place : Place) (value : Value)
    (stops : env.stopsAtBytes place = true) :
    (∀ error, env.write place value = .error error → env.perform (.write place value) = env) ∧
      (∀ next, env.write place value = .ok next →
        env.perform (.write place value) = next ∧ env.WrittenAt place value next) ∧
      ((∃ next, env.write place value = .ok next) ↔ env.Accepts place value) := by
  refine ⟨?_, ?_, exists_write_iff stops⟩
  · intro error failed
    simp only [perform, failed]
  · intro next written
    obtain ⟨found, replaced, resolved, writes, rfl⟩ := exists_writes_of_write stops written
    exact ⟨by simp only [perform, written], writtenAt_setValue resolved writes⟩

/-- A structure that holds a text and a row of numbers. -/
def tagged : Environment :=
  { globals := #[{
      name := "tag"
      type := .of (.record "Tag")
      value := .record "Tag" [("label", .text "abc"), ("rows", .array [.int 1, .int 2])] }] }

theorem write_laws_label :
    tagged.stopsAtBytes ⟨.global 0, [.field "label", .index 1]⟩ = true ∧
      ∃ next, tagged.write ⟨.global 0, [.field "label", .index 1]⟩ (.int 88) = .ok next ∧
        next.read ⟨.global 0, [.field "label", .index 1]⟩ = .ok (.char 88) ∧
        next.read ⟨.global 0, [.field "rows", .index 1]⟩ = .ok (.int 2) := by
  have stops : tagged.stopsAtBytes ⟨.global 0, [.field "label", .index 1]⟩ = true := rfl
  obtain ⟨-, succeeds, accepts⟩ := write_laws tagged _ (.int 88) stops
  obtain ⟨next, written⟩ := accepts.mpr ⟨by decide, 98, by decide, rfl⟩
  obtain ⟨-, after⟩ := succeeds next written
  refine ⟨stops, next, written, (after.byte "abc" 1 rfl).1, ?_⟩
  rw [after.apart _ (.inr ⟨0, .field "label", .field "rows", rfl, rfl, by decide⟩)]
  rfl

end Environment

end Breadboard
