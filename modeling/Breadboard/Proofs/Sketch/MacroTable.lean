import Breadboard.Machine.Expression
import Breadboard.Proofs.Machine.Arithmetic
import Breadboard.Proofs.Sketch.Numeral
import Breadboard.Sketch

/-!
The macro table beside textual substitution. A macro whose body is one integer or text literal has
the value of that literal in the table exactly when the body spells the literal plainly: nothing
stands beside it, a text has no escapes, an octal numeral is below eight, and a mark for unsigned
makes no difference.
-/

open List

namespace Breadboard

open Macro Cursor

/-! Values of integer literals. -/

namespace Value

variable {n : Int64}

theorem integer?_ofLiteral (n : Int64) (unsigned : Bool) :
    (ofLiteral n unsigned).integer? = some n := by
  obtain ⟨_, integral⟩ := ofLiteral_integral n unsigned
  exact integral.integer?_eq

theorem ofLiteral_ne (n : Int64) (unsigned : Bool) :
    (∀ x, ofLiteral n unsigned ≠ .float x) ∧ ∀ str, ofLiteral n unsigned ≠ .text str := by
  unfold ofLiteral
  split
  · exact ⟨nofun, nofun⟩
  split <;> exact ⟨nofun, nofun⟩

theorem ofLiteral_false_eq_iff (nonnegative : 0 ≤ n) (unsigned : Bool) :
    ofLiteral n false = ofLiteral n unsigned ↔ (unsigned = true → Int32.maxValue.toInt64 < n) := by
  cases unsigned with
  | false => simp
  | true =>
    have least : Int32.minValue.toInt64 ≤ n := Int64.le_trans (by decide) nonnegative
    by_cases fits : n ≤ Int32.maxValue.toInt64
    · have signed : ofLiteral n false = .int n.toInt32 := if_pos (by simpa [least] using fits)
      have marked : ∀ m, ofLiteral n true ≠ .int m := by
        intro m
        rw [ofLiteral, if_neg (by simp)]
        split <;> nofun
      constructor
      · intro same
        exact absurd (same.symm.trans signed) (marked _)
      · intro beyond
        exact absurd fits (Int64.not_le.mpr (beyond rfl))
    · rw [Int64.not_le] at fits
      have same : ofLiteral n false = ofLiteral n true :=
        (if_neg (by simpa using fun _ => fits)).trans (if_neg (by simp)).symm
      exact ⟨fun _ _ => fits, fun _ => same⟩

end Value

namespace MacroValue

variable {entry : MacroValue}

theorem value_eq_ofLiteral_iff (nonnegative : 0 ≤ n) (unsigned : Bool) :
    entry.value = .ofLiteral n unsigned ↔
      entry = .int n ∧ (unsigned = true → Int32.maxValue.toInt64 < n) := by
  cases entry with
  | int m =>
    rw [MacroValue.int.injEq, ← Value.ofLiteral_false_eq_iff nonnegative]
    constructor
    · intro same
      have number := congrArg Value.integer? same
      rw [MacroValue.value, Value.integer?_ofLiteral, Value.integer?_ofLiteral] at number
      cases number
      exact ⟨rfl, same⟩
    · rintro ⟨rfl, same⟩
      exact same
  | float x => exact ⟨fun same => absurd same.symm ((Value.ofLiteral_ne n unsigned).1 x), nofun⟩
  | text str =>
    exact ⟨fun same => absurd same.symm ((Value.ofLiteral_ne n unsigned).2 str), nofun⟩

theorem value_eq_text_iff : entry.value = .text str ↔ entry = .text str := by
  cases entry with
  | int m => exact ⟨fun same => absurd same ((Value.ofLiteral_ne m false).2 str), nofun⟩
  | float x => exact ⟨nofun, nofun⟩
  | text other => simp [MacroValue.value]

end MacroValue

/-! Definitions have distinct names. -/

namespace Definitions

def Distinct (defs : Definitions) : Prop := (defs.map Prod.fst).Nodup

variable {defs : Definitions} {name : String}

theorem Distinct.erase (distinct : defs.Distinct) (name : String) : (defs.erase name).Distinct :=
  distinct.sublist (filter_sublist.map _)

theorem Distinct.insert (distinct : defs.Distinct) (name : String) (body : List Char) :
    (defs.insert name body).Distinct := by
  refine nodup_cons.mpr ⟨?_, distinct.erase name⟩
  intro member
  obtain ⟨definition, kept, isName⟩ := mem_map.mp member
  have other := (mem_filter.mp kept).2
  simp [isName] at other

theorem Distinct.lookup_filterMap {β : Type} (distinct : defs.Distinct)
    (read? : List Char → Option β) :
    (defs.filterMap fun definition =>
      (read? definition.2).map fun entry => (definition.1, entry)).lookup name =
        (defs.lookup name).bind read? := by
  induction defs with
  | nil => rfl
  | cons definition rest ih =>
    obtain ⟨key, body⟩ := definition
    obtain ⟨absent, distinct⟩ := nodup_cons.mp distinct
    have later := ih distinct
    by_cases isKey : name = key
    · subst isKey
      -- A body without an entry must not uncover an older one of the same name.
      have unlisted : rest.lookup name = none := by
        rw [lookup_eq_none_iff]
        intro definition member
        rw [bne_iff_ne]
        rintro rfl
        exact absent (mem_map.mpr ⟨definition, member, rfl⟩)
      cases found : read? body with
      | none => simp [found, later, unlisted]
      | some entry => simp [found]
    · have onward : (name == key) = false := by simpa using isKey
      cases found : read? body with
      | none | some entry => simp [found, later, lookup_cons, onward]

end Definitions

namespace Macro

variable {defs : Definitions} {str : String} {c : Char}

theorem distinct_of_directive (distinct : defs.Distinct)
    (out : directive defs loc text = .ok changed) : changed.Distinct := by
  simp only [directive] at out
  split at out
  · split at out
    · cases out
    split at out <;> cases out
    exact distinct.insert _ _
  · split at out
    · cases out
      exact distinct.erase _
    · cases out
      exact distinct

theorem distinct_of_expandLines {number : Nat}
    {lines expanded : List (List Char)} (distinct : defs.Distinct)
    (out : expandLines defs number lines = .ok (expanded, final)) : final.Distinct := by
  induction lines generalizing defs number expanded with
  | nil =>
    cases out
    exact distinct
  | cons line rest ih =>
    simp only [expandLines] at out
    split at out
    · obtain ⟨changed, directed, out⟩ := bind_eq_ok.mp out
      obtain ⟨⟨others, _⟩, followed, same⟩ := bind_eq_ok.mp out
      cases same
      exact ih (distinct_of_directive distinct directed) followed
    · obtain ⟨⟨others, _⟩, followed, same⟩ := bind_eq_ok.mp out
      cases same
      exact ih distinct followed

theorem lookup_table (distinct : defs.Distinct) (name : String) : (table defs).lookup name =
      (defs.lookup name).bind fun body => value? (expand defs expansionDepth body) :=
  distinct.lookup_filterMap fun body => value? (expand defs expansionDepth body)

/-! The value of a body. -/

variable {body tail : List Char} {c : Char}

theorem unwrap_of_ne (bare : c ≠ '(') (fuel : Nat) : unwrap fuel (c :: tail) = c :: tail := by
  cases fuel with
  | zero => rfl
  | succ fuel =>
    rw [unwrap]
    rintro rest ⟨⟩
    exact bare rfl

theorem value?_quoted (trimmed : Text.trim body = '"' :: tail) :
    value? body = some (.text str) ↔ '"' :: tail = '"' :: str.toList ++ ['"'] := by
  have bare : '"' ≠ '(' := by decide
  simp only [value?, trimmed, unwrap_of_ne bare, cons_append, List.cons.injEq, true_and]
  constructor
  · intro found
    split at found
    · rename_i closed
      obtain ⟨inside, rfl⟩ := List.getLast?_eq_some_iff.mp closed
      cases found
      simp
    · cases found
  · rintro rfl
    simp

/-- A body that begins with neither a quote, a parenthesis nor a minus is a number or has no
value. -/
theorem value?_unquoted (trimmed : Text.trim body = c :: tail) (bare : c ≠ '(')
    (unquoted : c ≠ '"') (positive : c ≠ '-') :
    (∃ n, integer? (Text.dropEndWhile isIntegerMark (c :: tail)) = some n ∧
      value? body = some (.int n)) ∨
    integer? (Text.dropEndWhile isIntegerMark (c :: tail)) = none ∧
      ∀ entry ∈ value? body, ∃ x, entry = .float x := by
  simp only [value?, trimmed, unwrap_of_ne bare, ↓Char.isValue, List.cons.injEq, unquoted,
    false_and, imp_self, implies_true, positive, Bool.false_eq_true, ↓reduceIte]
  cases integer? (Text.dropEndWhile isIntegerMark (c :: tail)) with
  | some n => exact .inl ⟨n, rfl, rfl⟩
  | none =>
    refine .inr ⟨rfl, fun entry found => ?_⟩
    simp only at found
    split at found
    · obtain ⟨x, -, rfl⟩ := Option.map_eq_some_iff.mp found
      exact ⟨x, rfl⟩
    · cases found

theorem value?_eq_int_iff (trimmed : Text.trim body = c :: tail) (bare : c ≠ '(')
    (unquoted : c ≠ '"') (positive : c ≠ '-') {n : Int64} :
    value? body = some (.int n) ↔
      integer? (Text.dropEndWhile isIntegerMark (c :: tail)) = some n := by
  rcases value?_unquoted trimmed bare unquoted positive with
    ⟨m, read, found⟩ | ⟨unread, isFloat⟩
  · rw [read, found]
    simp
  · rw [unread]
    constructor
    · intro found
      obtain ⟨x, isInt⟩ := isFloat _ found
      cases isInt
    · nofun

/-! Bodies of one token. -/

theorem isBlank_eq_false (isPart : isNumberPart c = true) : Text.isBlank c = false := by
  simp only [isNumberPart, Decimal.isDigit, Bool.or_eq_true, Bool.and_eq_true, decide_eq_true_eq,
    beq_iff_eq, Char.le_def, UInt32.le_iff_toNat_le] at isPart
  have bounds : 46 ≤ c.toNat ∧ c.toNat ≤ 122 := by
    rcases isPart with ((⟨low, high⟩ | ⟨low, high⟩) | ⟨low, high⟩) | rfl
    · exact ⟨Nat.le_trans (by decide) low, Nat.le_trans high (by decide)⟩
    · exact ⟨Nat.le_trans (by decide) low, Nat.le_trans high (by decide)⟩
    · exact ⟨Nat.le_trans (by decide) low, Nat.le_trans high (by decide)⟩
    · decide
  simp only [Text.isBlank, Bool.or_eq_false_iff, Bool.and_eq_false_iff, decide_eq_false_iff_not,
    beq_eq_false_iff_ne]
  omega

/-- Whether a text spells a literal as the table reads it. -/
def spells (text : List Char) : TokenKind → Bool
  | .int value unsigned =>
    text.all isNumberPart && (!Numeral.isOctal text || value < 8) &&
      (!unsigned || Int32.maxValue.toInt64 < value)
  | .text value => text == '"' :: value.toList ++ ['"']
  | _ => false

def kinds (text : List Char) : Except LexError (List TokenKind) :=
  (tokenize (String.ofList text)).map (List.map Token.kind)

theorem mark_plain (isMark : c = '/' ∨ c = '#') :
    isIntegerMark c = false ∧ isNumberPart c = false ∧ c ≠ '-' ∧ c ≠ '+' := by
  rcases isMark with rfl | rfl <;> decide

theorem value?_eq_int_iff_of_single (read : kinds body = .ok [.int n unsigned, .endOfFile]) :
    0 ≤ n ∧ (value? body = some (.int n) ↔ (Text.trim body).all isNumberPart = true ∧
      (Numeral.isOctal (Text.trim body) = true → n < 8)) := by
  obtain ⟨front, taken, back, rfl, inFront, inBack, before⟩ := Lexeme.single_of_tokenize read
  have numeral := before.numeral
  have visible : ∀ c ∈ taken, Text.isBlank c = false := fun c member =>
    isBlank_eq_false (numeral.isNumberPart c member)
  obtain ⟨first, rest, starts, digit⟩ := numeral.head
  obtain ⟨c, tail, trimmed, heads⟩ :=
    Lexeme.trim_head inFront (show taken.head? = some first by rw [starts]; rfl)
      (visible first (by simp [starts])) back
  have plain : c ≠ '(' ∧ c ≠ '"' ∧ c ≠ '-' := by
    rcases heads with rfl | rfl | rfl
    · refine ⟨?_, ?_, ?_⟩ <;> rintro rfl <;> cases digit
    · decide
    · decide
  refine ⟨numeral.nonnegative, ?_⟩
  rw [value?_eq_int_iff trimmed plain.1 plain.2.1 plain.2.2, ← trimmed]
  rcases Lexeme.trim_eq_or_mark inFront inBack before.shape.text_ne_nil visible with
    whole | ⟨mark, member, isMark⟩
  · rw [whole, numeral.integer?_eq_some_iff]
    have parts : taken.all isNumberPart = true := all_eq_true.mpr numeral.isNumberPart
    simp [parts]
  · -- The table reads the comment as part of the numeral, and no numeral contains its mark.
    obtain ⟨stays, noPart, noMinus, noPlus⟩ := mark_plain isMark
    constructor
    · intro found
      have part := mem_of_integer? found mark (Text.mem_dropEndWhile stays member)
      simp [noPart, noMinus, noPlus] at part
    · rintro ⟨parts, -⟩
      have part := all_eq_true.mp parts mark member
      rw [noPart] at part
      cases part

theorem value?_eq_text_iff_of_single (read : kinds body = .ok [.text str, .endOfFile]) :
    value? body = some (.text str) ↔ Text.trim body = '"' :: str.toList ++ ['"'] := by
  obtain ⟨front, taken, back, rfl, inFront, inBack, before⟩ := Lexeme.single_of_tokenize read
  have quote : taken.head? = some '"' := by
    have shape := before.shape
    generalize isText : some (TokenKind.text str) = kind? at shape
    cases shape with
    | text => rfl
    | number _ numeric =>
      cases isText
      cases numeric
    | word =>
      simp only [wordKind, Option.some.injEq] at isText
      split at isText <;> cases isText
    | _ => cases isText
  obtain ⟨c, tail, trimmed, heads⟩ := Lexeme.trim_head inFront quote (by decide) back
  rw [trimmed]
  rcases heads with rfl | isMark
  · exact value?_quoted trimmed
  · have plain : c ≠ '(' ∧ c ≠ '"' ∧ c ≠ '-' := by
      rcases isMark with rfl | rfl <;> decide
    constructor
    · intro found
      rcases value?_unquoted trimmed plain.1 plain.2.1 plain.2.2 with
        ⟨n, -, isInt⟩ | ⟨-, isFloat⟩
      · cases found.symm.trans isInt
      · obtain ⟨x, isText⟩ := isFloat _ found
        cases isText
    · intro same
      exact absurd (List.cons.inj same).1 plain.2.1

end Macro

/-- An integer or text token, the node that the grammar makes of it and the value of the node. -/
inductive Literal : TokenKind → NodeKind → Value → Prop where
  | int (n : Int64) (unsigned : Bool) :
      Literal (.int n unsigned) (.intLiteral n unsigned) (.ofLiteral n unsigned)
  | text (str : String) : Literal (.text str) (.stringLiteral str) (.text str)

namespace Literal

variable {kind : TokenKind} {node : NodeKind} {value : Value}

theorem primary (literal : Literal kind node value) {tokens : List Token}
    (single : tokens.map Token.kind = [kind, .endOfFile]) (expression : Parse NodeId) :
    ∃ loc, Parse.primary expression { tokens } =
      .ok (0, { tokens := tokens.tail, nodes := #[⟨node, loc⟩] }) := by
  obtain ⟨⟨_, loc⟩, _, rfl, rfl, last⟩ := map_eq_cons_iff.mp single
  obtain ⟨⟨_, final⟩, _, rfl, rfl, nothing⟩ := map_eq_cons_iff.mp last
  obtain rfl := map_eq_nil_iff.mp nothing
  refine ⟨loc, ?_⟩
  cases literal with
  | int n unsigned => rfl
  | text str =>
    have joined : String.join [str] = str := by simp [String.join]
    have node : NodeKind.stringLiteral (String.join [str]) = .stringLiteral str :=
      congrArg NodeKind.stringLiteral joined
    rw [← node]
    rfl

theorem eval (literal : Literal kind node value) {id : NodeId} (isNode : fw.program.kind id = node)
    (ctx : Context) : Act.eval fw id ctx = .ok () { ctx with values := value :: ctx.values } := by
  have pushed : Act.eval fw id = Act.push value := by
    cases literal <;> simp only [Act.eval, isNode]
  exact congrFun pushed ctx

theorem value?_iff (literal : Literal kind node value)
    (read : kinds body = .ok [kind, .endOfFile]) :
    (∃ entry, value? body = some entry ∧ entry.value = value) ↔
      spells (Text.trim body) kind = true := by
  cases literal with
  | int n unsigned =>
    obtain ⟨nonnegative, isInt⟩ := value?_eq_int_iff_of_single read
    have spelled : spells (Text.trim body) (.int n unsigned) = true ↔
        ((Text.trim body).all isNumberPart = true ∧
          (Numeral.isOctal (Text.trim body) = true → n < 8)) ∧
        (unsigned = true → Int32.maxValue.toInt64 < n) := by
      simp only [spells, Bool.and_eq_true, Bool.or_eq_true, Bool.not_eq_true',
        decide_eq_true_eq, ← Bool.not_eq_true, imp_iff_not_or]
    rw [spelled, ← isInt]
    constructor
    · rintro ⟨entry, found, same⟩
      obtain ⟨rfl, fits⟩ := (MacroValue.value_eq_ofLiteral_iff nonnegative unsigned).mp same
      exact ⟨found, fits⟩
    · rintro ⟨found, fits⟩
      refine ⟨.int n, found, ?_⟩
      exact (MacroValue.value_eq_ofLiteral_iff nonnegative unsigned).mpr ⟨rfl, fits⟩
  | text str =>
    simp only [MacroValue.value_eq_text_iff, spells, beq_iff_eq, exists_eq_right]
    exact value?_eq_text_iff_of_single read

end Literal

namespace Firmware

/-- The name is in the macro table and means a value, wherever it is no variable. -/
structure Names (fw : Firmware) (name : String) (value : Value) : Prop where
  listed : (fw.macros.lookup name).isSome = true
  resolved : fw.resolve name = .ok value
  evaluated (use : NodeId) (isName : fw.program.kind use = .identifier name)
    (ctx : Context) (free : ctx.env.lookup? name = none) :
    Act.eval fw use ctx = .ok () { ctx with values := value :: ctx.values }

theorem names_iff {fw : Firmware} : fw.Names name value ↔
      ∃ entry, fw.macros.lookup name = some entry ∧ entry.value = value := by
  constructor
  · intro names
    obtain ⟨entry, found⟩ := Option.isSome_iff_exists.mp names.listed
    have resolved := names.resolved
    simp only [resolve, found] at resolved
    exact ⟨entry, found, Except.ok.inj resolved⟩
  · rintro ⟨entry, found, rfl⟩
    have resolved : fw.resolve name = .ok entry.value := by simp only [resolve, found]
    refine ⟨by rw [found]; rfl, resolved, fun use isName ctx free => ?_⟩
    have named : Act.eval fw use = Act.evalName fw name (fw.program.location use) := by
      simp only [Act.eval, isName]
    have sees (next : Environment → Act Unit) :
        (Act.environment >>= next) ctx = next ctx.env ctx := rfl
    rw [named, Act.evalName, sees, free, resolved]
    rfl

end Firmware

/-- A name that stands for one literal has the value of that literal in the macro table exactly
when its body spells the literal as the table reads it. -/
theorem names_literal_iff {source : String} {lines : List (List Char)} {definitions : Definitions}
    {name : String} {body : List Char} {tokens : List Token} {kind : TokenKind} {node : NodeKind}
    {value : Value}
    (expanded : Macro.expandLines [] 1 (Macro.lines source.toList) = .ok (lines, definitions))
    (defined : definitions.lookup name = some body)
    (read : tokenize (String.ofList (Macro.expand definitions Macro.expansionDepth body)) =
      .ok tokens)
    (single : tokens.map Token.kind = [kind, .endOfFile]) (literal : Literal kind node value) :
    ∃ output, preprocess source = .ok output ∧
      (∀ expression, ∃ location, Parse.primary expression { tokens } =
        .ok (0, { tokens := tokens.tail, nodes := #[⟨node, location⟩] })) ∧
      ∀ firmware : Firmware, firmware.macros = output.macros →
        (∀ id, firmware.program.kind id = node → ∀ context, Act.eval firmware id context =
          .ok () { context with values := value :: context.values }) ∧
        (firmware.Names name value ↔
          Macro.spells (Text.trim (Macro.expand definitions Macro.expansionDepth body)) kind =
            true) := by
  refine ⟨_, bind_eq_ok.mpr ⟨_, expanded, rfl⟩, literal.primary single, ?_⟩
  intro firmware macros
  refine ⟨fun id isNode => literal.eval isNode, ?_⟩
  have none : Definitions.Distinct [] := nodup_nil
  have distinct := Macro.distinct_of_expandLines none expanded
  have kinds : Macro.kinds (Macro.expand definitions Macro.expansionDepth body) =
      .ok [kind, .endOfFile] := by
    rw [Macro.kinds, read, Except.map, single]
  have listed : firmware.macros.lookup name =
      Macro.value? (Macro.expand definitions Macro.expansionDepth body) := by
    rw [macros]
    refine (Macro.lookup_table distinct name).trans ?_
    rw [defined]
    rfl
  rw [Firmware.names_iff, listed]
  exact literal.value?_iff kinds

/-- A numeral with a leading zero, and one without. -/
def modes : String := "#define MODE 010\n#define PIN 13\n"

def modesDefinitions : Definitions := [("PIN", ['1', '3']), ("MODE", ['0', '1', '0'])]

theorem modes_disagree :
    ∃ output, preprocess modes = .ok output ∧
      ∀ firmware : Firmware, firmware.macros = output.macros →
        ¬ firmware.Names "MODE" (.int 8) ∧ firmware.Names "PIN" (.int 13) := by
  have expanded : Macro.expandLines [] 1 (Macro.lines modes.toList) =
      .ok ([[], []], modesDefinitions) := by
    decide +kernel
  have modeDefined : modesDefinitions.lookup "MODE" = some ['0', '1', '0'] := rfl
  have modeRead : tokenize (String.ofList (Macro.expand modesDefinitions Macro.expansionDepth
      ['0', '1', '0'])) = .ok [⟨.int 8 false, ⟨1, 1⟩⟩, ⟨.endOfFile, ⟨1, 4⟩⟩] := by
    decide +kernel
  have pinDefined : modesDefinitions.lookup "PIN" = some ['1', '3'] := rfl
  have pinRead : tokenize (String.ofList (Macro.expand modesDefinitions Macro.expansionDepth
      ['1', '3'])) = .ok [⟨.int 13 false, ⟨1, 1⟩⟩, ⟨.endOfFile, ⟨1, 3⟩⟩] := by
    decide +kernel
  obtain ⟨output, processed, -, mode⟩ :=
    names_literal_iff expanded modeDefined modeRead rfl (.int 8 false)
  obtain ⟨_, processedAgain, -, pin⟩ :=
    names_literal_iff expanded pinDefined pinRead rfl (.int 13 false)
  cases processed.symm.trans processedAgain
  refine ⟨output, processed, fun firmware macros => ⟨fun names => ?_, ?_⟩⟩
  · have spelled := (mode firmware macros).2.mp names
    revert spelled
    decide +kernel
  · exact (pin firmware macros).2.mpr (by decide +kernel)

end Breadboard
