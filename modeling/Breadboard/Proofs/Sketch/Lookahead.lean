import Breadboard.Proofs.Machine.Answer
import Breadboard.Sketch.Macro
import Mathlib.Data.List.Infix
import Mathlib.Data.List.TakeWhile

/-!
How far the lexer looks ahead. What a step of the scan takes and yields is settled by the
characters that it takes and the one behind them: before any other text that begins with the same
character, or that ends as well, it does the same.
-/

open List

namespace Breadboard

open Decimal Breadboard.Symbol

variable {run rest final : List Char}

/-! Runs of characters. -/

theorem takeWhile_run (inside : ∀ c ∈ run, accept c = true)
    (ends : ∀ c ∈ rest.head?, accept c = false) : (run ++ rest).takeWhile accept = run := by
  rw [takeWhile_append_of_pos inside]
  cases rest with
  | nil => simp
  | cons c tail => simp [ends c rfl]

theorem dropWhile_run (inside : ∀ c ∈ run, accept c = true)
    (ends : ∀ c ∈ rest.head?, accept c = false) : (run ++ rest).dropWhile accept = rest := by
  rw [dropWhile_append_of_pos inside]
  cases rest with
  | nil => simp
  | cons c tail => simp [ends c rfl]

/-! Symbols. -/

theorem head?_eq_cons (alike : other.head? = final.head?)
    {tail : List Char} (starts : other = c :: tail) : ∃ more, final = c :: more := by
  subst starts
  cases final with
  | nil => cases alike
  | cons d more =>
    cases alike
    exact ⟨more, rfl⟩

/-- A symbol is its spelling, and the next character shows that no longer one is meant. -/
theorem Symbol.scan?_again (out : scan? text = some (symbol, final)) :
    ∃ taken, text = taken ++ final ∧ symbol.spelling.toList = taken ∧
      ∀ other : List Char, other.head? = final.head? →
        scan? (taken ++ other) = some (symbol, other) := by
  revert out
  fun_cases scan? text
  all_goals intro out
  case case18 rest longer | case20 rest longer =>
    cases out
    refine ⟨[_, _], rfl, rfl, fun other alike => ?_⟩
    simp only [cons_append, nil_append]
    rw [scan?]
    intro tail starts
    obtain ⟨more, opens⟩ := head?_eq_cons alike starts
    exact longer more opens
  case case22 c rest _ _ _ _ _ _ _ _ _ _ _ _ _ _ _ _ _ _ _ _ _ single? =>
    obtain ⟨found, isSingle, pair⟩ := Option.map_eq_some_iff.mp out
    cases pair
    refine ⟨[c], rfl, ?_, fun other alike => ?_⟩
    · revert isSingle
      simp only [single?]
      split <;> intro isSingle <;> cases isSingle <;> rfl
    · simp only [cons_append, nil_append]
      unfold scan?
      split
      case h_22 c' rest' _ _ _ _ _ _ _ _ _ _ _ _ _ _ _ _ _ _ _ _ _ same =>
        cases same
        exact congrArg (Option.map fun symbol => (symbol, other)) isSingle
      case h_23 same => cases same
      all_goals
        rename_i same
        obtain ⟨rfl, starts⟩ := List.cons.inj same
        obtain ⟨more, opens⟩ := head?_eq_cons alike starts
        subst opens
        simp at *
  all_goals cases out
  all_goals exact ⟨_, rfl, rfl, fun other _ => rfl⟩

theorem Symbol.spelling_ne_nil (symbol : Symbol) : symbol.spelling.toList ≠ [] := by
  cases symbol <;> decide

namespace Macro

variable {quote : Char}

/-! Quoted literals. -/

theorem literal_plain (inside : c ≠ quote) (unescaped : c ≠ '\\') (rest : List Char) :
    literal quote (c :: rest) = (c :: (literal quote rest).1, (literal quote rest).2) := by
  rw [literal]
  · rw [if_neg inside]
  all_goals simp [unescaped]

theorem literal_run (plain : ∀ c ∈ run, c ≠ quote ∧ c ≠ '\\') (rest : List Char) :
    literal quote (run ++ rest) = (run ++ (literal quote rest).1, (literal quote rest).2) := by
  induction run with
  | nil => rfl
  | cons c run ih =>
    obtain ⟨inside, unescaped⟩ := plain c mem_cons_self
    rw [cons_append, literal_plain inside unescaped,
      ih fun d member => plain d (mem_cons_of_mem _ member)]
    rfl

theorem literal_quote (unescaped : quote ≠ '\\') (rest : List Char) :
    literal quote (quote :: rest) = ([quote], rest) := by
  rw [literal]
  · rw [if_pos rfl]
  all_goals simp [unescaped]

end Macro

namespace Cursor

variable {α β : Type} (first : Char) {c : Char} {final : Cursor} {rest : List Char}

abbrev Reader (α : Type) := Location → Cursor → Except LexError (α × Cursor)

/-- Reading is settled by the characters that are taken and the one behind them. Positions do not
matter. -/
structure Settles (reader : Reader α) : Prop where
  again (opening : Location) {cursor final : Cursor} {value : α}
    (out : reader opening cursor = .ok (value, final)) :
    ∃ taken, cursor.rest = taken ++ final.rest ∧
      ∀ other, other.head? = final.rest.head? → ∀ opening loc, ∃ reached,
        reader opening ⟨taken ++ other, loc⟩ = .ok (value, ⟨other, reached⟩)

theorem head?_append_of_head? {other final : List Char} (alike : other.head? = final.head?)
    (taken : List Char) : (taken ++ other).head? = (taken ++ final).head? := by
  cases taken with
  | nil => exact alike
  | cons c tail => rfl

theorem settles_pure (value : α) : Settles fun _ cursor => .ok (value, cursor) := by
  constructor
  intro opening cursor final res out
  cases out
  exact ⟨[], rfl, fun other _ _ loc => ⟨loc, rfl⟩⟩

theorem settles_error (fault : Location → Cursor → LexError) :
    Settles (fun opening cursor => .error (fault opening cursor) : Reader α) := by
  constructor
  intro opening cursor final res out
  cases out

theorem Settles.bind {next : α → Reader β} (first : Settles reader)
    (second : ∀ value, Settles (next value)) :
    Settles fun opening cursor => reader opening cursor >>= fun (value, behind) =>
      next value opening behind := by
  constructor
  intro opening cursor final res out
  cases read : reader opening cursor with
  | error fault =>
    rw [read] at out
    cases out
  | ok pair =>
    obtain ⟨value, behind⟩ := pair
    rw [read] at out
    obtain ⟨front, atFront, reread⟩ := first.again opening read
    obtain ⟨back, atBack, continued⟩ := (second value).again opening out
    refine ⟨front ++ back, by rw [atFront, atBack, append_assoc], ?_⟩
    intro other alike opening loc
    have opens : (back ++ other).head? = behind.rest.head? := by
      rw [atBack]
      exact head?_append_of_head? alike back
    obtain ⟨middle, readFront⟩ := reread (back ++ other) opens opening loc
    obtain ⟨reached, readBack⟩ := continued other alike opening middle
    refine ⟨reached, ?_⟩
    rw [append_assoc, readFront]
    exact readBack

theorem Settles.map (settled : Settles reader) (build : α → β) :
    Settles fun opening cursor => reader opening cursor >>= fun (value, final) =>
      .ok (build value, final) :=
  settled.bind fun value => settles_pure (build value)

theorem Settles.ite (cond : Prop) [Decidable cond] (first : Settles reader)
    (second : Settles other) : Settles fun opening cursor =>
      if cond then reader opening cursor else other opening cursor := by
  split
  · exact first
  · exact second

theorem Settles.peek {branch : Option Char → Reader α} (each : ∀ next?, Settles (branch next?)) :
    Settles fun opening cursor => branch cursor.rest.head? opening cursor := by
  constructor
  intro opening cursor final res out
  obtain ⟨taken, split, reread⟩ := (each _).again opening out
  refine ⟨taken, split, fun other alike opening loc => ?_⟩
  have opens : (taken ++ other).head? = cursor.rest.head? := by
    rw [split]
    exact head?_append_of_head? alike taken
  simp only [opens]
  exact reread other alike opening loc

theorem Settles.behind {branch : Char → Reader α}
    (fault : Location → Location → LexError) (each : ∀ c, Settles (branch c)) :
    Settles fun opening cursor => match cursor.rest with
      | [] => .error (fault opening cursor.location)
      | c :: rest => branch c opening ⟨rest, cursor.location.next c⟩ := by
  constructor
  rintro opening ⟨_ | ⟨c, rest⟩, loc⟩ final res out
  · cases out
  · obtain ⟨taken, split, reread⟩ := (each c).again opening out
    refine ⟨c :: taken, congrArg (c :: ·) split, fun other alike opening loc => ?_⟩
    exact reread other alike opening (loc.next c)

/-- A reader that takes a character of one kind, if there is one, and otherwise reads here. -/
theorem Settles.choice (accept : Char → Prop) [DecidablePred accept]
    {onward : Char → Reader α} (forward : ∀ c, Settles (onward c)) (stay : Settles here) :
    Settles fun opening cursor => match cursor.rest with
      | c :: rest =>
        if accept c then onward c opening ⟨rest, cursor.location.next c⟩ else here opening cursor
      | [] => here opening cursor := by
  constructor
  rintro opening ⟨rest, loc⟩ final res out
  by_cases goes : ∃ c tail, rest = c :: tail ∧ accept c
  · obtain ⟨c, tail, rfl, accepted⟩ := goes
    simp only [accepted, if_true] at out
    obtain ⟨taken, split, reread⟩ := (forward c).again opening out
    refine ⟨c :: taken, congrArg (c :: ·) split, fun other alike opening loc => ?_⟩
    simp only [cons_append, accepted, if_true]
    exact reread other alike opening (loc.next c)
  · have stays : ∀ (text : List Char) (opening loc : Location), text.head? = rest.head? →
        (match text with
        | c :: tail =>
          if accept c then onward c opening ⟨tail, loc.next c⟩
          else here opening ⟨text, loc⟩
        | [] => here opening ⟨text, loc⟩) = here opening ⟨text, loc⟩ := by
      intro text opening loc alike
      cases text with
      | nil => rfl
      | cons c tail =>
        cases rest with
        | nil => cases alike
        | cons d more =>
          cases alike
          exact if_neg fun accepted => goes ⟨c, more, rfl, accepted⟩
    simp only [stays rest opening loc rfl] at out
    obtain ⟨taken, split, reread⟩ := stay.again opening out
    refine ⟨taken, split, fun other alike opening loc => ?_⟩
    have opens : (taken ++ other).head? = rest.head? := by
      rw [show rest = taken ++ final.rest from split]
      exact head?_append_of_head? alike taken
    simp only [stays (taken ++ other) opening loc opens]
    exact reread other alike opening loc

theorem settles_span (accept : Char → Bool) : Settles fun _ cursor => .ok (cursor.span accept) := by
  constructor
  rintro opening ⟨rest, loc⟩ final res out
  cases out
  refine ⟨rest.takeWhile accept, takeWhile_append_dropWhile.symm, ?_⟩
  intro other alike opening loc
  have ends : ∀ c ∈ other.head?, accept c = false := by
    have stop := List.head?_dropWhile_not accept rest
    rintro c next
    rw [← alike, Option.mem_def.mp next] at stop
    exact stop
  have run : ∀ c ∈ rest.takeWhile accept, accept c = true := fun c member =>
    mem_takeWhile_imp member
  refine ⟨loc.advance (rest.takeWhile accept), ?_⟩
  simp only [span]
  rw [takeWhile_run run ends, dropWhile_run run ends]

theorem settles_integerMarks : Settles fun _ cursor => .ok cursor.integerMarks :=
  (settles_span isIntegerMark).map fun marks => marks.any fun c => c == 'u' || c == 'U'

theorem Settles.congr {reader other : Reader α} (settled : Settles other) (same : ∀ opening cursor,
      (reader opening cursor).toOption = (other opening cursor).toOption) : Settles reader := by
  have ok_iff : ∀ (opening : Location) (cursor final : Cursor) (value : α),
      reader opening cursor = .ok (value, final) ↔ other opening cursor = .ok (value, final) := by
    intro opening cursor final value
    have equal := same opening cursor
    cases left : reader opening cursor <;> cases right : other opening cursor <;>
      simp_all [Except.toOption]
  constructor
  intro opening cursor final value out
  obtain ⟨taken, split, reread⟩ := settled.again opening ((ok_iff ..).mp out)
  refine ⟨taken, split, fun next alike opening loc => ?_⟩
  obtain ⟨reached, read⟩ := reread next alike opening loc
  exact ⟨reached, (ok_iff ..).mpr read⟩

theorem settles_floatMark : Settles fun _ cursor => .ok ((), cursor.floatMark) := by
  refine Settles.congr (Settles.choice (fun c => c = 'f' ∨ c = 'F') (fun _ => settles_pure ())
    (settles_pure ())) ?_
  rintro - ⟨_ | ⟨c, rest⟩, loc⟩
  · rfl
  · simp only [floatMark]
    split <;> rfl

theorem settles_fractionPart : Settles fun _ cursor => .ok cursor.fractionPart := by
  refine Settles.congr (Settles.choice (· = '.')
    (fun _ => (settles_span isDigit).map ('.' :: ·)) (settles_pure [])) ?_
  rintro - ⟨_ | ⟨c, rest⟩, loc⟩
  · rfl
  · by_cases point : c = '.'
    · subst point
      rfl
    · simp [fractionPart, point]

theorem settles_exponentPart : Settles fun _ cursor => .ok cursor.exponentPart := by
  have digits := fun sign => (settles_span isDigit).map ('e' :: sign ++ ·)
  refine Settles.congr (Settles.choice (fun c => c = 'e' ∨ c = 'E')
    (fun _ => Settles.choice (fun c => c = '+' ∨ c = '-') (fun c => digits [c]) (digits []))
    (settles_pure [])) ?_
  rintro - ⟨_ | ⟨mark, rest⟩, loc⟩
  · rfl
  · simp only [exponentPart]
    split
    · cases rest with
      | nil => rfl
      | cons c tail =>
        simp only
        split <;> rfl
    · rfl

theorem settles_int (value? : Option Int64) (text : List Char) (unsigned : Bool) :
    Settles fun opening cursor => match value? with
      | some value => .ok (TokenKind.int value unsigned, cursor)
      | none => fail opening (.badNumber (String.ofList text)) := by
  cases value? with
  | none => exact settles_error fun opening _ => ⟨_, opening⟩
  | some value => exact settles_pure (TokenKind.int value unsigned)

theorem settles_float (value? : Option Binary64) (text : List Char) :
    Settles fun opening cursor => match value? with
      | some value => .ok (TokenKind.float value, cursor.floatMark)
      | none => fail opening (.badNumber (String.ofList text)) := by
  cases value? with
  | none => exact settles_error fun opening _ => ⟨_, opening⟩
  | some value => exact settles_floatMark.map fun _ => TokenKind.float value

theorem settles_prefixedNumber (radix : Nat) :
    Settles fun opening cursor => prefixedNumber opening radix cursor :=
  (settles_span _).bind fun digits => settles_integerMarks.bind (settles_int _ digits)

theorem settles_decimalNumber :
    Settles fun opening cursor => decimalNumber opening first cursor := by
  have fraction : Settles fun _ cursor =>
      .ok (if first = '.' then ([], cursor) else cursor.fractionPart) := by
    split
    · exact settles_pure []
    · exact settles_fractionPart
  have float (text : List Char) := settles_float (read? text) text
  have integer (text : List Char) := settles_int (integerValue? text) text
  exact (settles_span isDigit).bind fun digits => fraction.bind fun fraction =>
    settles_exponentPart.bind fun exponent =>
      (float (first :: digits ++ fraction ++ exponent)).ite
        (first = '.' ∨ fraction ≠ [] ∨ exponent ≠ [])
        (settles_integerMarks.bind (integer (first :: digits ++ fraction ++ exponent)))

theorem settles_number : Settles fun opening cursor => number opening first cursor := by
  by_cases zero : first = '0'
  · subst zero
    refine Settles.congr (Settles.choice (fun c => c = 'x' ∨ c = 'X')
      (fun _ => settles_prefixedNumber 16)
      (Settles.choice (fun c => c = 'b' ∨ c = 'B') (fun _ => settles_prefixedNumber 2)
        (settles_decimalNumber '0'))) ?_
    rintro opening ⟨_ | ⟨mark, rest⟩, loc⟩ <;> rfl
  · refine Settles.congr (settles_decimalNumber first) fun opening cursor => ?_
    unfold number
    split
    · exact absurd rfl zero
    · rfl

def hexEscape (opening : Location) (cursor : Cursor) : Except LexError (UInt8 × Cursor) :=
  let digits := (cursor.rest.take 2).takeWhile isHexDigit
  match Text.readNatural? 16 digits with
  | some value =>
    .ok (value.toUInt8, ⟨cursor.rest.drop digits.length, cursor.location.advance digits⟩)
  | none => fail opening (.badHexEscape (String.ofList digits))

theorem settles_byte (digits : List Char) :
    Settles fun opening cursor => match Text.readNatural? 16 digits with
      | some value => .ok (value.toUInt8, cursor)
      | none => fail opening (.badHexEscape (String.ofList digits)) := by
  cases Text.readNatural? 16 digits with
  | none => exact settles_error fun opening _ => ⟨_, opening⟩
  | some value => exact settles_pure value.toUInt8

theorem settles_hexEscape : Settles hexEscape := by
  refine Settles.congr (Settles.choice (isHexDigit · = true)
    (fun first => Settles.choice (isHexDigit · = true) (fun second => settles_byte [first, second])
      (settles_byte [first])) (settles_byte [])) ?_
  rintro opening ⟨_ | ⟨first, rest⟩, loc⟩
  · rfl
  · by_cases isHex : isHexDigit first
    · cases rest with
      | nil =>
        simp only [hexEscape, List.take, List.takeWhile, isHex, if_true]
        rfl
      | cons second tail =>
        by_cases alsoHex : isHexDigit second <;>
          simp only [hexEscape, List.take, List.takeWhile, isHex, alsoHex, if_true] <;> rfl
    · simp only [hexEscape, List.take, List.takeWhile, isHex]
      rfl

theorem settles_escapeOf (c : Char) : Settles fun opening cursor => match c with
    | 'n' => .ok (0x0A, cursor)
    | 't' => .ok (0x09, cursor)
    | 'r' => .ok (0x0D, cursor)
    | '\\' => .ok (0x5C, cursor)
    | '\'' => .ok (0x27, cursor)
    | '"' => .ok (0x22, cursor)
    | '0' => .ok (0, cursor)
    | 'x' => hexEscape opening cursor
    | _ => .error ⟨.unknownEscape c, opening⟩ := by
  split
  case h_8 => exact settles_hexEscape
  case h_9 => exact settles_error _
  all_goals exact settles_pure _

theorem settles_escape : Settles fun _ cursor => escape cursor := by
  refine Settles.congr (Settles.behind (fun opening _ => ⟨.endInEscape, opening⟩)
    settles_escapeOf) ?_
  rintro opening ⟨_ | ⟨c, rest⟩, loc⟩
  · rfl
  · simp only [escape]
    split
    case h_8 =>
      simp only [hexEscape]
      split <;> simp_all [Except.toOption, fail]
    case h_9 => simp_all [Except.toOption, fail]
    all_goals rfl

theorem settles_closingQuote (byte : UInt8) : Settles fun _ cursor => match cursor.rest with
    | '\'' :: final => .ok (byte, ⟨final, cursor.location.next '\''⟩)
    | other :: _ => fail (cursor.location.next other) .missingQuote
    | [] => fail cursor.location .missingQuote := by
  refine Settles.congr (Settles.choice (· = '\'') (fun _ => settles_pure byte)
    (settles_error fun opening _ => ⟨.missingQuote, opening⟩)) ?_
  rintro opening ⟨_ | ⟨c, rest⟩, loc⟩
  · rfl
  · by_cases closes : c = '\''
    · subst closes
      rfl
    · simp [closes]
      rfl

theorem settles_characterBody : Settles fun opening cursor => characterBody opening cursor := by
  refine Settles.congr (Settles.behind (fun opening _ => ⟨.endInCharacter, opening⟩) fun c =>
    (settles_escape.ite (c = '\\') (settles_pure c.toNat.toUInt8)).bind settles_closingQuote) ?_
  rintro opening ⟨_ | ⟨c, rest⟩, loc⟩
  · rfl
  · exact congrArg Except.toOption (apply_ite (· >>= _) (c = '\\') _ _).symm

theorem isHexDigit_plain (hex : isHexDigit c = true) :
    c ≠ '\n' ∧ c ≠ '\\' ∧ c ≠ '"' ∧ c ≠ '\'' := by
  refine ⟨?_, ?_, ?_, ?_⟩ <;> rintro rfl <;> revert hex <;> decide

/-- An escape is one character and perhaps hexadecimal digits, all on one line. -/
theorem escape_text {cursor : Cursor} (out : cursor.escape = .ok (byte, final)) :
    ∃ c digits, cursor.rest = c :: digits ++ final.rest ∧ '\n' ∉ c :: digits ∧
      ∀ d ∈ digits, d ≠ '\\' ∧ d ≠ '"' ∧ d ≠ '\'' := by
  obtain ⟨_ | ⟨c, rest⟩, loc⟩ := cursor
  · cases out
  · simp only [escape] at out
    split at out
    case h_8 =>
      split at out <;> cases out
      have plain : ∀ d ∈ (rest.take 2).takeWhile isHexDigit,
          d ≠ '\n' ∧ d ≠ '\\' ∧ d ≠ '"' ∧ d ≠ '\'' :=
        fun d member => isHexDigit_plain (mem_takeWhile_imp member)
      refine ⟨'x', (rest.take 2).takeWhile isHexDigit, ?_, ?_, fun d member =>
        (plain d member).2⟩
      · have starts : (rest.take 2).takeWhile isHexDigit <+: rest :=
          ( takeWhile_prefix _).trans ( take_prefix 2 rest)
        exact congrArg ('x' :: ·) (prefix_append_drop starts)
      · intro member
        rcases mem_cons.mp member with isX | inDigits
        · cases isX
        · exact (plain _ inDigits).1 rfl
    case h_9 => cases out
    all_goals
      cases out
      exact ⟨_, [], rfl, by decide, fun d member => absurd member not_mem_nil⟩

/-- A text literal closes where the macro expander finds its closing quote, on the same line. -/
theorem textBody_again (out : textBody opening fuel cursor = .ok (body, final)) :
    ∃ taken, taken ≠ [] ∧ cursor.rest = taken ++ final.rest ∧ '\n' ∉ taken ∧
      (∀ other, Macro.literal '"' (taken ++ other) = (taken, other)) ∧
      ∀ other opening loc more, taken.length ≤ more → ∃ reached,
        textBody opening more ⟨taken ++ other, loc⟩ = .ok (body, ⟨other, reached⟩) := by
  induction fuel generalizing cursor body with
  | zero => cases out
  | succ fuel ih =>
    obtain ⟨_ | ⟨c, rest⟩, loc⟩ := cursor
    · cases out
    simp only [textBody] at out
    split at out
    · rename_i closes
      subst closes
      cases out
      refine ⟨['"'], cons_ne_nil _ _, rfl, by decide, Macro.literal_quote (by decide), ?_⟩
      intro other opening loc more enough
      obtain ⟨more, rfl⟩ := Nat.exists_eq_add_of_le' enough
      exact ⟨loc.next '"', by simp [textBody]⟩
    rename_i unclosed
    split at out
    · cases out
    rename_i sameLine
    split at out
    · rename_i escaped
      subst escaped
      obtain ⟨⟨byte, middle⟩, read, out⟩ := bind_eq_ok.mp out
      obtain ⟨⟨tail, _⟩, continued, same⟩ := bind_eq_ok.mp out
      cases same
      obtain ⟨front, atFront, reread⟩ := settles_escape.again opening read
      obtain ⟨back, nonempty, atBack, oneLine, closed, again⟩ := ih continued
      obtain ⟨c, digits, escaped, unbroken, plain⟩ := escape_text read
      simp only at atFront atBack escaped
      obtain rfl := append_cancel_right (atFront.symm.trans escaped)
      refine ⟨'\\' :: (c :: digits ++ back), cons_ne_nil _ _, ?_, ?_, fun other => ?_, ?_⟩
      · rw [atFront, atBack]
        simp
      · rw [mem_cons, not_or] at unbroken
        simp [unbroken, oneLine]
      · have unquoted : ∀ d ∈ digits, d ≠ '"' ∧ d ≠ '\\' := fun d member =>
          ⟨(plain d member).2.1, (plain d member).1⟩
        simp only [cons_append, append_assoc]
        rw [Macro.literal, Macro.literal_run unquoted, closed]
      intro other opening loc more enough
      simp only [length_cons, length_append] at enough
      obtain ⟨more, rfl⟩ : ∃ fewer, more = fewer + 1 := ⟨more - 1, by omega⟩
      obtain ⟨d, back, rfl⟩ := exists_cons_of_ne_nil nonempty
      have alike : (d :: back ++ other).head? = middle.rest.head? := by
        rw [atBack]
        rfl
      obtain ⟨between, readFront⟩ := reread _ alike opening (loc.next '\\')
      obtain ⟨reached, readBack⟩ := again other opening between more (by omega)
      refine ⟨reached, ?_⟩
      rw [cons_append, append_assoc]
      refine bind_eq_ok.mpr ⟨_, readFront, ?_⟩
      exact bind_eq_ok.mpr ⟨_, readBack, rfl⟩
    · rename_i plain
      obtain ⟨⟨tail, _⟩, continued, same⟩ := bind_eq_ok.mp out
      cases same
      obtain ⟨back, nonempty, atBack, oneLine, closed, again⟩ := ih continued
      refine ⟨c :: back, cons_ne_nil _ _, congrArg (c :: ·) atBack, ?_, fun other => ?_, ?_⟩
      · simp [oneLine, Ne.symm sameLine]
      · rw [cons_append, Macro.literal_plain unclosed plain, closed]
      intro other opening loc more enough
      simp only [length_cons] at enough
      obtain ⟨more, rfl⟩ : ∃ fewer, more = fewer + 1 := ⟨more - 1, by omega⟩
      obtain ⟨reached, readBack⟩ := again other opening (loc.next c) more (by omega)
      refine ⟨reached, ?_⟩
      simp only [textBody, cons_append, unclosed, sameLine, plain, if_false]
      exact bind_eq_ok.mpr ⟨_, readBack, rfl⟩

theorem settles_text : Settles fun opening cursor =>
    textBody opening (cursor.rest.length + 1) cursor := by
  constructor
  intro opening cursor final body out
  obtain ⟨taken, -, split, -, -, again⟩ := textBody_again out
  refine ⟨taken, split, fun other _ opening loc => ?_⟩
  refine again other opening loc _ ?_
  simp only [length_append]
  omega

theorem commentEnd?_cons (onward : ¬ ∃ tail, c = '*' ∧ rest = '/' :: tail) (loc : Location) :
    commentEnd? (c :: rest) loc = commentEnd? rest (loc.next c) := by
  rw [commentEnd?]
  exact fun tail is starts => onward ⟨tail, is, starts⟩

theorem commentEnd?_again (out : commentEnd? text loc = some final) :
    ∃ body, text = body ++ '*' :: '/' :: final.rest ∧ ∀ other loc, ∃ reached,
      commentEnd? (body ++ '*' :: '/' :: other) loc = some ⟨other, reached⟩ := by
  induction text generalizing loc with
  | nil => cases out
  | cons c rest ih =>
    by_cases closes : ∃ tail, c = '*' ∧ rest = '/' :: tail
    · obtain ⟨tail, rfl, rfl⟩ := closes
      cases out
      exact ⟨[], rfl, fun other loc => ⟨_, rfl⟩⟩
    · rw [commentEnd?_cons closes] at out
      obtain ⟨body, split, again⟩ := ih out
      refine ⟨c :: body, congrArg (c :: ·) split, fun other loc => ?_⟩
      obtain ⟨reached, read⟩ := again other (loc.next c)
      refine ⟨reached, ?_⟩
      rw [cons_append, commentEnd?_cons ?_]
      · exact read
      · rintro ⟨tail, is, starts⟩
        cases body with
        | nil => cases starts
        | cons d body =>
          cases starts
          exact closes ⟨_, is, split⟩

theorem settles_comment : Settles fun opening cursor =>
    match commentEnd? cursor.rest cursor.location with
    | some final => .ok ((), final)
    | none => fail opening .unterminatedComment := by
  constructor
  intro opening cursor final value out
  cases ended : commentEnd? cursor.rest cursor.location with rw [ended] at out
  | none => cases out
  | some final =>
    cases out
    obtain ⟨body, split, again⟩ := commentEnd?_again ended
    refine ⟨body ++ ['*', '/'], by simp [split], fun other _ opening loc => ?_⟩
    obtain ⟨reached, read⟩ := again other loc
    exact ⟨reached, by simp [read]⟩

theorem settles_skipLine : Settles fun _ cursor => .ok ((), cursor.skipLine) := by
  refine Settles.congr ((settles_span (· != '\n')).bind fun _ =>
    Settles.choice (fun _ => True) (fun _ => settles_pure ()) (settles_pure ())) ?_
  rintro opening cursor
  simp only [skipLine]
  split <;> simp_all [bind, Except.bind]

theorem settles_symbol (c : Char) : Settles fun opening cursor =>
    match scan? (c :: cursor.rest) with
    | some (symbol, final) => .ok (symbol, ⟨final, opening.advance symbol.spelling.toList⟩)
    | none => fail opening (.unexpectedCharacter c) := by
  constructor
  rintro opening cursor final symbol out
  cases scanned : scan? (c :: cursor.rest) with rw [scanned] at out
  | none => cases out
  | some pair =>
    cases out
    obtain ⟨_ | ⟨d, taken⟩, split, spells, again⟩ := scan?_again scanned
    · exact absurd spells (spelling_ne_nil _)
    · obtain ⟨rfl, behind⟩ := List.cons.inj split
      refine ⟨taken, behind, fun other alike opening loc =>
        ⟨opening.advance pair.1.spelling.toList, ?_⟩⟩
      have scannedAgain := again other alike
      simp only [cons_append] at scannedAgain
      simp only [scannedAgain]

theorem Settles.placed (settled : Settles reader) (place : Location → Cursor → Location) :
    Settles fun opening cursor => reader opening ⟨cursor.rest, place opening cursor⟩ := by
  constructor
  intro opening cursor final value out
  obtain ⟨taken, split, reread⟩ := settled.again opening out
  exact ⟨taken, split, fun other alike opening loc => reread other alike opening _⟩

theorem Settles.opened
    (settled : Settles reader) : Settles fun _ cursor => reader cursor.location cursor := by
  constructor
  intro opening cursor final value out
  obtain ⟨taken, split, reread⟩ := settled.again cursor.location out
  exact ⟨taken, split, fun other alike opening loc => reread other alike _ _⟩

theorem settles_token (c : Char) : Settles fun opening cursor => token c cursor.rest opening := by
  have text := settles_text.map fun body => TokenKind.text (String.ofList body)
  have character := settles_characterBody.map fun byte => TokenKind.char byte.toInt8
  have word := (settles_span isNamePart).map fun tail => wordKind (String.ofList (c :: tail))
  have symbol := (settles_symbol c).map TokenKind.symbol
  have each := fun next? : Option Char =>
    text.ite (c = '"') <| character.ite (c = '\'') <|
      (settles_number c).ite (isDigit c || (c == '.' && next?.any isDigit)) <|
        word.ite (isNameStart c) symbol
  refine Settles.congr ((Settles.peek each).placed fun opening _ => opening.next c) ?_
  intro opening cursor
  have point : startsWithDigit cursor.rest = cursor.rest.head?.any isDigit := by
    cases cursor.rest <;> rfl
  simp only [token, point]
  split
  · rfl
  split
  · rfl
  split
  · rfl
  split
  · rfl
  · cases scan? (c :: cursor.rest) <;> rfl

/-- One step of the scan, with the kind of the token alone. -/
def scan (cursor : Cursor) : Except LexError (Option TokenKind × Cursor) :=
  match cursor.rest with
  | [] => fail cursor.location .endInEscape
  | c :: rest => do
    let (token?, next) ← step c rest cursor.location
    .ok (token?.map Token.kind, next)

theorem skipLine_cons (sameLine : c ≠ '\n') (rest : List Char) (loc : Location) :
    skipLine ⟨c :: rest, loc⟩ = skipLine ⟨rest, loc.next c⟩ := by
  have accepted : (c != '\n') = true := by simpa using sameLine
  simp only [skipLine, span, takeWhile_cons, dropWhile_cons, accepted, if_true]
  rfl

theorem step_blank (blank : Text.isBlank c = true) (rest : List Char)
    (loc : Location) : step c rest loc = .ok (none, ⟨rest, loc.next c⟩) :=
  if_pos blank

theorem step_directive (rest : List Char) (loc : Location) :
    step '#' rest loc = .ok (none, skipLine ⟨rest, loc.next '#'⟩) := by
  rw [← skipLine_cons (by decide)]
  rfl

theorem step_lineComment (rest : List Char) (loc : Location) :
    step '/' ('/' :: rest) loc = .ok (none, skipLine ⟨'/' :: rest, loc.next '/'⟩) := by
  rw [← skipLine_cons (by decide)]
  rfl

theorem step_blockComment (rest : List Char) (loc : Location) :
    step '/' ('*' :: rest) loc = match commentEnd? rest (loc.advance ['/', '*']) with
      | some final => .ok (none, final)
      | none => fail loc .unterminatedComment := rfl

theorem step_token (visible : Text.isBlank c = false) (noDirective : c ≠ '#')
    (noLine : ¬ (c = '/' ∧ rest.head? = some '/')) (noBlock : ¬ (c = '/' ∧ rest.head? = some '*'))
    (loc : Location) : step c rest loc =
      token c rest loc >>= fun (kind, final) => .ok (some ⟨kind, loc⟩, final) := by
  unfold step
  rw [if_neg (by rw [visible]; decide), if_neg noDirective]
  generalize token c rest loc = read
  split
  · exact absurd ⟨rfl, rfl⟩ noLine
  · exact absurd ⟨rfl, rfl⟩ noBlock
  · rfl

theorem settles_scan : Settles fun _ cursor => scan cursor := by
  have skip := settles_skipLine.map fun _ => (none : Option TokenKind)
  have comment := Settles.behind (fun opening _ => ⟨.unterminatedComment, opening⟩) fun _ =>
    settles_comment.map fun _ => (none : Option TokenKind)
  have each := fun (c : Char) (next? : Option Char) =>
    (settles_pure none).ite (Text.isBlank c) <| skip.ite (c = '#' ∨ c = '/' ∧ next? = some '/') <|
        comment.ite (c = '/' ∧ next? = some '*') ((settles_token c).map some)
  refine Settles.congr (Settles.behind (fun opening _ => ⟨.endInEscape, opening⟩) fun c =>
    Settles.peek (each c)).opened ?_
  rintro opening ⟨_ | ⟨c, rest⟩, loc⟩
  · rfl
  simp only [scan]
  split
  · rename_i blank
    rw [step_blank blank]
    rfl
  rename_i visible
  split
  · rename_i skips
    rcases skips with rfl | ⟨rfl, next⟩
    · rw [step_directive]
      rfl
    · obtain ⟨rest, rfl⟩ := List.head?_eq_some_iff.mp next
      rw [step_lineComment]
      rfl
  rename_i onward
  split
  · rename_i comments
    obtain ⟨rfl, next⟩ := comments
    obtain ⟨rest, rfl⟩ := List.head?_eq_some_iff.mp next
    rw [step_blockComment]
    simp only [Location.advance, List.foldl]
    cases commentEnd? rest ((loc.next '/').next '*') <;> rfl
  · rename_i noBlock
    simp only [not_or] at onward
    rw [step_token (by simpa using visible) onward.1 onward.2 noBlock]
    cases token c rest loc <;> rfl

end Cursor

end Breadboard
