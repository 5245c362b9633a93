import Breadboard.Proofs.Sketch.Lookahead

/-!
The characters that the lexer takes for literals, comments and numbers, as the macro expander sees
them: a quoted literal closes where the expander lets it close, and a number is made of pieces that
the expander copies.
-/

open List

namespace Breadboard

open Macro Decimal

def TokenKind.isNumeric : TokenKind → Bool
  | .int _ _ | .float _ => true
  | _ => false

namespace Cursor

variable {final cursor : Cursor} {opening : Location} {c : Char} {byte : UInt8} {radix : Nat}

/-- A character literal closes where the macro expander finds its closing quote, unless the
character is itself a quote. It is on one line, unless the character is a line break. -/
theorem closingQuote_text {atQuote : Cursor} (out : (match atQuote.rest with
      | '\'' :: final => .ok (byte, ⟨final, atQuote.location.next '\''⟩)
      | other :: _ => fail (atQuote.location.next other) .missingQuote
      | [] => fail atQuote.location .missingQuote : Except LexError (UInt8 × Cursor)) =
        .ok (value, final)) : atQuote.rest = '\'' :: final.rest := by
  split at out
  · rename_i tail starts
    cases out
    exact starts
  · cases out
  · cases out

theorem characterBody_text (out : characterBody opening cursor = .ok (byte, final)) :
    ∃ taken, cursor.rest = taken ++ final.rest ∧ (taken.head? ≠ some '\n' → '\n' ∉ taken) ∧
      (taken.head? ≠ some '\'' → ∀ other, literal '\'' (taken ++ other) = (taken, other)) := by
  obtain ⟨_ | ⟨c, rest⟩, loc⟩ := cursor
  · cases out
  simp only [characterBody] at out
  split at out
  · rename_i escaped
    subst escaped
    obtain ⟨⟨value, middle⟩, read, out⟩ := bind_eq_ok.mp out
    obtain ⟨c, digits, atFront, sameLine, plain⟩ := escape_text read
    have atQuote := closingQuote_text out
    simp only at atFront atQuote
    refine ⟨'\\' :: c :: (digits ++ ['\'']), ?_, fun _ => ?_, fun _ other => ?_⟩
    · rw [atFront, atQuote]
      simp
    · rw [mem_cons, not_or] at sameLine
      simp [sameLine]
    · have unquoted : ∀ d ∈ digits, d ≠ '\'' ∧ d ≠ '\\' := fun d member =>
        ⟨(plain d member).2.2, (plain d member).1⟩
      simp only [cons_append, append_assoc]
      rw [literal, literal_run unquoted, nil_append, literal_quote (by decide)]
  · rename_i plain
    obtain ⟨⟨value, middle⟩, read, out⟩ := bind_eq_ok.mp out
    cases read
    have atQuote := closingQuote_text out
    simp only at atQuote
    refine ⟨[c, '\''], ?_, fun sameLine => ?_, fun unquoted other => ?_⟩
    · rw [atQuote]
      rfl
    · simpa [eq_comm] using sameLine
    · rw [cons_append, literal_plain (by simpa using unquoted) plain, cons_append,
        literal_quote (by decide)]
      rfl

theorem skipLine_rest (cursor : Cursor) :
    cursor.skipLine.rest = (cursor.rest.dropWhile (· != '\n')).tail := by
  simp only [skipLine, span]
  cases cursor.rest.dropWhile (· != '\n') <;> rfl

theorem skipLine_text (cursor : Cursor) :
    ∃ line ending, cursor.rest = line ++ ending ++ cursor.skipLine.rest ∧ '\n' ∉ line ∧
      (ending = ['\n'] ∨ ending = [] ∧ cursor.skipLine.rest = []) := by
  have oneLine : '\n' ∉ cursor.rest.takeWhile (· != '\n') := fun member => by
    have kept := mem_takeWhile_imp member
    simp at kept
  rw [skipLine_rest]
  cases rest : cursor.rest.dropWhile (· != '\n') with
  | nil =>
    refine ⟨cursor.rest.takeWhile (· != '\n'), [], ?_, oneLine, .inr ⟨rfl, rfl⟩⟩
    rw [append_nil, tail_nil, ← rest, takeWhile_append_dropWhile]
  | cons c tail =>
    have isBreak : c = '\n' := by
      have stop := List.head?_dropWhile_not (· != '\n') cursor.rest
      rw [rest] at stop
      simpa using stop
    subst isBreak
    refine ⟨cursor.rest.takeWhile (· != '\n'), ['\n'], ?_, oneLine, .inl rfl⟩
    rw [append_assoc, singleton_append, tail_cons, ← rest,
      takeWhile_append_dropWhile]

/-! Numbers. -/

theorem isNumberPart_of_isDigit (digit : isDigit c = true) : isNumberPart c = true := by
  simp [isNumberPart, digit]

theorem areNumberParts_of_digits {digits : List Char}
    (areDigits : ∀ c ∈ digits, isDigit c = true) : ∀ c ∈ digits, isNumberPart c = true :=
  fun c member => isNumberPart_of_isDigit (areDigits c member)

theorem isNumberPart_of_digitValue? (digit : (Text.digitValue? radix c).isSome = true) :
    isNumberPart c = true := by
  simp only [Text.digitValue?] at digit
  split at digit
  · rename_i isDigit
    exact isNumberPart_of_isDigit isDigit
  split at digit
  · rename_i isLower
    simp only [Bool.and_eq_true, decide_eq_true_eq] at isLower
    have within : c ≤ 'z' := Char.le_trans isLower.2 (by decide)
    simp [isNumberPart, isLower.1, within]
  split at digit
  · rename_i isUpper
    simp only [Bool.and_eq_true, decide_eq_true_eq] at isUpper
    have within : c ≤ 'Z' := Char.le_trans isUpper.2 (by decide)
    simp [isNumberPart, isUpper.1, within]
  · cases digit

theorem isNumberPart_of_isIntegerMark (mark : isIntegerMark c = true) : isNumberPart c = true := by
  simp only [isIntegerMark, Bool.or_eq_true, beq_iff_eq] at mark
  rcases mark with ((rfl | rfl) | rfl) | rfl <;> decide

end Cursor

open Cursor

inductive RadixMark : Char → Nat → Prop where
  | hexadecimal (isMark : mark = 'x' ∨ mark = 'X') : RadixMark mark 16
  | binary (isMark : mark = 'b' ∨ mark = 'B') : RadixMark mark 2

theorem RadixMark.plain (isMark : RadixMark mark radix) :
    isNumberPart mark = true ∧ isDigit mark = false ∧ isIntegerMark mark = false := by
  rcases isMark with (rfl | rfl) | (rfl | rfl) <;> decide

/-- The texts of an integer literal, by its value. Marks behind the digits do not change it. -/
inductive Numeral (value : Int64) : List Char → Prop where
  | marked (isMark : RadixMark mark radix)
      (areDigits : ∀ c ∈ digits, (Text.digitValue? radix c).isSome = true)
      (read : Text.readInt64? radix digits = some value)
      (areMarks : ∀ c ∈ marks, isIntegerMark c = true) :
      Numeral value ('0' :: mark :: digits ++ marks)
  | decimal (areDigits : ∀ c ∈ digits, isDigit c = true)
      (read : integerValue? digits = some value)
      (areMarks : ∀ c ∈ marks, isIntegerMark c = true) : Numeral value (digits ++ marks)

namespace Numeral

variable {value : Int64} {text digits : List Char}

theorem isNumberPart (numeral : Numeral value text) : ∀ c ∈ text, Macro.isNumberPart c = true := by
  cases numeral with rw [forall_mem_append]
  | marked isMark areDigits _ areMarks =>
    rw [forall_mem_cons, forall_mem_cons]
    exact ⟨⟨by decide, isMark.plain.1, fun c among => isNumberPart_of_digitValue? (areDigits c among)⟩,
      fun c among => isNumberPart_of_isIntegerMark (areMarks c among)⟩
  | decimal areDigits _ areMarks =>
    exact ⟨areNumberParts_of_digits areDigits,
      fun c among => isNumberPart_of_isIntegerMark (areMarks c among)⟩

theorem digits_ne_nil (read : integerValue? digits = some value) : digits ≠ [] := by
  rintro rfl
  cases read

theorem head (numeral : Numeral value text) : ∃ c tail, text = c :: tail ∧ isDigit c = true := by
  cases numeral with
  | @marked mark _ digits marks => exact ⟨'0', mark :: digits ++ marks, rfl, by decide⟩
  | @decimal digits marks areDigits read =>
    obtain ⟨c, tail, rfl⟩ := exists_cons_of_ne_nil (digits_ne_nil read)
    exact ⟨c, tail ++ marks, rfl, areDigits c mem_cons_self⟩

end Numeral

namespace Cursor

variable {final cursor : Cursor} {text digits fraction more : List Char} {opening : Location}
  {first : Char} {kind : TokenKind} {radix : Nat} {sign : List Char} {value : Int64}

def IsNumeral (text : List Char) : Prop :=
  ∃ c tail, text = c :: tail ∧ isDigit c = true ∧ ∀ d ∈ tail, isNumberPart d = true

/-- A number literal: a numeral, perhaps behind a point, and perhaps an exponent with a sign. -/
structure IsNumber (text : List Char) : Prop where
  parts : ∃ point whole signed, text = point ++ whole ++ signed ∧ (point = [] ∨ point = ['.']) ∧
    IsNumeral whole ∧
    (signed = [] ∨ ∃ sign run, signed = sign :: run ∧ (sign = '+' ∨ sign = '-') ∧ IsNumeral run)

def IsFraction (text : List Char) : Prop :=
  text = [] ∨ ∃ places, text = '.' :: places ∧ ∀ c ∈ places, isDigit c = true

def IsSign (text : List Char) : Prop := text = [] ∨ text = ['+'] ∨ text = ['-']

theorem span_text (out : cursor.span accept = (run, final)) :
    cursor.rest = run ++ final.rest ∧ ∀ c ∈ run, accept c = true := by
  cases out
  exact ⟨takeWhile_append_dropWhile.symm, fun c member => mem_takeWhile_imp member⟩

theorem integerMarks_run (cursor : Cursor) :
    ∃ marks, cursor.rest = marks ++ cursor.integerMarks.2.rest ∧
      ∀ c ∈ marks, isIntegerMark c = true :=
  ⟨cursor.rest.takeWhile isIntegerMark, takeWhile_append_dropWhile.symm,
    fun _ member => mem_takeWhile_imp member⟩

theorem floatMark_text (cursor : Cursor) : ∃ mark, cursor.rest = mark ++ cursor.floatMark.rest ∧
      ∀ c ∈ mark, isNumberPart c = true := by
  obtain ⟨_ | ⟨c, rest⟩, loc⟩ := cursor
  · exact ⟨[], rfl, forall_mem_nil _⟩
  · simp only [floatMark]
    split
    · rename_i isMark
      refine ⟨[c], rfl, forall_mem_singleton.mpr ?_⟩
      rcases isMark with rfl | rfl <;> decide
    · exact ⟨[], rfl, forall_mem_nil _⟩

theorem fractionPart_text (cursor : Cursor) :
    cursor.rest = cursor.fractionPart.1 ++ cursor.fractionPart.2.rest ∧
      IsFraction cursor.fractionPart.1 := by
  simp only [fractionPart]
  split
  · rename_i rest starts
    refine ⟨?_, .inr ⟨_, rfl, fun c member => mem_takeWhile_imp member⟩⟩
    simp [span, starts]
  · exact ⟨rfl, .inl rfl⟩

/-- The exponent part of a number as it stands in the text, and as it is read. -/
theorem exponentPart_text (cursor : Cursor) : cursor.exponentPart = ([], cursor) ∨
      ∃ mark sign digits, cursor.rest = mark :: sign ++ digits ++ cursor.exponentPart.2.rest ∧
        cursor.exponentPart.1 = 'e' :: sign ++ digits ∧ (mark = 'e' ∨ mark = 'E') ∧
        IsSign sign ∧ ∀ c ∈ digits, isDigit c = true := by
  obtain ⟨_ | ⟨mark, rest⟩, loc⟩ := cursor
  · exact .inl rfl
  · simp only [exponentPart]
    split
    · rename_i isMark
      refine .inr ?_
      cases rest with
      | nil => exact ⟨mark, [], [], rfl, rfl, isMark, .inl rfl, by simp⟩
      | cons c tail =>
        simp only
        split
        · rename_i isSign
          refine ⟨mark, [c], tail.takeWhile isDigit, ?_, rfl, isMark, ?_,
            fun c member => mem_takeWhile_imp member⟩
          · simp [span]
          · rcases isSign with rfl | rfl <;> simp [IsSign]
        · refine ⟨mark, [], (c :: tail).takeWhile isDigit, ?_, rfl, isMark, .inl rfl,
            fun c member => mem_takeWhile_imp member⟩
          simp [span]
    · exact .inl rfl

theorem readUnsigned?_eq_none (isWhole : ∀ c ∈ whole, isDigit c = true)
    (isFraction : fraction = [] ∧ afterFraction.head? ≠ some '.' ∨
      ∃ places, fraction = '.' :: places ∧ ∀ c ∈ places, isDigit c = true)
    (stops : ∀ c ∈ afterFraction.head?, isDigit c = false)
    (unread : readExponent? afterFraction = none) :
    readUnsigned? (whole ++ fraction ++ afterFraction) = none := by
  rcases isFraction with ⟨rfl, noPoint⟩ | ⟨places, rfl, arePlaces⟩
  · simp only [readUnsigned?, append_nil, takeWhile_run isWhole stops,
      dropWhile_run isWhole stops]
    split
    · exact absurd rfl noPoint
    · simp [unread]
  · have pointStops : ∀ c ∈ ('.' :: places ++ afterFraction).head?, isDigit c = false := by
      simp
      decide
    simp only [readUnsigned?, append_assoc, takeWhile_run isWhole pointStops,
      dropWhile_run isWhole pointStops]
    simp [takeWhile_run arePlaces stops, dropWhile_run arePlaces stops, unread]

theorem read?_eq_none (starts : first = '.' ∧ fraction = [] ∨ isDigit first = true)
    (isDigits : ∀ c ∈ digits, isDigit c = true) (isFraction : IsFraction fraction)
    (isSign : IsSign sign) : read? (first :: digits ++ fraction ++ ('e' :: sign)) = none := by
  have unread : readExponent? ('e' :: sign) = none := by
    rcases isSign with rfl | rfl | rfl <;> rfl
  have stops : ∀ c ∈ ('e' :: sign).head?, isDigit c = false := by
    simp
    decide
  have unsigned : first ≠ '-' ∧ first ≠ '+' := by
    rcases starts with ⟨rfl, -⟩ | digit
    · decide
    · constructor <;> rintro rfl <;> revert digit <;> decide
  rw [cons_append, cons_append, read?]
  · rcases starts with ⟨rfl, rfl⟩ | digit
    · rw [append_nil, ← cons_append]
      exact readUnsigned?_eq_none (forall_mem_nil _) (.inr ⟨digits, rfl, isDigits⟩) stops unread
    · rw [← cons_append, ← cons_append]
      exact readUnsigned?_eq_none (forall_mem_cons.mpr ⟨digit, isDigits⟩)
        (isFraction.imp_left fun empty => ⟨empty, by simp⟩) stops unread
  · simp [unsigned]
  · simp [unsigned]

theorem IsNumeral.append (numeral : IsNumeral text)
    (parts : ∀ c ∈ more, isNumberPart c = true) : IsNumeral (text ++ more) := by
  obtain ⟨c, tail, rfl, digit, isTail⟩ := numeral
  exact ⟨c, tail ++ more, rfl, digit, forall_mem_append.mpr ⟨isTail, parts⟩⟩

theorem isNumeral_digits (nonempty : digits ≠ [])
    (isDigits : ∀ c ∈ digits, isDigit c = true) : IsNumeral digits := by
  obtain ⟨c, tail, rfl⟩ := exists_cons_of_ne_nil nonempty
  obtain ⟨digit, areDigits⟩ := forall_mem_cons.mp isDigits
  exact ⟨c, tail, rfl, digit, areNumberParts_of_digits areDigits⟩

theorem IsNumeral.isNumber (numeral : IsNumeral text) : IsNumber text :=
  ⟨[], text, [], by simp, .inl rfl, numeral, .inl rfl⟩

theorem IsNumeral.oneLine (numeral : IsNumeral text) : '\n' ∉ text := by
  obtain ⟨c, tail, rfl, digit, parts⟩ := numeral
  intro member
  rcases mem_cons.mp member with rfl | inTail
  · cases digit
  · cases parts _ inTail

theorem IsNumber.oneLine (number : IsNumber text) : '\n' ∉ text := by
  obtain ⟨point, whole, signed, rfl, isPoint, numeral, isSigned⟩ := number.parts
  rw [mem_append, mem_append, not_or, not_or]
  refine ⟨⟨?_, numeral.oneLine⟩, ?_⟩
  · rcases isPoint with rfl | rfl <;> decide
  · rcases isSigned with rfl | ⟨sign, run, rfl, isSign, isRun⟩
    · exact not_mem_nil
    · rcases isSign with rfl | rfl <;> simp [isRun.oneLine]

theorem isNumber_of_numeral (numeral : Numeral value text) : IsNumber text := by
  obtain ⟨c, tail, rfl, digit⟩ := numeral.head
  exact IsNumeral.isNumber ⟨c, tail, rfl, digit, fun d member =>
    numeral.isNumberPart d (mem_cons_of_mem _ member)⟩

/-- How numbers are written, by the kind of token that they are read as. -/
inductive IsNumberOf : TokenKind → List Char → Prop where
  | int {value unsigned text} (numeral : Numeral value text) : IsNumberOf (.int value unsigned) text
  | float {value : Binary64} {text : List Char} (isNumber : IsNumber text) :
      IsNumberOf (.float value) text

theorem IsNumberOf.isNumber (written : IsNumberOf kind text) :
    IsNumber text ∧ kind.isNumeric = true := by
  cases written with
  | int numeral => exact ⟨isNumber_of_numeral numeral, rfl⟩
  | float isNumber => exact ⟨isNumber, rfl⟩

theorem prefixedNumber_text (isMark : RadixMark mark radix)
    (out : prefixedNumber opening radix cursor = .ok (kind, final)) :
    ∃ taken, cursor.rest = taken ++ final.rest ∧ IsNumberOf kind ('0' :: mark :: taken) := by
  simp only [prefixedNumber] at out
  generalize atDigits : cursor.span _ = behind at out
  obtain ⟨digits, afterDigits⟩ := behind
  obtain ⟨splitDigits, areDigits⟩ := span_text atDigits
  obtain ⟨marks, atMarks, areMarks⟩ := integerMarks_run afterDigits
  split at out <;> cases out
  rename_i read
  refine ⟨digits ++ marks, ?_, .int (.marked isMark areDigits read areMarks)⟩
  rw [splitDigits, atMarks, append_assoc]

def IsMantissa (text : List Char) : Prop :=
  ∃ point whole, text = point ++ whole ∧ (point = [] ∨ point = ['.']) ∧ IsNumeral whole

theorem IsMantissa.isNumber (mantissa : IsMantissa text)
    (parts : ∀ c ∈ more, isNumberPart c = true) : IsNumber (text ++ more) := by
  obtain ⟨point, whole, rfl, isPoint, numeral⟩ := mantissa
  exact ⟨point, whole ++ more, [], by simp, isPoint, numeral.append parts, .inl rfl⟩

theorem IsMantissa.isNumber_exponent (mantissa : IsMantissa text)
    (isMark : mark = 'e' ∨ mark = 'E') (isSign : IsSign sign) (nonempty : digits ≠ [])
    (areDigits : ∀ c ∈ digits, isDigit c = true) (parts : ∀ c ∈ more, isNumberPart c = true) :
    IsNumber (text ++ (mark :: sign ++ digits ++ more)) := by
  obtain ⟨point, whole, rfl, isPoint, numeral⟩ := mantissa
  have markPart : ∀ c ∈ [mark], isNumberPart c = true := by
    rw [forall_mem_singleton]
    rcases isMark with rfl | rfl <;> decide
  have exponent : IsNumeral (digits ++ more) := (isNumeral_digits nonempty areDigits).append parts
  have exponentParts : ∀ c ∈ digits ++ more, isNumberPart c = true :=
    forall_mem_append.mpr ⟨areNumberParts_of_digits areDigits, parts⟩
  by_cases unsigned : sign = []
  · subst unsigned
    refine ⟨point, whole ++ [mark] ++ (digits ++ more), [], by simp, isPoint, ?_, .inl rfl⟩
    exact (numeral.append markPart).append exponentParts
  · obtain ⟨c, isC, rfl⟩ : ∃ c, (c = '+' ∨ c = '-') ∧ sign = [c] := by
      rcases isSign with rfl | rfl | rfl
      · exact absurd rfl unsigned
      · exact ⟨'+', .inl rfl, rfl⟩
      · exact ⟨'-', .inr rfl, rfl⟩
    exact ⟨point, whole ++ [mark], c :: (digits ++ more), by simp, isPoint,
      numeral.append markPart, .inr ⟨c, digits ++ more, rfl, isC, exponent⟩⟩

theorem isMantissa_text (starts : first = '.' ∧ fraction = [] ∧ digits ≠ [] ∨ isDigit first = true)
    (areDigits : ∀ c ∈ digits, isDigit c = true) (isFraction : IsFraction fraction) :
    IsMantissa (first :: digits ++ fraction) := by
  rcases starts with ⟨rfl, rfl, nonempty⟩ | digit
  · exact ⟨['.'], digits, by simp, .inr rfl, isNumeral_digits nonempty areDigits⟩
  · have whole : IsNumeral (first :: digits) :=
      ⟨first, digits, rfl, digit, areNumberParts_of_digits areDigits⟩
    refine ⟨[], first :: digits ++ fraction, rfl, .inl rfl, whole.append ?_⟩
    rcases isFraction with rfl | ⟨places, rfl, arePlaces⟩
    · exact forall_mem_nil _
    · exact forall_mem_cons.mpr ⟨by decide, areNumberParts_of_digits arePlaces⟩

theorem takeWhile_isDigit_ne_nil (starts : startsWithDigit text = true) :
    text.takeWhile isDigit ≠ [] := by
  cases text with
  | nil => cases starts
  | cons c tail =>
    rw [takeWhile_cons_of_pos (show isDigit c = true from starts)]
    exact cons_ne_nil _ _

theorem decimalNumber_text (starts : first = '.' ∧ startsWithDigit cursor.rest = true ∨
      isDigit first = true) (out : decimalNumber opening first cursor = .ok (kind, final)) :
    ∃ taken, cursor.rest = taken ++ final.rest ∧ IsNumberOf kind (first :: taken) := by
  simp only [decimalNumber] at out
  generalize atDigits : cursor.span isDigit = behindDigits at out
  obtain ⟨digits, afterDigits⟩ := behindDigits
  obtain ⟨splitDigits, areDigits⟩ := span_text atDigits
  generalize atFraction : (if first = '.' then ([], afterDigits) else afterDigits.fractionPart) =
    behindFraction at out
  obtain ⟨fraction, afterFraction⟩ := behindFraction
  have splitFraction : afterDigits.rest = fraction ++ afterFraction.rest ∧ IsFraction fraction := by
    split at atFraction
    · cases atFraction
      exact ⟨rfl, .inl rfl⟩
    · have parts := fractionPart_text afterDigits
      rwa [atFraction] at parts
  have opens : first = '.' ∧ fraction = [] ∧ digits ≠ [] ∨ isDigit first = true := by
    refine starts.imp_left fun ⟨point, digitNext⟩ => ⟨point, ?_, ?_⟩
    · rw [if_pos point] at atFraction
      exact (congrArg Prod.fst atFraction).symm
    · cases atDigits
      exact takeWhile_isDigit_ne_nil digitNext
  have mantissa := isMantissa_text opens areDigits splitFraction.2
  have account : cursor.rest = digits ++ fraction ++ afterFraction.rest := by
    rw [splitDigits, splitFraction.1, append_assoc]
  obtain ⟨mark, atMark, isMark⟩ := floatMark_text afterFraction.exponentPart.2
  obtain ⟨marks, atMarks, areMarks⟩ := integerMarks_run afterFraction.exponentPart.2
  rcases exponentPart_text afterFraction with
    none | ⟨e, sign, places, atExponent, isExponent, isE, isSign, arePlaces⟩
  · simp only [none] at out atMark atMarks
    split at out
    · split at out <;> cases out
      refine ⟨digits ++ fraction ++ mark, ?_, .float (mantissa.isNumber isMark)⟩
      rw [account, atMark, append_assoc _ mark]
    · -- An integer has neither a fraction nor an exponent, so its marks follow the digits.
      rename_i whole
      rw [not_or, not_or, not_not] at whole
      obtain ⟨noPoint, rfl, -⟩ := whole
      have digit := opens.resolve_left fun point => noPoint point.1
      simp only [append_nil] at out account
      split at out <;> cases out
      rename_i read
      refine ⟨digits ++ marks, by rw [account, atMarks, append_assoc], .int ?_⟩
      exact .decimal (forall_mem_cons.mpr ⟨digit, areDigits⟩) read areMarks
  · have float : first = '.' ∨ fraction ≠ [] ∨ afterFraction.exponentPart.1 ≠ [] := by
      simp [isExponent]
    simp only [float, if_true] at out
    split at out <;> cases out
    rename_i value read
    have nonempty : places ≠ [] := by
      rintro rfl
      rw [isExponent, append_nil, read?_eq_none (opens.imp_left fun ⟨point, empty, _⟩ =>
        ⟨point, empty⟩) areDigits splitFraction.2 isSign] at read
      cases read
    refine ⟨digits ++ fraction ++ (e :: sign ++ places ++ mark), ?_,
      .float (mantissa.isNumber_exponent isE isSign nonempty arePlaces isMark)⟩
    rw [account, atExponent, atMark]
    simp

theorem number_text (starts : first = '.' ∧ startsWithDigit cursor.rest = true ∨
      isDigit first = true) (out : number opening first cursor = .ok (kind, final)) :
    ∃ taken, cursor.rest = taken ++ final.rest ∧ IsNumberOf kind (first :: taken) := by
  unfold number at out
  split at out
  · rename_i mark rest behind
    have marked : ∀ radix, RadixMark mark radix →
        prefixedNumber opening radix ⟨rest, cursor.location.next mark⟩ = .ok (kind, final) →
        ∃ taken, cursor.rest = taken ++ final.rest ∧ IsNumberOf kind ('0' :: taken) := by
      intro radix isMark out
      obtain ⟨taken, split, written⟩ := prefixedNumber_text isMark out
      refine ⟨mark :: taken, ?_, written⟩
      rw [behind]
      exact congrArg (mark :: ·) split
    split at out
    · rename_i isMark
      exact marked 16 (.hexadecimal isMark) out
    split at out
    · rename_i isMark
      exact marked 2 (.binary isMark) out
    · exact decimalNumber_text starts out
  · exact decimalNumber_text starts out

end Cursor

end Breadboard
