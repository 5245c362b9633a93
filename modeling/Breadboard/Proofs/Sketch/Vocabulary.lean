import Breadboard.Proofs.Sketch.Numeral
import Breadboard.Proofs.Sketch.Replacement
import Breadboard.Proofs.Text.Digits

/-!
Tokens as they are written. Keywords, symbols and names stand for themselves. Integers are written
in a radix, characters as the digits of their bytes, and texts between quotes, with what would end
them escaped. Tokens that are written one behind the other, with single blanks between them, are
read back as they are.
-/

open List

namespace Breadboard

open Cursor Decimal

inductive Radix where
  | decimal | octal | hexadecimal | binary

namespace Radix

def base : Radix → Nat
  | decimal => 10
  | octal => 8
  | hexadecimal => 16
  | binary => 2

def lead : Radix → List Char
  | decimal => []
  | octal => ['0']
  | hexadecimal => ['0', 'x']
  | binary => ['0', 'b']

theorem bounds (radix : Radix) : 1 < radix.base ∧ radix.base ≤ 16 := by cases radix <;> decide

end Radix

namespace TokenKind

def isWord : List Char → Bool
  | [] => false
  | c :: others => isNameStart c && others.all isNamePart

def unsignedMark (unsigned : Bool) : List Char := if unsigned then ['U'] else []

def byteDigits (upper : Bool) (byte : UInt8) : List Char :=
  Text.digits 16 upper (byte.toNat / 16) ++ Text.digits 16 upper (byte.toNat % 16)

def escaped (c : Char) : List Char :=
  if c = '"' then ['\\', '"'] else if c = '\\' then ['\\', '\\'] else
    if c = '\n' then ['\\', 'n'] else [c]

/-- How tokens may be written. Letters among the digits may be of either case. -/
inductive Spells : TokenKind → List Char → Prop where
  | keyword (keyword : Keyword) : Spells (.keyword keyword) keyword.spelling.toList
  | nullPointer : Spells (.keyword .nullKw) "nullptr".toList
  | symbol (symbol : Symbol) : Spells (.symbol symbol) symbol.spelling.toList
  | name {word : String} (isWord : isWord word.toList = true)
      (free : Keyword.ofWord? word = none) : Spells (.name word) word.toList
  | int {value : Int64} (radix : Radix) (upper unsigned : Bool) (nonnegative : 0 ≤ value) :
      Spells (.int value unsigned)
        (radix.lead ++ (Text.digits radix.base upper value.toInt.toNat ++ unsignedMark unsigned))
  | char (value : Int8) (upper : Bool) :
      Spells (.char value) ('\'' :: '\\' :: 'x' :: (byteDigits upper value.toUInt8 ++ ['\'']))
  | text (value : String) : Spells (.text value) ('"' :: (value.toList.flatMap escaped ++ ['"']))

end TokenKind

open TokenKind

theorem Text.isDigit_of_digitValue? (small : radix ≤ 10)
    (digit : (digitValue? radix c).isSome = true) : isDigit c = true := by
  simp only [digitValue?] at digit
  split at digit
  · assumption
  · split_ifs at digit <;> simp at digit <;> omega

namespace Cursor

variable {c : Char} {kind : TokenKind} {rest digits : List Char} {value : Int64} {unsigned : Bool}
  {loc opening : Location}

theorem span_run (inside : ∀ c ∈ run, accept c = true) (ends : ∀ c ∈ rest.head?, accept c = false) :
    span ⟨run ++ rest, loc⟩ accept = (run, ⟨rest, loc.advance run⟩) := by
  simp only [span, takeWhile_run inside ends, dropWhile_run inside ends]

theorem isNamePart_plain (part : isNamePart c = true) : Text.isBlank c = false ∧ c ≠ '#' ∧
    c ≠ '/' ∧ c ≠ '"' ∧ c ≠ '\'' ∧ c ≠ '.' := by
  refine ⟨?_, ?_, ?_, ?_, ?_, ?_⟩
  · by_contra blank
    have inert := Lexeme.isInert_of_isBlank (Bool.not_eq_false _ ▸ blank)
    simp_all [isNamePart, Macro.isInert]
  all_goals rintro rfl; cases part

/-- A name part begins a word or a number. -/
theorem before_part (part : isNamePart c = true)
    (read : ∀ loc, ∃ reached,
      (if isDigit c then number loc c ⟨more ++ rest, loc.next c⟩ else
        .ok (wordKind (String.ofList (c :: (more ++ rest).takeWhile isNamePart)),
          (span ⟨more ++ rest, loc.next c⟩ isNamePart).2)) = .ok (kind, ⟨rest, reached⟩)) :
    Lexeme.Before ⟨c :: more, some kind⟩ rest := by
  obtain ⟨visible, directive, slash, quote, apostrophe, point⟩ := isNamePart_plain part
  constructor
  intro loc
  obtain ⟨reached, out⟩ := read loc
  have token : token c (more ++ rest) loc = .ok (kind, ⟨rest, reached⟩) := by
    rw [← out]
    by_cases digit : isDigit c = true
    · simp [token, quote, apostrophe, digit]
    · have starts : isNameStart c = true := by simpa [isNamePart, digit] using part
      simp [token, quote, apostrophe, point, digit, starts, span]
  refine ⟨reached, ?_⟩
  simp only [scan, cons_append]
  rw [step_token visible directive (fun is => slash is.1) (fun is => slash is.1), token]
  rfl

theorem number_decimal (plain : ∀ d ∈ cursor.rest.head?, isDigit d = true ∨ d = 'U' ∨ d = ' ') :
    number opening c cursor = decimalNumber opening c cursor := by
  unfold number
  split
  · rename_i mark rest starts
    have noMark := plain mark (by rw [starts]; rfl)
    rw [if_neg, if_neg] <;> rintro (rfl | rfl) <;> revert noMark <;> decide
  · rfl

/-! Each token at the end of a text and before a blank. -/

variable (ends : rest = [] ∨ rest = [' '])
include ends

theorem before_word (isWord : isWord word.toList = true) :
    Lexeme.Before ⟨word.toList, some (wordKind word)⟩ rest := by
  cases spelled : word.toList with
  | nil => simp [spelled, TokenKind.isWord] at isWord
  | cons c more =>
    simp only [spelled, TokenKind.isWord, Bool.and_eq_true, all_eq_true] at isWord
    obtain ⟨starts, parts⟩ := isWord
    have noDigit : isDigit c ≠ true := fun digit => by
      rw [Macro.isNameStart_of_isDigit digit] at starts
      cases starts
    have stop : ∀ c ∈ rest.head?, isNamePart c = false := by
      rcases ends with rfl | rfl <;> rintro _ ⟨⟩
      rfl
    refine before_part (by simp [isNamePart, starts]) fun loc => ?_
    rw [if_neg noDigit, span_run parts stop, takeWhile_run parts stop, ← spelled,
      String.ofList_toList]
    exact ⟨_, rfl⟩

/-- Behind the digits of an integer there is neither a fraction nor an exponent. -/
theorem behind_digits (unsigned : Bool) (loc : Location) :
    let behind : Cursor := ⟨unsignedMark unsigned ++ rest, loc⟩
    (∃ reached, integerMarks behind = (unsigned, ⟨rest, reached⟩)) ∧
      fractionPart behind = ([], behind) ∧ exponentPart behind = ([], behind) ∧
      ∀ c ∈ behind.rest.head?, c = 'U' ∨ c = ' ' := by
  rcases ends with rfl | rfl <;> cases unsigned <;> exact ⟨⟨_, rfl⟩, rfl, rfl, by simp [unsignedMark]⟩

theorem before_prefixed (isMark : RadixMark mark radix)
    (areDigits : ∀ c ∈ digits, (Text.digitValue? radix c).isSome = true)
    (read : Text.readInt64? radix digits = some value) : Lexeme.Before
      ⟨'0' :: mark :: (digits ++ unsignedMark unsigned), some (.int value unsigned)⟩ rest := by
  refine before_part rfl fun loc => ?_
  obtain ⟨⟨reached, marks⟩, -, -, stop⟩ :=
    behind_digits ends unsigned (((loc.next '0').next mark).advance digits)
  have prefixed : prefixedNumber loc radix
      ⟨digits ++ (unsignedMark unsigned ++ rest), (loc.next '0').next mark⟩ =
        .ok (.int value unsigned, ⟨rest, reached⟩) := by
    rw [prefixedNumber, span_run areDigits fun c next => by rcases stop c next with rfl | rfl <;> rfl]
    simp only [marks, read]
  refine ⟨reached, ?_⟩
  rw [← prefixed, cons_append, append_assoc]
  rcases isMark with (rfl | rfl) | (rfl | rfl) <;> rfl

theorem before_decimal (areDigits : ∀ d ∈ c :: digits, isDigit d = true)
    (read : integerValue? (c :: digits) = some value) :
    Lexeme.Before ⟨c :: (digits ++ unsignedMark unsigned), some (.int value unsigned)⟩ rest := by
  obtain ⟨digit, others⟩ := forall_mem_cons.mp areDigits
  have point : c ≠ '.' := by
    rintro rfl
    cases digit
  refine before_part (by simp [isNamePart, digit]) fun loc => ?_
  obtain ⟨⟨reached, marks⟩, fraction, exponent, stop⟩ :=
    behind_digits ends unsigned ((loc.next c).advance digits)
  refine ⟨reached, ?_⟩
  rw [if_pos digit, append_assoc, number_decimal]
  · rw [decimalNumber, span_run others fun c next => by rcases stop c next with rfl | rfl <;> rfl]
    simp [point, fraction, exponent, marks, read]
  · cases digits with
    | nil => exact fun d next => .inr (stop d next)
    | cons d more =>
      rintro _ ⟨⟩
      exact .inl (others d mem_cons_self)

theorem before_int (radix : Radix) (upper unsigned : Bool) (nonnegative : 0 ≤ value) :
    Lexeme.Before
      ⟨radix.lead ++ (Text.digits radix.base upper value.toInt.toNat ++ unsignedMark unsigned),
        some (.int value unsigned)⟩ rest := by
  obtain ⟨c, tail, spelled, natural, leading⟩ := Text.digits_read upper radix.bounds.1
    radix.bounds.2 value.toInt.toNat
  have whole : Text.readNatural? radix.base (c :: tail) = some value.toInt.toNat := natural
  have read : Text.readInt64? radix.base (c :: tail) = some value := by
    have parts := Text.isNumberPart_of_readNatural? whole
    refine (Text.readInt64?_eq_some_iff parts).mpr ⟨_, whole, ?_⟩
    exact (Int.toNat_of_nonneg (Int64.le_iff_toInt_le.mp nonnegative)).symm
  have areDigits := Text.isSome_digitValue?_of_natural? natural
  have decimals (small : radix.base ≤ 10) : ∀ d ∈ c :: tail, isDigit d = true := fun d member =>
    Text.isDigit_of_digitValue? small (areDigits d member)
  rw [spelled]
  cases radix with
  | decimal =>
    refine before_decimal ends (decimals (by decide)) ?_
    unfold integerValue?
    split
    · rename_i starts
      cases starts
      cases leading rfl
    · exact read
  | octal => exact before_decimal ends (forall_mem_cons.mpr ⟨rfl, decimals (by decide)⟩) read
  | hexadecimal => exact before_prefixed ends (.hexadecimal (.inl rfl)) areDigits read
  | binary => exact before_prefixed ends (.binary (.inl rfl)) areDigits read

theorem before_char (value : Int8) (upper : Bool) : Lexeme.Before
    ⟨'\'' :: '\\' :: 'x' :: (byteDigits upper value.toUInt8 ++ ['\'']), some (.char value)⟩
      rest := by
  -- There are few enough bytes to read each of them.
  have each : ∀ upper : Bool, ∀ n < 256, ∀ rest ∈ [[], [' ']],
      let text := '\'' :: '\\' :: 'x' :: (byteDigits upper (.ofNat n) ++ ['\''])
      Lexeme.first? (text ++ rest) = some (⟨text, some (.char (UInt8.ofNat n).toInt8)⟩, rest) := by
    decide +kernel
  have read := each upper value.toUInt8.toNat value.toUInt8.toNat_lt rest (by simpa using ends)
  simp only [UInt8.ofNat_toNat, Int8.toInt8_toUInt8] at read
  exact (Lexeme.first?_before read).2

omit ends in
theorem textBody_escaped (c : Char) (rest : List Char) (fuel : Nat) (loc : Location) :
    ∃ behind, textBody opening (fuel + 1) ⟨escaped c ++ rest, loc⟩ =
      textBody opening fuel ⟨rest, behind⟩ >>= fun (others, final) => .ok (c :: others, final) := by
  unfold escaped
  split_ifs with quote backslash line
  · subst quote
    exact ⟨_, rfl⟩
  · subst backslash
    exact ⟨_, rfl⟩
  · subst line
    exact ⟨_, rfl⟩
  · exact ⟨loc.next c, by simp [textBody, quote, backslash, line]⟩

omit ends in
theorem textBody_reads (rest characters : List Char) (opening loc : Location)
    (enough : (characters.flatMap escaped).length ≤ fuel) :
    ∃ reached, textBody opening (fuel + 1) ⟨characters.flatMap escaped ++ '"' :: rest, loc⟩ =
      .ok (characters, ⟨rest, reached⟩) := by
  induction characters generalizing fuel loc with
  | nil => exact ⟨_, rfl⟩
  | cons c characters ih =>
    have longer : 1 ≤ (escaped c).length := by
      unfold escaped
      split_ifs <;> simp
    rw [flatMap_cons, length_append] at enough
    obtain ⟨fuel, rfl⟩ := Nat.exists_eq_add_of_le' (longer.trans (Nat.le_of_add_right_le enough))
    rw [flatMap_cons, append_assoc]
    obtain ⟨behind, first⟩ := textBody_escaped c _ (fuel + 1) loc
    obtain ⟨reached, others⟩ := ih behind (show _ ≤ fuel by omega)
    refine ⟨reached, ?_⟩
    rw [first, others]
    rfl

omit ends in
theorem before_text (value : String) : Lexeme.Before
    ⟨'"' :: (value.toList.flatMap escaped ++ ['"']), some (.text value)⟩ rest := by
  constructor
  intro loc
  have enough : (value.toList.flatMap escaped).length ≤
      (value.toList.flatMap escaped ++ ['"'] ++ rest).length := by simp
  obtain ⟨reached, read⟩ := textBody_reads rest value.toList loc (loc.next '"') enough
  refine ⟨reached, bind_eq_ok.mpr ⟨(some ⟨.text value, loc⟩, ⟨rest, reached⟩), ?_, rfl⟩⟩
  rw [step_token rfl (by decide) (by simp) (by simp)]
  refine bind_eq_ok.mpr ⟨(.text value, ⟨rest, reached⟩), ?_, rfl⟩
  refine bind_eq_ok.mpr ⟨(value.toList, ⟨rest, reached⟩), ?_, by simp⟩
  simpa using read

/-- A token is read where it is written. -/
theorem before_of_spells {text : List Char} (spells : Spells kind text) :
    Lexeme.Before ⟨text, some kind⟩ rest := by
  have finite {text : List Char} {kind : TokenKind} (read : Lexeme.first? (text ++ rest) =
      some (⟨text, some kind⟩, rest)) : Lexeme.Before ⟨text, some kind⟩ rest :=
    (Lexeme.first?_before read).2
  cases spells with
  | keyword keyword => exact finite (by rcases ends with rfl | rfl <;> cases keyword <;> decide +kernel)
  | nullPointer => exact finite (by rcases ends with rfl | rfl <;> decide +kernel)
  | symbol symbol => exact finite (by rcases ends with rfl | rfl <;> cases symbol <;> decide +kernel)
  | @name word isWord free =>
    have kind : wordKind word = .name word := by simp [wordKind, free]
    exact kind ▸ before_word ends isWord
  | int radix upper unsigned nonnegative => exact before_int ends radix upper unsigned nonnegative
  | char value upper => exact before_char ends value upper
  | text value => exact before_text value

end Cursor

theorem Lexeme.cover_of_spells
    (spelled : Forall₂ (fun kind text => Spells kind text.toList) kinds texts) :
    ∃ lexemes, Cover lexemes (" ".intercalate texts).toList ∧
      lexemes.filterMap Lexeme.kind? = kinds := by
  induction spelled with
  | nil => exact ⟨[], .nil, rfl⟩
  | @cons kind text kinds texts spells others ih =>
    obtain ⟨lexemes, covers, same⟩ := ih
    cases others with
    | nil =>
      have covers := Cover.cons (before_of_spells (.inl rfl) spells) .nil
      exact ⟨_, by simpa using covers, rfl⟩
    | @cons _ next _ texts =>
      have blank : Before ⟨[' '], none⟩ (" ".intercalate (next :: texts)).toList :=
        ⟨fun _ => ⟨_, rfl⟩⟩
      have covers := Cover.cons ((before_of_spells (.inr rfl) spells).congr (by rfl))
        (.cons blank covers)
      exact ⟨_, by simpa using covers, by simp [same]⟩

/-- Tokens that are written with single blanks between them are read back as they are, followed by
the end of the text, in whatever radix their integers are written. -/
theorem tokenize_spellings
    (spelled : List.Forall₂ (fun kind text => Spells kind text.toList) kinds texts) :
    (tokenize (" ".intercalate texts)).map (List.map Token.kind) =
      .ok (kinds ++ [.endOfFile]) := by
  obtain ⟨lexemes, covers, same⟩ := Lexeme.cover_of_spells spelled
  have read := covers.tokenize
  rwa [String.ofList_toList, same] at read

theorem quotient_reread :
    (tokenize (" ".intercalate ["0xffU", "/", "'\\x9c'", "\"\\\"\\n\""])).map
        (List.map Token.kind) =
      .ok ([.int 255 true, .symbol .slash, .char (-100), .text "\"\n"] ++ [.endOfFile]) := by
  have number : Spells (.int 255 true) "0xffU".toList :=
    .int .hexadecimal false true (by decide)
  have character : Spells (.char (-100)) "'\\x9c'".toList := .char (-100) false
  exact tokenize_spellings
    (.cons number (.cons (.symbol .slash) (.cons character (.cons (.text "\"\n") .nil))))

end Breadboard
