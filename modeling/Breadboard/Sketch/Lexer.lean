import Breadboard.Sketch.Token
import Breadboard.Text.Blank

/-!
Splitting a text into tokens. Blanks, comments and directive lines are skipped;
every token carries the position of its first character.
-/

namespace Breadboard

inductive LexFault where
  | unterminatedComment
  | unterminatedText
  | endInCharacter
  | missingQuote
  | endInEscape
  | badHexEscape (digits : String)
  | unknownEscape (c : Char)
  | badNumber (text : String)
  | unexpectedCharacter (c : Char)
  deriving DecidableEq

def LexFault.message : LexFault → String
  | .unterminatedComment => "Unterminated block comment"
  | .unterminatedText => "Unterminated string literal"
  | .endInCharacter => "Unexpected end of file in character literal"
  | .missingQuote => "Expected closing quote in character literal"
  | .endInEscape => "Unexpected end of file in escape sequence"
  | .badHexEscape digits => "Invalid hex escape sequence: \\x" ++ digits
  | .unknownEscape c => "Unknown escape sequence: \\" ++ String.ofList [c]
  | .badNumber text => "Invalid numeric literal: " ++ text
  | .unexpectedCharacter c => "Unexpected character: '" ++ String.ofList [c] ++ "'"

structure LexError where
  fault : LexFault
  location : Location
  deriving DecidableEq

def LexError.message (error : LexError) : String :=
  "Lexer error at line " ++ toString error.location.line ++ ", column " ++
    toString error.location.column ++ ": " ++ error.fault.message

structure Cursor where
  rest : List Char
  location : Location

namespace Cursor

def ofText (text : List Char) : Cursor := ⟨text, Location.start⟩

def span (cursor : Cursor) (accept : Char → Bool) : List Char × Cursor :=
  let run := cursor.rest.takeWhile accept
  (run, ⟨cursor.rest.dropWhile accept, cursor.location.advance run⟩)

def fail {α : Type} (loc : Location) (fault : LexFault) : Except LexError α := .error ⟨fault, loc⟩

def skipLine (cursor : Cursor) : Cursor :=
  let (_, atBreak) := cursor.span (· != '\n')
  match atBreak.rest with
  | c :: rest => ⟨rest, atBreak.location.next c⟩
  | [] => atBreak

def commentEnd? : List Char → Location → Option Cursor
  | '*' :: '/' :: rest, loc => some ⟨rest, loc.advance ['*', '/']⟩
  | c :: rest, loc => commentEnd? rest (loc.next c)
  | [], _ => none

def isHexDigit (c : Char) : Bool := (Text.digitValue? 16 c).isSome

def escape (cursor : Cursor) : Except LexError (UInt8 × Cursor) :=
  match cursor.rest with
  | [] => fail cursor.location .endInEscape
  | c :: rest =>
      let behind : Cursor := ⟨rest, cursor.location.next c⟩
      match c with
      | 'n' => .ok (0x0A, behind)
      | 't' => .ok (0x09, behind)
      | 'r' => .ok (0x0D, behind)
      | '\\' => .ok (0x5C, behind)
      | '\'' => .ok (0x27, behind)
      | '"' => .ok (0x22, behind)
      | '0' => .ok (0, behind)
      | 'x' =>
          let digits := (rest.take 2).takeWhile isHexDigit
          match Text.readNatural? 16 digits with
          | some value =>
              .ok (value.toUInt8,
                ⟨rest.drop digits.length, behind.location.advance digits⟩)
          | none => fail cursor.location (.badHexEscape (String.ofList digits))
      | _ => fail cursor.location (.unknownEscape c)

/-- The characters of a text literal up to its closing quote. The first argument
bounds the number of characters still to read. -/
def textBody (opening : Location) : Nat → Cursor → Except LexError (List Char × Cursor)
  | 0, _ => fail opening .unterminatedText
  | fuel + 1, cursor =>
      match cursor.rest with
      | [] => fail opening .unterminatedText
      | c :: rest =>
          let behind : Cursor := ⟨rest, cursor.location.next c⟩
          if c = '"' then .ok ([], behind)
          else if c = '\n' then fail opening .unterminatedText
          else if c = '\\' then do
            let (byte, afterEscape) ← behind.escape
            let (tail, final) ← textBody opening fuel afterEscape
            .ok (Char.ofNat byte.toNat :: tail, final)
          else do
            let (tail, final) ← textBody opening fuel behind
            .ok (c :: tail, final)

/-- A character literal behind its opening quote. A character outside the byte
range keeps its low eight bits. -/
def characterBody (opening : Location) (cursor : Cursor) : Except LexError (UInt8 × Cursor) :=
  match cursor.rest with
  | [] => fail opening .endInCharacter
  | c :: rest => do
      let behind : Cursor := ⟨rest, cursor.location.next c⟩
      let (byte, atQuote) ←
        if c = '\\' then behind.escape else .ok (c.toNat.toUInt8, behind)
      match atQuote.rest with
      | '\'' :: final => .ok (byte, ⟨final, atQuote.location.next '\''⟩)
      | other :: _ => fail (atQuote.location.next other) .missingQuote
      | [] => fail atQuote.location .missingQuote

def isIntegerMark (c : Char) : Bool := c == 'u' || c == 'U' || c == 'l' || c == 'L'

def integerMarks (cursor : Cursor) : Bool × Cursor :=
  let (marks, behind) := cursor.span isIntegerMark
  (marks.any fun c => c == 'u' || c == 'U', behind)

def prefixedNumber (opening : Location) (radix : Nat) (cursor : Cursor) :
    Except LexError (TokenKind × Cursor) :=
  let (digits, behind) := cursor.span fun c => (Text.digitValue? radix c).isSome
  let (unsigned, final) := behind.integerMarks
  match Text.readInt64? radix digits with
  | some value => .ok (.int value unsigned, final)
  | none => fail opening (.badNumber (String.ofList digits))

def exponentPart (cursor : Cursor) : List Char × Cursor :=
  match cursor.rest with
  | mark :: rest =>
      if mark = 'e' ∨ mark = 'E' then
        let behind : Cursor := ⟨rest, cursor.location.next mark⟩
        let (sign, atDigits) : List Char × Cursor :=
          match rest with
          | c :: tail =>
              if c = '+' ∨ c = '-' then ([c], ⟨tail, behind.location.next c⟩)
              else ([], behind)
          | [] => ([], behind)
        let (digits, final) := atDigits.span Decimal.isDigit
        ('e' :: sign ++ digits, final)
      else ([], cursor)
  | [] => ([], cursor)

def fractionPart (cursor : Cursor) : List Char × Cursor :=
  match cursor.rest with
  | '.' :: rest =>
      let (digits, final) := Cursor.span ⟨rest, cursor.location.next '.'⟩ Decimal.isDigit
      ('.' :: digits, final)
  | _ => ([], cursor)

def floatMark (cursor : Cursor) : Cursor :=
  match cursor.rest with
  | c :: rest =>
      if c = 'f' ∨ c = 'F' then ⟨rest, cursor.location.next c⟩ else cursor
  | [] => cursor

def integerValue? (text : List Char) : Option Int64 :=
  match text with
  | '0' :: c :: rest => Text.readInt64? 8 (c :: rest)
  | _ => Text.readInt64? 10 text

def decimalNumber (opening : Location) (first : Char) (cursor : Cursor) :
    Except LexError (TokenKind × Cursor) :=
  let (digits, afterDigits) := cursor.span Decimal.isDigit
  let (fraction, afterFraction) :=
    if first = '.' then ([], afterDigits) else afterDigits.fractionPart
  let (exponent, afterExponent) := afterFraction.exponentPart
  let text := first :: digits ++ fraction ++ exponent
  if first = '.' ∨ fraction ≠ [] ∨ exponent ≠ [] then
    match Decimal.read? text with
    | some value => .ok (.float value, afterExponent.floatMark)
    | none => fail opening (.badNumber (String.ofList text))
  else
    let (unsigned, final) := afterExponent.integerMarks
    match integerValue? text with
    | some value => .ok (.int value unsigned, final)
    | none => fail opening (.badNumber (String.ofList text))

def number (opening : Location) (first : Char) (cursor : Cursor) :
    Except LexError (TokenKind × Cursor) :=
  match first, cursor.rest with
  | '0', mark :: rest =>
      let behind : Cursor := ⟨rest, cursor.location.next mark⟩
      if mark = 'x' ∨ mark = 'X' then prefixedNumber opening 16 behind
      else if mark = 'b' ∨ mark = 'B' then prefixedNumber opening 2 behind
      else decimalNumber opening first cursor
  | _, _ => decimalNumber opening first cursor

def isNameStart (c : Char) : Bool := ('a' ≤ c && c ≤ 'z') || ('A' ≤ c && c ≤ 'Z') || c == '_'

def isNamePart (c : Char) : Bool := isNameStart c || Decimal.isDigit c

def wordKind (word : String) : TokenKind :=
  match Keyword.ofWord? word with
  | some keyword => .keyword keyword
  | none => .name word

def startsWithDigit : List Char → Bool
  | c :: _ => Decimal.isDigit c
  | [] => false

def token (c : Char) (rest : List Char) (loc : Location) : Except LexError (TokenKind × Cursor) :=
  let behind : Cursor := ⟨rest, loc.next c⟩
  if c = '"' then do
    let (body, final) ← textBody loc (rest.length + 1) behind
    .ok (.text (String.ofList body), final)
  else if c = '\'' then do
    let (byte, final) ← characterBody loc behind
    .ok (.char byte.toInt8, final)
  else if Decimal.isDigit c || (c == '.' && startsWithDigit rest) then
    number loc c behind
  else if isNameStart c then
    let (tail, final) := behind.span isNamePart
    .ok (wordKind (String.ofList (c :: tail)), final)
  else
    match Symbol.scan? (c :: rest) with
    | some (symbol, final) => .ok (.symbol symbol, ⟨final, loc.advance symbol.spelling.toList⟩)
    | none => fail loc (.unexpectedCharacter c)

/-- One step of the scan at the character `c`: skip something, or read a token. -/
def step (c : Char) (rest : List Char) (loc : Location) : Except LexError (Option Token × Cursor) :=
  if Text.isBlank c then .ok (none, ⟨rest, loc.next c⟩)
  else if c = '#' then .ok (none, skipLine ⟨c :: rest, loc⟩)
  else
    match c, rest with
    | '/', '/' :: _ => .ok (none, skipLine ⟨c :: rest, loc⟩)
    | '/', '*' :: tail =>
        match commentEnd? tail (loc.advance ['/', '*']) with
        | some final => .ok (none, final)
        | none => fail loc .unterminatedComment
    | _, _ => do
        let (kind, final) ← token c rest loc
        .ok (some ⟨kind, loc⟩, final)

/-- The tokens from the cursor on. The first argument bounds the number of steps;
every step moves forward, so the length of the text is enough. -/
def tokens : Nat → Cursor → Except LexError (List Token)
  | 0, cursor => .ok [⟨.endOfFile, cursor.location⟩]
  | fuel + 1, cursor =>
      match cursor.rest with
      | [] => .ok [⟨.endOfFile, cursor.location⟩]
      | c :: rest => do
          let (token?, next) ← step c rest cursor.location
          let following ← tokens fuel next
          .ok (token?.toList ++ following)

end Cursor

def tokenize (text : String) : Except LexError (List Token) :=
  let characters := text.toList
  Cursor.tokens characters.length (Cursor.ofText characters)

end Breadboard
