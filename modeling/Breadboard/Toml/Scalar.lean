import Breadboard.Number.Decimal
import Breadboard.Text.Integer
import Breadboard.Toml.Table

/-!
Reading the parts of a TOML document that hold no other values: blanks, comments,
texts, numbers, dates and times. A reader takes characters from the front and
leaves the rest, or fails.
-/

namespace Breadboard.Toml

abbrev Reader := StateT (List Char) Option

namespace Reader

def peek? : Reader (Option Char) := do
  pure (← get).head?

def next : Reader Char := do
  match ← get with
  | c :: rest => do
      set rest
      pure c
  | [] => failure

def satisfy (holds : Char → Bool) : Reader Char := do
  let c ← next
  if holds c then pure c else failure

def expect (c : Char) : Reader Unit := do
  let _ ← satisfy (· = c)

def expectAll (text : String) : Reader Unit := text.toList.forM expect

def takeWhile (holds : Char → Bool) : Reader (List Char) := do
  let (taken, rest) := (← get).span holds
  set rest
  pure taken

def either {α : Type} (first second : Reader α) : Reader α := first <|> second

def maybe {α : Type} (reader : Reader α) : Reader (Option α) :=
  either (do pure (some (← reader))) (pure none)

def repeated {α : Type} (reader : Reader α) : Nat → Reader (List α)
  | 0 => pure []
  | limit + 1 => do
      match ← maybe reader with
      | some item => do
          let items ← repeated reader limit
          pure (item :: items)
      | none => pure []

def many {α : Type} (reader : Reader α) : Reader (List α) := do
  repeated reader (← get).length

end Reader

open Reader

def isBlank (c : Char) : Bool := c = ' ' || c = '\t'

def isPrintable (c : Char) : Bool := c = '\t' || (' ' ≤ c && c ≤ '~') || 0x80 ≤ c.toNat

def blanks : Reader Unit := do
  let _ ← takeWhile isBlank

def newline : Reader Unit := either (expect '\n') (expectAll "\r\n")

def comment : Reader Unit := do
  expect '#'
  let _ ← takeWhile isPrintable

def endOfInput : Reader Unit := do
  if (← get).isEmpty then pure () else failure

def lineEnd : Reader Unit := either newline endOfInput

def restOfLine : Reader Unit := do
  blanks
  let _ ← maybe comment
  lineEnd

def gap : Reader Unit := do
  let line : Reader Unit := do
    blanks
    let _ ← maybe comment
    newline
  let _ ← many line
  blanks

def scalarValue (code : Nat) : Reader Char :=
  if code.isValidChar then pure (Char.ofNat code) else failure

def hexCode (width : Nat) : Reader Char := do
  let digits ← (List.replicate width ()).mapM fun _ => next
  match Text.readNatural? 16 digits with
  | some code => scalarValue code
  | none => failure

def escape : Reader Char := do
  expect '\\'
  match ← next with
  | 'b' => pure '\x08'
  | 'f' => pure '\x0c'
  | 'n' => pure '\n'
  | 'r' => pure '\r'
  | 't' => pure '\t'
  | '"' => pure '"'
  | '\\' => pure '\\'
  | 'u' => hexCode 4
  | 'U' => hexCode 8
  | _ => failure

def plainChar (isExcluded : Char → Bool) : Reader Char :=
  satisfy fun c => isPrintable c && !isExcluded c

def basicText : Reader String := do
  expect '"'
  let chars ← many (either (plainChar fun c => c = '"' || c = '\\') escape)
  expect '"'
  pure (String.ofList chars)

def literalText : Reader String := do
  expect '\''
  let chars ← many (plainChar (· = '\''))
  expect '\''
  pure (String.ofList chars)

/-- A backslash at the end of a line hides all blanks and line breaks that follow. -/
def hiddenBreak : Reader (List Char) := do
  expect '\\'
  blanks
  newline
  let _ ← many (either newline (do let _ ← satisfy isBlank))
  pure []

def lineBreak : Reader (List Char) := do
  newline
  pure ['\n']

def looseQuotes (quote : Char) : Reader (List Char) := do
  let quotes ← takeWhile (· = quote)
  if quotes.length = 1 || quotes.length = 2 then pure quotes else failure

/-- The end of a text of several lines. Up to two quotes before the last three belong
to the text. -/
def closingQuotes (quote : Char) : Reader (List Char) := do
  let quotes ← takeWhile (· = quote)
  if 3 ≤ quotes.length && quotes.length ≤ 5 then pure (quotes.drop 3) else failure

def longText (quote : Char) (part : Reader (List Char)) : Reader String := do
  expect quote
  expect quote
  expect quote
  let _ ← maybe newline
  let parts ← many (either part (either lineBreak (looseQuotes quote)))
  let last ← closingQuotes quote
  pure (String.ofList (parts.flatten ++ last))

def longBasicText : Reader String :=
  longText '"' <|
    either hiddenBreak <| do
      pure [← either (plainChar fun c => c = '"' || c = '\\') escape]

def longLiteralText : Reader String :=
  longText '\'' do
    pure [← plainChar (· = '\'')]

def text : Reader String :=
  either longBasicText (either basicText (either longLiteralText literalText))

def groupedDigits (isDigit : Char → Bool) : Reader (List Char) := do
  let first ← satisfy isDigit
  let rest ← many (either (satisfy isDigit) (do
    expect '_'
    satisfy isDigit))
  pure (first :: rest)

def sign : Reader (List Char) := either (do pure [← satisfy fun c => c = '+' || c = '-']) (pure [])

def decimalDigits : Reader (List Char) := do
  let mark ← sign
  let digits ← groupedDigits Decimal.isDigit
  if digits.length ≠ 1 && digits.head? = some '0' then failure else pure (mark ++ digits)

def integerOf (radix : Nat) (digits : List Char) : Reader Item :=
  match Text.readInt64? radix digits with
  | some value => pure (.integer value)
  | none => failure

def radixInteger (start : String) (radix : Nat) : Reader Item := do
  expectAll start
  integerOf radix (← groupedDigits fun c => (Text.digitValue? radix c).isSome)

def integer : Reader Item :=
  either (radixInteger "0x" 16) <|
    either (radixInteger "0o" 8) <|
      either (radixInteger "0b" 2) do
        integerOf 10 (← decimalDigits)

def exponent : Reader (List Char) := do
  let _ ← satisfy fun c => c = 'e' || c = 'E'
  let mark ← sign
  let digits ← groupedDigits Decimal.isDigit
  pure ('e' :: mark ++ digits)

def fraction : Reader (List Char) := do
  expect '.'
  let digits ← groupedDigits Decimal.isDigit
  let scale ← maybe exponent
  pure ('.' :: digits ++ scale.getD [])

def finiteFloat : Reader Item := do
  let whole ← decimalDigits
  let rest ← either exponent fraction
  match Decimal.read? (whole ++ rest) with
  | some value =>
      if value.isInfinite && !value.negative then failure else pure (.float value)
  | none => failure

def specialFloat : Reader Item := do
  let mark ← sign
  let magnitude : Binary64 ← either
    (do expectAll "inf"; pure ⟨0x7FF0000000000000⟩) (do expectAll "nan"; pure ⟨0x7FF8000000000000⟩)
  pure (.float (if mark = ['-'] then magnitude.neg else magnitude))

def float : Reader Item := either finiteFloat specialFloat

def fixedNumber (width low high : Nat) : Reader Nat := do
  let digits ← (List.replicate width ()).mapM fun _ => satisfy Decimal.isDigit
  let value := Decimal.natural digits
  if low ≤ value && value ≤ high then pure value else failure

def isLeapYear (year : Nat) : Bool := year % 4 = 0 && (year % 100 ≠ 0 || year % 400 = 0)

def daysInMonth (year month : Nat) : Nat :=
  if month = 2 then (if isLeapYear year then 29 else 28)
  else if month = 4 || month = 6 || month = 9 || month = 11 then 30
  else 31

def date : Reader Unit := do
  let year ← fixedNumber 4 0 9999
  expect '-'
  let month ← fixedNumber 2 1 12
  expect '-'
  let _ ← fixedNumber 2 1 (daysInMonth year month)

def timeOfDay : Reader Unit := do
  let _ ← fixedNumber 2 0 23
  expect ':'
  let _ ← fixedNumber 2 0 59
  expect ':'
  let _ ← fixedNumber 2 0 60
  let _ ← maybe do
    expect '.'
    let _ ← satisfy Decimal.isDigit
    takeWhile Decimal.isDigit

def timeOffset : Reader Unit :=
  either (do let _ ← satisfy fun c => c = 'Z' || c = 'z') do
    let _ ← satisfy fun c => c = '+' || c = '-'
    let _ ← fixedNumber 2 0 23
    expect ':'
    let _ ← fixedNumber 2 0 59

def moment : Reader Item := do
  let dated : Reader Unit := do
    date
    let _ ← maybe do
      let _ ← satisfy fun c => c = 'T' || c = 't' || c = ' '
      timeOfDay
      maybe timeOffset
  either dated timeOfDay
  pure .moment

def bool : Reader Item :=
  either (do expectAll "true"; pure (.bool true)) (do expectAll "false"; pure (.bool false))

def scalar : Reader Item :=
  either (do pure (.text (← text))) <|
    either moment <| either float <| either integer bool

def isBareKeyChar (c : Char) : Bool :=
  ('a' ≤ c && c ≤ 'z') || ('A' ≤ c && c ≤ 'Z') || ('0' ≤ c && c ≤ '9') || c = '_' || c = '-'

def bareKey : Reader String := do
  let first ← satisfy isBareKeyChar
  let rest ← takeWhile isBareKeyChar
  pure (String.ofList (first :: rest))

def keyPart : Reader String := do
  blanks
  let part ← either basicText (either literalText bareKey)
  blanks
  pure part

def depthLimit : Nat := 79

def key : Reader (List String × String) := do
  let first ← keyPart
  let rest ← many do
    expect '.'
    keyPart
  let parts := first :: rest
  match parts.getLast? with
  | some name =>
      if depthLimit < parts.length then failure else pure (parts.dropLast, name)
  | none => failure

end Breadboard.Toml
