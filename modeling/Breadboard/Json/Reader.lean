import Breadboard.Json.Value

/-!
Reading JSON. Escapes name UTF-16 units, so a text may hold half of a pair; such a
text can be passed over but not used.
-/

namespace Breadboard.JsonValue

/-- One position of a quoted text: a character, or a unit that an escape names. -/
inductive TextUnit where
  | char (c : Char)
  | code (unit : Nat)

def isBlank (c : Char) : Bool := c = ' ' || c = '\n' || c = '\t' || c = '\r'

def skipBlanks (input : List Char) : List Char := input.dropWhile isBlank

def hexUnit? (digits : List Char) : Option Nat := do
  let values ← digits.mapM (Text.digitValue? 16)
  some (values.foldl (fun n digit => n * 16 + digit) 0)

def plainEscape? : Char → Option Char
  | '"' => some '"'
  | '\\' => some '\\'
  | '/' => some '/'
  | 'b' => some '\x08'
  | 'f' => some '\x0c'
  | 'n' => some '\n'
  | 'r' => some '\r'
  | 't' => some '\t'
  | _ => none

def units? : List Char → Option (List TextUnit × List Char)
  | [] => none
  | '"' :: rest => some ([], rest)
  | '\\' :: 'u' :: a :: b :: c :: d :: rest => do
      let code ← hexUnit? [a, b, c, d]
      let (units, rest) ← units? rest
      some (.code code :: units, rest)
  | '\\' :: c :: rest => do
      let plain ← plainEscape? c
      let (units, rest) ← units? rest
      some (.char plain :: units, rest)
  | c :: rest =>
      if c < ' ' || c = '\\' then none
      else do
        let (units, rest) ← units? rest
        some (.char c :: units, rest)

def isHigh (unit : Nat) : Bool := 0xD800 ≤ unit && unit ≤ 0xDBFF

def isLow (unit : Nat) : Bool := 0xDC00 ≤ unit && unit ≤ 0xDFFF

def spelled : List TextUnit → List (Option Char)
  | [] => []
  | .char c :: rest => some c :: spelled rest
  | .code high :: .code low :: rest =>
      if isHigh high && isLow low then
        some (Char.ofNat (0x10000 + (high - 0xD800) * 0x400 + (low - 0xDC00))) :: spelled rest
      else if isHigh high || isLow high then none :: spelled (.code low :: rest)
      else some (Char.ofNat high) :: spelled (.code low :: rest)
  | .code unit :: rest =>
      (if isHigh unit || isLow unit then none else some (Char.ofNat unit)) :: spelled rest

def wholeText? (units : List TextUnit) : Option String :=
  ((spelled units).mapM id).map String.ofList

/-- The text that units spell, with a mark for every half of a pair. -/
def markedText (units : List TextUnit) : String :=
  String.ofList ((spelled units).map fun c => c.getD (Char.ofNat 0xFFFD))

def digits? (input : List Char) : Option (List Char × List Char) :=
  match input.span Decimal.isDigit with
  | ([], _) => none
  | found => some found

/-- A whole part: one digit, or more that do not begin with zero. -/
def wholePart? (input : List Char) : Option (List Char × List Char) := do
  let (digits, rest) ← digits? input
  if digits.length ≠ 1 && digits.head? = some '0' then none else some (digits, rest)

def fraction? : List Char → Option (List Char × List Char)
  | '.' :: input => (digits? input).map fun (digits, rest) => ('.' :: digits, rest)
  | input => some ([], input)

def exponentDigits? (marks : List Char) (input : List Char) : Option (List Char × List Char) :=
  (digits? input).map fun (digits, rest) => (marks ++ digits, rest)

def exponent? : List Char → Option (List Char × List Char)
  | 'e' :: '+' :: input | 'E' :: '+' :: input => exponentDigits? ['e', '+'] input
  | 'e' :: '-' :: input | 'E' :: '-' :: input => exponentDigits? ['e', '-'] input
  | 'e' :: input | 'E' :: input => exponentDigits? ['e'] input
  | input => some ([], input)

/-- A number without its sign. It is whole if it has neither fraction nor exponent;
a negative zero is not. -/
def number? (isNegative : Bool) (input : List Char) : Option (JsonValue × List Char) := do
  let (whole, input) ← wholePart? input
  let (fraction, input) ← fraction? input
  let (exponent, input) ← exponent? input
  let magnitude := Decimal.natural whole
  if fraction.isEmpty && exponent.isEmpty && !(isNegative && magnitude = 0) then
    some (.int (if isNegative then -(magnitude : Int) else magnitude), input)
  else
    let sign := if isNegative then ['-'] else []
    let value ← Decimal.read? (sign ++ whole ++ fraction ++ exponent)
    some (.float value, input)

def plain? (input : List Char) : Option (JsonValue × List Char) :=
  match input with
  | 'n' :: 'u' :: 'l' :: 'l' :: rest => some (.null, rest)
  | 't' :: 'r' :: 'u' :: 'e' :: rest => some (.bool true, rest)
  | 'f' :: 'a' :: 'l' :: 's' :: 'e' :: rest => some (.bool false, rest)
  | '"' :: rest => (units? rest).map fun (units, rest) => (.text (markedText units), rest)
  | '-' :: rest => number? true rest
  | _ => number? false input

mutual

/-- A value after blanks. With `strict`, the keys of an object must be whole texts. -/
def value? : Nat → Bool → List Char → Option (JsonValue × List Char)
  | 0, _, _ => none
  | fuel + 1, strict, input =>
      match skipBlanks input with
      | '[' :: rest =>
          match skipBlanks rest with
          | ']' :: rest => some (.list [], rest)
          | rest => do
              let (items, rest) ← items? fuel rest
              some (.list items, rest)
      | '\x7b' :: rest =>
          match skipBlanks rest with
          | '\x7d' :: rest => some (.object [], rest)
          | rest => do
              let (fields, rest) ← members? fuel strict rest
              some (.object fields, rest)
      | rest => plain? rest

def items? : Nat → List Char → Option (List JsonValue × List Char)
  | 0, _ => none
  | fuel + 1, input => do
      let (item, rest) ← value? fuel false input
      match skipBlanks rest with
      | ',' :: rest => do
          let (items, rest) ← items? fuel rest
          some (item :: items, rest)
      | ']' :: rest => some ([item], rest)
      | _ => none

def members? : Nat → Bool → List Char → Option (List (String × JsonValue) × List Char)
  | 0, _, _ => none
  | fuel + 1, strict, input =>
      match skipBlanks input with
      | '"' :: rest => do
          let (units, rest) ← units? rest
          let name ← if strict then wholeText? units else some (markedText units)
          match skipBlanks rest with
          | ':' :: rest => do
              let (value, rest) ← value? fuel false rest
              match skipBlanks rest with
              | ',' :: rest => do
                  let (fields, rest) ← members? fuel strict rest
                  some ((name, value) :: fields, rest)
              | '\x7d' :: rest => some ([(name, value)], rest)
              | _ => none
          | _ => none
      | _ => none

end

def read? (input : String) : Option JsonValue :=
  match value? (2 * input.length + 2) true input.toList with
  | some (value, rest) => if (skipBlanks rest).isEmpty then some value else none
  | none => none

end Breadboard.JsonValue
