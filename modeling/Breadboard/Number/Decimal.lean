import Breadboard.Number.Binary64

/-!
Decimal numerals: reading them to the nearest double, writing a double with a
fixed number of places, and choosing the fewest digits that read back.
-/

namespace Breadboard.Decimal

def isDigit (c : Char) : Bool := '0' ≤ c && c ≤ '9'

def digitValue (c : Char) : Nat := c.toNat - '0'.toNat

def natural (digits : List Char) : Nat := digits.foldl (fun value c => 10 * value + digitValue c) 0

def nearestDouble (mantissa : Nat) (exponent : Int) : Binary64 :=
  let magnitude := (Nat.toDigits 10 mantissa).length + exponent
  if mantissa = 0 ∨ magnitude < -400 then Binary64.zero
  else if 400 < magnitude then Binary64.withSign false FloatFormat.double.infinity
  else if 0 ≤ exponent then
    Binary64.ofSteps false (mantissa * Nat.pow 10 exponent.toNat * Binary64.stepsPerOne) 1
  else
    Binary64.ofSteps false (mantissa * Binary64.stepsPerOne) (Nat.pow 10 (-exponent).toNat)

/-- The optional exponent part of a numeral: `some 0` when there is none, `none`
when the text is no exponent part. -/
def readExponent? : List Char → Option Int
  | [] => some 0
  | mark :: rest =>
      if mark = 'e' ∨ mark = 'E' then
        let (negative, digits) :=
          match rest with
          | '-' :: tail => (true, tail)
          | '+' :: tail => (false, tail)
          | _ => (false, rest)
        if digits.isEmpty || !digits.all isDigit then none
        else some (Binary64.signed negative (natural digits))
      else none

/-- An unsigned decimal numeral: digits with at most one point and an optional
exponent. At least one digit stands before the exponent. -/
def readUnsigned? (text : List Char) : Option Binary64 :=
  let whole := text.takeWhile isDigit
  let afterWhole := text.dropWhile isDigit
  let (fraction, afterFraction) :=
    match afterWhole with
    | '.' :: rest => (rest.takeWhile isDigit, rest.dropWhile isDigit)
    | _ => ([], afterWhole)
  if whole.isEmpty && fraction.isEmpty then none
  else
    (readExponent? afterFraction).map fun exponent =>
      nearestDouble (natural (whole ++ fraction)) (exponent - fraction.length)

def read? : List Char → Option Binary64
  | '-' :: rest => (readUnsigned? rest).map Binary64.neg
  | '+' :: rest => readUnsigned? rest
  | text => readUnsigned? text

def padded (width n : Nat) : List Char :=
  let digits := Nat.toDigits 10 n
  List.replicate (width - digits.length) '0' ++ digits

/-- The decimal text of the finite number `x` with exactly `places` places. The
exact binary value is rounded, halves to the even neighbour. -/
def fixed (places : Nat) (x : Binary64) : String :=
  let scaled := FloatFormat.divideToEven (x.steps * Nat.pow 10 places) Binary64.stepsPerOne
  let digits := padded (places + 1) scaled
  let whole := digits.take (digits.length - places)
  let fraction := digits.drop (digits.length - places)
  String.ofList ((if x.negative then ['-'] else []) ++ whole ++
    (if places = 0 then [] else '.' :: fraction))

/-- Which of two equally near candidates of the same length is written. -/
inductive Tie where
  | up
  | toEven

structure Scientific where
  digits : Nat
  exponent : Int

/-- The decimals with grid `10^exponent` next to the magnitude pattern `bits`
that read back as it: the nearer of the two neighbours, if one does. -/
def onGrid? (tie : Tie) (bits : Nat) (exponent : Int) : Option Scientific :=
  let value := 2 * FloatFormat.double.steps bits
  let low := FloatFormat.double.steps bits + FloatFormat.double.steps (bits - 1)
  let high := FloatFormat.double.steps bits + FloatFormat.double.steps (bits + 1)
  let scale := if exponent < 0 then Nat.pow 10 (-exponent).toNat else 1
  let grid :=
    if exponent < 0 then 2 * Binary64.stepsPerOne
    else 2 * Binary64.stepsPerOne * Nat.pow 10 exponent.toNat
  let inside (candidate : Nat) : Bool :=
    let point := candidate * grid
    if bits % 2 = 0 then low * scale ≤ point && point ≤ high * scale
    else low * scale < point && point < high * scale
  let below := value * scale / grid
  let remainder := value * scale % grid
  let above := below + 1
  match inside below, inside above with
  | false, false => none
  | true, false => some ⟨below, exponent⟩
  | false, true => some ⟨above, exponent⟩
  | true, true =>
      if 2 * remainder < grid then some ⟨below, exponent⟩
      else if grid < 2 * remainder then some ⟨above, exponent⟩
      else
        match tie with
        | .up => some ⟨above, exponent⟩
        | .toEven => some ⟨if below % 2 = 0 then below else above, exponent⟩

/-- The first of `count` grids, each ten times finer than the one before, that
holds a decimal reading back as `bits`. -/
def firstGrid? (tie : Tie) (bits : Nat) : Nat → Int → Option Scientific
  | 0, _ => none
  | count + 1, exponent =>
      match onGrid? tie bits exponent with
      | some found => some found
      | none => firstGrid? tie bits count (exponent - 1)

def leadingExponent (bits : Nat) : Int :=
  let steps := FloatFormat.double.steps bits
  if Binary64.stepsPerOne ≤ steps then
    (Nat.toDigits 10 (steps / Binary64.stepsPerOne)).length
  else
    -(((1074 - Nat.log2 steps) * 3 / 10 : Nat) : Int)

def shortest (tie : Tie) (bits : Nat) : Scientific :=
  (firstGrid? tie bits 32 (leadingExponent bits)).getD ⟨0, 0⟩

def positional (number : Scientific) : List Char :=
  let digits := Nat.toDigits 10 number.digits
  if 0 ≤ number.exponent then
    digits ++ List.replicate number.exponent.toNat '0'
  else
    let places := (-number.exponent).toNat
    let all := padded (places + 1) number.digits
    all.take (all.length - places) ++ '.' :: all.drop (all.length - places)

def signText (x : Binary64) : List Char := if x.negative then ['-'] else []

/-- The shortest text of a double in positional notation, whole numbers without
a point; `NaN`, `inf` and `-inf` for the rest. -/
def plain (x : Binary64) : String :=
  if x.isNaN then "NaN"
  else if x.isInfinite then String.ofList (signText x ++ "inf".toList)
  else if x.isZero then String.ofList (signText x ++ ['0'])
  else String.ofList (signText x ++ positional (shortest .up x.magnitudeBits))

/-- The shortest text of a finite double as a data format writes it: positional
with a fraction part while the point falls within sixteen digits or five zeros,
and with a signed exponent otherwise. -/
def data (x : Binary64) : String :=
  if x.isZero then String.ofList (signText x ++ "0.0".toList)
  else
    let number := shortest .toEven x.magnitudeBits
    let digits := Nat.toDigits 10 number.digits
    let point := digits.length + number.exponent
    let text :=
      if 0 ≤ number.exponent ∧ point ≤ 16 then
        positional number ++ ".0".toList
      else if -5 < point ∧ point ≤ 16 then positional number
      else
        let mantissa :=
          match digits with
          | first :: second :: rest => first :: '.' :: second :: rest
          | _ => digits
        let sign := if 0 < point then '+' else '-'
        mantissa ++ 'e' :: sign :: Nat.toDigits 10 (point - 1).natAbs
    String.ofList (signText x ++ text)

end Breadboard.Decimal
