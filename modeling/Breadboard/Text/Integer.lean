/-!
Integer numerals in any radix up to sixteen.
-/

namespace Breadboard.Text

def digitValue? (radix : Nat) (c : Char) : Option Nat :=
  let value? :=
    if '0' ≤ c && c ≤ '9' then some (c.toNat - '0'.toNat)
    else if 'a' ≤ c && c ≤ 'f' then some (c.toNat - 'a'.toNat + 10)
    else if 'A' ≤ c && c ≤ 'F' then some (c.toNat - 'A'.toNat + 10)
    else none
  value?.filter (· < radix)

def natural? (radix : Nat) (value : Nat) : List Char → Option Nat
  | [] => some value
  | c :: rest =>
      match digitValue? radix c with
      | some digit => natural? radix (radix * value + digit) rest
      | none => none

def readNatural? (radix : Nat) (text : List Char) : Option Nat :=
  if text.isEmpty then none else natural? radix 0 text

def readInt64? (radix : Nat) (text : List Char) : Option Int64 :=
  let value? : Option Int :=
    match text with
    | '-' :: rest => (readNatural? radix rest).map fun n => -(n : Int)
    | '+' :: rest => (readNatural? radix rest).map fun n => (n : Int)
    | _ => (readNatural? radix text).map fun n => (n : Int)
  value?.bind fun n =>
    if Int64.minValue.toInt ≤ n ∧ n ≤ Int64.maxValue.toInt then some (Int64.ofInt n)
    else none

def digits (radix : Nat) (uppercase : Bool) (n : Nat) : List Char :=
  let text := Nat.toDigits radix n
  if uppercase then text.map Char.toUpper else text

end Breadboard.Text
