/-!
Texts as byte sequences. Lengths and positions in a text count bytes of its
UTF-8 form; cutting a text may split a character, and every maximal piece that
is not UTF-8 then reads as the replacement character.
-/

namespace Breadboard.Text

abbrev Bytes := List UInt8

def bytes (text : String) : Bytes := text.toList.flatMap String.utf8EncodeChar

def isContinuation (b : UInt8) : Bool := 0x80 ≤ b && b ≤ 0xBF

def followsLeadOfThree (lead second : UInt8) : Bool :=
  if lead = 0xE0 then 0xA0 ≤ second && second ≤ 0xBF
  else if lead = 0xED then 0x80 ≤ second && second ≤ 0x9F
  else isContinuation second

def followsLeadOfFour (lead second : UInt8) : Bool :=
  if lead = 0xF0 then 0x90 ≤ second && second ≤ 0xBF
  else if lead = 0xF4 then 0x80 ≤ second && second ≤ 0x8F
  else isContinuation second

def payload (b : UInt8) : Nat := b.toNat % 0x40

def char2 (a b : UInt8) : Char := Char.ofNat (a.toNat % 0x20 * 0x40 + payload b)

def char3 (a b c : UInt8) : Char :=
  Char.ofNat ((a.toNat % 0x10 * 0x40 + payload b) * 0x40 + payload c)

def char4 (a b c d : UInt8) : Char :=
  Char.ofNat (((a.toNat % 0x08 * 0x40 + payload b) * 0x40 + payload c) * 0x40 + payload d)

/-- One piece of a byte sequence: a character, or the length of a maximal piece
that begins no character. -/
inductive Piece where
  | char (c : Char) (length : Nat)
  | broken (length : Nat)

def firstPiece (a : UInt8) (rest : Bytes) : Piece :=
  if a < 0x80 then .char (Char.ofNat a.toNat) 1
  else if 0xC2 ≤ a && a ≤ 0xDF then
    match rest with
    | b :: _ => if isContinuation b then .char (char2 a b) 2 else .broken 1
    | [] => .broken 1
  else if 0xE0 ≤ a && a ≤ 0xEF then
    match rest with
    | b :: c :: _ =>
        if !followsLeadOfThree a b then .broken 1
        else if isContinuation c then .char (char3 a b c) 3
        else .broken 2
    | [b] => if followsLeadOfThree a b then .broken 2 else .broken 1
    | [] => .broken 1
  else if 0xF0 ≤ a && a ≤ 0xF4 then
    match rest with
    | b :: c :: d :: _ =>
        if !followsLeadOfFour a b then .broken 1
        else if !isContinuation c then .broken 2
        else if isContinuation d then .char (char4 a b c d) 4
        else .broken 3
    | [b, c] =>
        if !followsLeadOfFour a b then .broken 1
        else if isContinuation c then .broken 3
        else .broken 2
    | [b] => if followsLeadOfFour a b then .broken 2 else .broken 1
    | [] => .broken 1
  else .broken 1

def pieces : Nat → Bytes → List Piece
  | _, [] => []
  | skip + 1, _ :: rest => pieces skip rest
  | 0, a :: rest =>
      let piece := firstPiece a rest
      match piece with
      | .char _ length => piece :: pieces (length - 1) rest
      | .broken length => piece :: pieces (length - 1) rest

def Piece.toChar : Piece → Char
  | .char c _ => c
  | .broken _ => '�'

def ofBytesLossy (bytes : Bytes) : String := String.ofList ((pieces 0 bytes).map Piece.toChar)

def Piece.char? : Piece → Option Char
  | .char c _ => some c
  | .broken _ => none

def ofBytes? (bytes : Bytes) : Option String :=
  ((pieces 0 bytes).mapM Piece.char?).map String.ofList

def size (text : String) : Nat := (bytes text).length

def isBoundary (bytes : Bytes) (index : Nat) : Bool :=
  match bytes[index]? with
  | some b => !isContinuation b
  | none => index == bytes.length

def findFrom? (needle : Bytes) (index : Nat) : Bytes → Option Nat
  | [] => if needle.isEmpty then some index else none
  | b :: rest =>
      if needle.isPrefixOf (b :: rest) then some index
      else findFrom? needle (index + 1) rest

def findLastFrom? (needle : Bytes) (index : Nat) : Bytes → Option Nat
  | [] => if needle.isEmpty then some index else none
  | b :: rest =>
      match findLastFrom? needle (index + 1) rest with
      | some found => some found
      | none => if needle.isPrefixOf (b :: rest) then some index else none

end Breadboard.Text
