import Breadboard.Machine.Conversion

/-!
Operators on values. Two numbers meet in the wider of their types, in the order
`int`, `unsigned long`, `long long`, floating point, and integers wrap.
-/

namespace Breadboard

inductive Promoted where
  | int (left right : Int32)
  | unsigned (left right : UInt32)
  | long (left right : Int64)
  | float (left right : Binary64)

namespace Value

def rank? : Value → Option Nat
  | .bool _ | .char _ | .int _ => some 0
  | .unsigned _ => some 1
  | .long _ => some 2
  | .float _ => some 3
  | _ => none

def promote? (left right : Value) : Option Promoted := do
  let leftRank ← left.rank?
  let rightRank ← right.rank?
  let a ← left.integer?
  let b ← right.integer?
  match max leftRank rightRank with
  | 0 => some (.int a.toInt32 b.toInt32)
  | 1 => some (.unsigned a.toUInt64.toUInt32 b.toUInt64.toUInt32)
  | 2 => some (.long a b)
  | _ => some (.float (← left.float?) (← right.float?))

end Value

namespace BinaryOp

def isComparison : BinaryOp → Bool
  | .eq | .ne | .lt | .le | .gt | .ge => true
  | _ => false

def holds : BinaryOp → Ordering → Bool
  | .eq, order => order = .eq
  | .ne, order => order ≠ .eq
  | .lt, order => order = .lt
  | .le, order => order ≠ .gt
  | .gt, order => order = .gt
  | .ge, order => order ≠ .lt
  | _, _ => false

def divisionName (op : BinaryOp) : String := if op = .div then "Division" else "Modulo"

def onInt32 (op : BinaryOp) (a b : Int32) : Except Cause Value :=
  match op with
  | .add => .ok (.int (a + b))
  | .sub => .ok (.int (a - b))
  | .mul => .ok (.int (a * b))
  | .div => if b = 0 then .error (.divisionByZero op.divisionName) else .ok (.int (a / b))
  | .mod => if b = 0 then .error (.divisionByZero op.divisionName) else .ok (.int (a % b))
  | .bitAnd => .ok (.int (a &&& b))
  | .bitOr => .ok (.int (a ||| b))
  | .bitXor => .ok (.int (a ^^^ b))
  | _ => .ok (.bool (op.holds (compare a.toInt b.toInt)))

def onUInt32 (op : BinaryOp) (a b : UInt32) : Except Cause Value :=
  match op with
  | .add => .ok (.unsigned (a + b))
  | .sub => .ok (.unsigned (a - b))
  | .mul => .ok (.unsigned (a * b))
  | .div =>
      if b = 0 then .error (.divisionByZero op.divisionName) else .ok (.unsigned (a / b))
  | .mod =>
      if b = 0 then .error (.divisionByZero op.divisionName) else .ok (.unsigned (a % b))
  | .bitAnd => .ok (.unsigned (a &&& b))
  | .bitOr => .ok (.unsigned (a ||| b))
  | .bitXor => .ok (.unsigned (a ^^^ b))
  | _ => .ok (.bool (op.holds (compare a.toNat b.toNat)))

def onInt64 (op : BinaryOp) (a b : Int64) : Except Cause Value :=
  match op with
  | .add => .ok (.long (a + b))
  | .sub => .ok (.long (a - b))
  | .mul => .ok (.long (a * b))
  | .div => if b = 0 then .error (.divisionByZero op.divisionName) else .ok (.long (a / b))
  | .mod => if b = 0 then .error (.divisionByZero op.divisionName) else .ok (.long (a % b))
  | .bitAnd => .ok (.long (a &&& b))
  | .bitOr => .ok (.long (a ||| b))
  | .bitXor => .ok (.long (a ^^^ b))
  | _ => .ok (.bool (op.holds (compare a.toInt b.toInt)))

/-- A number that is not one differs from everything and is in no order. -/
def onFloat (op : BinaryOp) (a b : Binary64) : Except Cause Value :=
  match op with
  | .add => .ok (.float (a.add b))
  | .sub => .ok (.float (a.sub b))
  | .mul => .ok (.float (a.mul b))
  | .div => .ok (.float (a.div b))
  | _ =>
      if op.isComparison then
        match a.compare? b with
        | some order => .ok (.bool (op.holds order))
        | none => .ok (.bool (op = .ne))
      else .error (.typeMismatch (.floatOperator op))

def mismatch (op : BinaryOp) (left right : Value) : Cause :=
  .typeMismatch (.operator op left.typeName right.typeName)

/-- A shift has the type of its left operand, and its amount counts modulo the
width. -/
def shift (op : BinaryOp) (left right : Value) : Except Cause Value :=
  let amount? :=
    match right with
    | .float _ => none
    | _ => right.integer?
  match amount?, left.rank? with
  | some amount, some rank =>
      if rank < 3 then
        let places := amount.toUInt64.toNat
        match left with
        | .unsigned n =>
            let by32 := UInt32.ofNat (places % 32)
            .ok (.unsigned (if op = .shl then n <<< by32 else n >>> by32))
        | .long n =>
            let by64 := Int64.ofNat (places % 64)
            .ok (.long (if op = .shl then n <<< by64 else n >>> by64))
        | _ =>
            let n := ((left.integer?).getD 0).toInt32
            let by32 := Int32.ofNat (places % 32)
            .ok (.int (if op = .shl then n <<< by32 else n >>> by32))
      else .error (.typeMismatch (.shiftOperands op))
  | _, _ => .error (.typeMismatch (.shiftOperands op))

def joinsText : Value → Bool
  | .text _ => true
  | value => value.isNumeric

/-- Texts are joined and compared; a number beside a text is shown as text. -/
def onText (op : BinaryOp) (left right : Value) : Except Cause Value :=
  if op = .add && joinsText left && joinsText right then
    .ok (.text (left.render ++ right.render))
  else
    match left, right with
    | .text a, .text b =>
        if op.isComparison then .ok (.bool (op.holds (compare a b)))
        else .error (op.mismatch left right)
    | _, _ => .error (op.mismatch left right)

def isNull : Value → Bool
  | .null => true
  | value => value.wholeNumber? = some 0

/-- The order of two elements of one array; what is no element comes first. -/
def compareIndex : Option Nat → Option Nat → Ordering
  | none, none => .eq
  | none, some _ => .lt
  | some _, none => .gt
  | some a, some b => compare a b

def distance (a b : Place) : Int32 :=
  (Int64.ofNat (a.lastIndex?.getD 0) - Int64.ofNat (b.lastIndex?.getD 0)).toInt32

def onPointer (op : BinaryOp) (left right : Value) : Except Cause Value :=
  let equality := op = .eq || op = .ne
  match left, right with
  | .pointer a, .pointer b =>
      if op = .sub && a.sameArray b then .ok (.int (distance a b))
      else if equality then .ok (.bool (op.holds (if a = b then .eq else .lt)))
      else if op.isComparison && a.sameArray b then
        .ok (.bool (op.holds (compareIndex a.lastIndex? b.lastIndex?)))
      else .error (op.mismatch left right)
  | _, _ =>
      if equality && isNull left && isNull right then .ok (.bool (op.holds .eq))
      else if equality && (isNull left || isNull right) then .ok (.bool (op.holds .lt))
      else .error (op.mismatch left right)

def isPointer : Value → Bool
  | .pointer _ | .null => true
  | _ => false

def isText : Value → Bool
  | .text _ => true
  | _ => false

def apply (op : BinaryOp) (left right : Value) : Except Cause Value :=
  if isPointer left || isPointer right then op.onPointer left right
  else if isText left || isText right then op.onText left right
  else if op = .shl || op = .shr then op.shift left right
  else
    match left.promote? right with
    | some (.int a b) => op.onInt32 a b
    | some (.unsigned a b) => op.onUInt32 a b
    | some (.long a b) => op.onInt64 a b
    | some (.float a b) => op.onFloat a b
    | none => .error (op.mismatch left right)

end BinaryOp

/-- A unary operator on a value. The address operators work on places and do not
apply to values. -/
def UnaryOp.apply (op : UnaryOp) (value : Value) : Except Cause Value :=
  let mismatch : Except Cause Value := .error (.typeMismatch (.unaryOperator op value.typeName))
  match op with
  | .not =>
      match value.truth? with
      | some truth => .ok (.bool (!truth))
      | none => mismatch
  | .neg =>
      match value with
      | .float x => .ok (.float x.neg)
      | .unsigned n => .ok (.unsigned (-n))
      | .long n => .ok (.long (-n))
      | .bool _ | .char _ | .int _ => .ok (.int (-((value.integer?).getD 0).toInt32))
      | _ => mismatch
  | .plus =>
      match value with
      | .bool _ | .char _ => .ok (.int ((value.integer?).getD 0).toInt32)
      | _ => if value.isNumeric then .ok value else mismatch
  | .bitNot =>
      match value with
      | .unsigned n => .ok (.unsigned (~~~n))
      | .long n => .ok (.long (~~~n))
      | .bool _ | .char _ | .int _ => .ok (.int (~~~((value.integer?).getD 0).toInt32))
      | _ => mismatch
  | .deref | .addressOf => .error (.unsupported .addressOperator)

def IncDecOp.apply (op : IncDecOp) (value : Value) : Except Cause Value :=
  let up := op.increments
  match value with
  | .int n => .ok (.int (if up then n + 1 else n - 1))
  | .unsigned n => .ok (.unsigned (if up then n + 1 else n - 1))
  | .long n => .ok (.long (if up then n + 1 else n - 1))
  | .char n => .ok (.char (if up then n + 1 else n - 1))
  | .bool b =>
      let n : Int32 := if b then 1 else 0
      .ok (.int (if up then n + 1 else n - 1))
  | .float x => .ok (.float (x.add (Binary64.ofInt (if up then 1 else -1))))
  | _ => .error (.typeMismatch (.increment value.typeName))

end Breadboard
