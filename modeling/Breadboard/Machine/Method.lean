import Breadboard.Machine.Builtin

/-!
Methods of the serial line, of texts and of library objects.
-/

namespace Breadboard

structure Reply where
  value : Value
  command? : Option Command := none

namespace Serial

def sized (text : String) : Int32 := Int32.ofNat (Text.size text)

def call (env : Environment) (method : String) (values : List Value) : Except Cause Reply := do
  let args : Arguments := ⟨"Serial." ++ method, values⟩
  match method with
  | "begin" => do
      args.checkCount 1 2
      .ok ⟨.void, some (.serialBegin (← args.integer 0))⟩
  | "print" => do
      args.checkCount 0 2
      let text ← formattedText env args true
      .ok ⟨.int (sized text), some (.serialPrint text)⟩
  | "println" => do
      args.checkCount 0 2
      let text ← formattedText env args true
      .ok ⟨.int (sized text + 2), some (.serialPrintln text)⟩
  | "write" => do
      args.checkCount 1 1
      match args.get 0 with
      | .text text => .ok ⟨.int (sized text), some (.serialPrint text)⟩
      | _ => do .ok ⟨.int 1, some (.serialWrite ((← args.integer 0) &&& 0xFF))⟩
  | "available" => .ok ⟨.int 0, none⟩
  | "read" => .ok ⟨.int (-1), none⟩
  | "peek" => .ok ⟨.int (-1), none⟩
  | "flush" => .ok ⟨.void, none⟩
  | "end" => .ok ⟨.void, none⟩
  | _ => .error (.unsupported (.method args.function))

end Serial

namespace Text

def lower (b : UInt8) : UInt8 := if 0x41 ≤ b && b ≤ 0x5A then b + 0x20 else b

/-- The integer at the start of a text, blanks before it skipped; zero if there is
none. It wraps at 64 bits. -/
def leadingInteger (text : String) : Int64 :=
  let trimmed := trimStart text.toList
  let (negative, digits) :=
    match trimmed with
    | '-' :: rest => (true, rest)
    | '+' :: rest => (false, rest)
    | _ => (false, trimmed)
  let n := (digits.takeWhile Decimal.isDigit).foldl
    (fun (n : Int64) c => n * 10 + Int64.ofNat (c.toNat - '0'.toNat)) 0
  if negative then -n else n

def isNumberPart (c : Char) : Bool := Decimal.isDigit c || c == '.'

def leadingNumber (text : String) : Binary64 :=
  let trimmed := trimStart text.toList
  let numeral :=
    match trimmed with
    | '-' :: rest => '-' :: rest.takeWhile isNumberPart
    | '+' :: rest => '+' :: rest.takeWhile isNumberPart
    | _ => trimmed.takeWhile isNumberPart
  (Decimal.read? numeral).getD Binary64.zero

/-- A position within a text of `length` bytes, the nearest if it lies outside. -/
def within (length : Nat) (pos : Int64) : Nat := min pos.toInt.toNat length

def found (position? : Option Nat) : Value :=
  match position? with
  | some pos => .int (Int32.ofNat pos)
  | none => .int (-1)

def textArgument (env : Environment) (args : Arguments) (pos : Nat) : Except Cause String :=
  let refuse (type : String) : Except Cause String :=
    .error (.typeMismatch (.argument (pos + 1) args.function type "text"))
  match args.values[pos]? with
  | none => refuse "nothing"
  | some value =>
      match value with
      | .char _ => .ok value.render
      | .text string => .ok string
      | .pointer _ => .ok (env.display value)
      | _ => refuse value.typeName

def compareTexts (a b : String) : Int32 :=
  match compare a b with
  | .lt => -1
  | .eq => 0
  | .gt => 1

def call (env : Environment) (text method : String) (values : List Value) : Except Cause Value := do
  let args : Arguments := ⟨"String." ++ method, values⟩
  let content := bytes text
  match method with
  | "length" => do
      args.checkCount 0 0
      .ok (.int (Int32.ofNat content.length))
  | "charAt" => do
      args.checkCount 1 1
      let index ← args.integer 0
      let byte? := if index < 0 then none else content[index.toInt.toNat]?
      .ok (.char (byte?.getD 0).toInt8)
  | "indexOf" => do
      args.checkCount 1 2
      let needle ← textArgument env args 0
      let start ←
        if values.length = 2 then do .ok (within content.length (← args.integer 1)) else .ok 0
      if isBoundary content start then
        .ok (found (findFrom? (bytes needle) start (content.drop start)))
      else .ok (found none)
  | "lastIndexOf" => do
      args.checkCount 1 1
      let needle ← textArgument env args 0
      .ok (found (findLastFrom? (bytes needle) 0 content))
  | "substring" => do
      args.checkCount 1 2
      let a := within content.length (← args.integer 0)
      let b ←
        if values.length = 2 then do .ok (within content.length (← args.integer 1))
        else .ok content.length
      .ok (.text (ofBytesLossy ((content.take (max a b)).drop (min a b))))
  | "equals" => do
      args.checkCount 1 1
      .ok (.bool (text = (← textArgument env args 0)))
  | "equalsIgnoreCase" => do
      args.checkCount 1 1
      let other ← textArgument env args 0
      .ok (.bool (content.map lower = (bytes other).map lower))
  | "startsWith" => do
      args.checkCount 1 1
      .ok (.bool ((bytes (← textArgument env args 0)).isPrefixOf content))
  | "endsWith" => do
      args.checkCount 1 1
      .ok (.bool ((bytes (← textArgument env args 0)).isSuffixOf content))
  | "compareTo" => do
      args.checkCount 1 1
      .ok (.int (compareTexts text (← textArgument env args 0)))
  | "c_str" => do
      args.checkCount 0 0
      .ok (.text text)
  | "toInt" => do
      args.checkCount 0 0
      .ok (.int (leadingInteger text).toInt32)
  | "toFloat" => do
      args.checkCount 0 0
      .ok (.float (leadingNumber text))
  | _ => .error (.unsupported (.method args.function))

end Text

namespace Act

def runLibrary (fw : Firmware) (handle : ObjectRef) (method : String)
    (values : List Value) (loc : Location) : Act Effect := do
  match fw.library.route? handle.className method with
  | none => unsupported (.noRoute handle.className method) loc
  | some (.internal compute) =>
      match compute values with
      | some value => do
          push value
          pure .quiet
      | none => mismatch (.libraryArguments handle.className method) loc
  | some (.external returnsValue) => do
      let args := (← environment).payloads values
      if returnsValue then
        pure (.request (.method handle.className handle.name method args))
      else
        push .void
        pure (.emit (.methodCall handle.className handle.name method args))

def runText (text method : String) (values : List Value) (loc : Location) : Act Effect := do
  push (← attempt (Text.call (← environment) text method values) loc)
  pure .quiet

def runSerial (method : String) (values : List Value) (loc : Location) : Act Effect := do
  let reply ← attempt (Serial.call (← environment) method values) loc
  push reply.value
  match reply.command? with
  | some command => pure (.emit command)
  | none => pure .quiet

def runMethod (fw : Firmware) (receiver : Value) (method : String)
    (values : List Value) (loc : Location) : Act Effect := do
  match receiver with
  | .object handle =>
      if handle.className = "Serial" then runSerial method values loc
      else runLibrary fw handle method values loc
  | .text text => runText text method values loc
  | .pointer place =>
      match (← environment).textAt? place with
      | some text => runText text method values loc
      | none => mismatch (.methodThroughPointer method) loc
  | _ => mismatch (.methodOn method receiver.typeName) loc

end Act

end Breadboard
