import Breadboard.Machine.Naming
import Breadboard.Text.Blank

/-!
Functions that every sketch can call: pins, time, mathematics, random numbers and
bits. Those that need data of the host make the run wait.
-/

namespace Breadboard

inductive Builtin where
  | pinMode | digitalWrite | digitalRead | analogWrite | analogRead
  | delay | delayMicroseconds | millis | micros | tone | noTone
  | abs | min | max | constrain | map | pow | sqrt | sq | sin | cos | tan
  | floor | ceil | round | random | randomSeed
  | bit | bitRead | lowByte | highByte | makeText
  deriving DecidableEq

namespace Builtin

def name : Builtin → String
  | .pinMode => "pinMode"
  | .digitalWrite => "digitalWrite"
  | .digitalRead => "digitalRead"
  | .analogWrite => "analogWrite"
  | .analogRead => "analogRead"
  | .delay => "delay"
  | .delayMicroseconds => "delayMicroseconds"
  | .millis => "millis"
  | .micros => "micros"
  | .tone => "tone"
  | .noTone => "noTone"
  | .abs => "abs"
  | .min => "min"
  | .max => "max"
  | .constrain => "constrain"
  | .map => "map"
  | .pow => "pow"
  | .sqrt => "sqrt"
  | .sq => "sq"
  | .sin => "sin"
  | .cos => "cos"
  | .tan => "tan"
  | .floor => "floor"
  | .ceil => "ceil"
  | .round => "round"
  | .random => "random"
  | .randomSeed => "randomSeed"
  | .bit => "bit"
  | .bitRead => "bitRead"
  | .lowByte => "lowByte"
  | .highByte => "highByte"
  | .makeText => "String"

def all : List Builtin :=
  [.pinMode, .digitalWrite, .digitalRead, .analogWrite, .analogRead, .delay,
    .delayMicroseconds, .millis, .micros, .tone, .noTone, .abs, .min, .max, .constrain,
    .map, .pow, .sqrt, .sq, .sin, .cos, .tan, .floor, .ceil, .round, .random,
    .randomSeed, .bit, .bitRead, .lowByte, .highByte, .makeText]

def ofName? (name : String) : Option Builtin := all.find? fun builtin => builtin.name = name

def arity : Builtin → Nat × Nat
  | .millis | .micros => (0, 0)
  | .digitalRead | .analogRead | .delay | .delayMicroseconds | .noTone | .abs | .sqrt | .sq
  | .sin | .cos | .tan | .floor | .ceil | .round | .randomSeed | .bit | .lowByte
  | .highByte => (1, 1)
  | .pinMode | .digitalWrite | .analogWrite | .min | .max | .pow | .bitRead => (2, 2)
  | .constrain => (3, 3)
  | .map => (5, 5)
  | .tone => (2, 3)
  | .random => (1, 2)
  | .makeText => (0, 2)

end Builtin

structure Arguments where
  function : String
  values : List Value

namespace Arguments

/-- Refuses calls with too few or too many arguments, naming the nearer bound. -/
def checkCount (args : Arguments) (least most : Nat) : Except Cause Unit :=
  let got := args.values.length
  if got < least then .error (.argumentCount args.function least got)
  else if most < got then .error (.argumentCount args.function most got)
  else .ok ()

def get (args : Arguments) (pos : Nat) : Value := args.values[pos]?.getD .void

def notNumber (args : Arguments) (pos : Nat) : Cause :=
  .typeMismatch
    (.argument (pos + 1) args.function (args.get pos).typeName "a number")

def integer (args : Arguments) (pos : Nat) : Except Cause Int64 :=
  match (args.get pos).truncated? with
  | some n => .ok n
  | none => .error (args.notNumber pos)

def number (args : Arguments) (pos : Nat) : Except Cause Binary64 :=
  match (args.get pos).number? with
  | some x => .ok x
  | none => .error (args.notNumber pos)

end Arguments

/-- An integer in base 2, 8 or 16 as its 32 bits, and in base 10 otherwise. -/
def integerInBase (n base : Int64) (uppercase : Bool) : String :=
  if base = 2 ∨ base = 8 ∨ base = 16 then
    String.ofList (Text.digits base.toInt.toNat uppercase n.toUInt64.toUInt32.toNat)
  else toString n.toInt

/-- The text of printing a value with an optional format: decimals of a float, or the
base of an integer. Other values have no format. -/
def formattedText (env : Environment) (args : Arguments) (uppercase : Bool) :
    Except Cause String := do
  match args.values with
  | [] => .ok ""
  | value :: formats =>
      match formats, value with
      | _ :: _, .float x => do
          let decimals ← args.integer 1
          .ok (formatFloat x decimals.toInt.toNat)
      | _ :: _, _ =>
          if value.isNumeric then do
            let n ← args.integer 0
            let base ← args.integer 1
            .ok (integerInBase n base uppercase)
          else .ok (env.display value)
      | [], _ => .ok (env.display value)

/-- Random numbers: a linear congruence of 64 bits, of which the upper 31 count. -/
def nextRandomState (state : UInt64) : UInt64 := state * 6364136223846793005 + 1442695040888963407

/-- A number from `low` up to below `high`, and the next state. An empty range yields
`low` and keeps the state. -/
def nextRandom (state : UInt64) (low high : Int64) : Int64 × UInt64 :=
  if high ≤ low then (low, state)
  else
    let next := nextRandomState state
    let span := (high - low).toUInt64
    (low + ((next >>> 33) % span).toInt64, next)

namespace Builtin

def less (a b : Value) : Except Cause Bool := do
  match ← BinaryOp.lt.apply a b with
  | .bool truth => .ok truth
  | _ => .ok false

def rescale (x inLow inHigh outLow outHigh : Int64) : Int64 :=
  (x - inLow) * (outHigh - outLow) / (inHigh - inLow) + outLow

def compute (builtin : Builtin) (env : Environment) (args : Arguments) : Except Cause Value := do
  let float (f : Binary64 → Binary64) : Except Cause Value := do
    .ok (.float (f (← args.number 0)))
  match builtin with
  | .abs =>
      match args.get 0 with
      | .float x => .ok (.float x.abs)
      | .unsigned n => .ok (.unsigned n)
      | .long n => .ok (.long (if n < 0 then -n else n))
      | _ => do
          let n := (← args.integer 0).toInt32
          .ok (.int (if n < 0 then -n else n))
  | .min => do
      if ← less (args.get 1) (args.get 0) then .ok (args.get 1) else .ok (args.get 0)
  | .max => do
      if ← less (args.get 0) (args.get 1) then .ok (args.get 1) else .ok (args.get 0)
  | .constrain => do
      if ← less (args.get 0) (args.get 1) then .ok (args.get 1)
      else if ← less (args.get 2) (args.get 0) then .ok (args.get 2)
      else .ok (args.get 0)
  | .map => do
      let x ← args.integer 0
      let inLow ← args.integer 1
      let inHigh ← args.integer 2
      let outLow ← args.integer 3
      let outHigh ← args.integer 4
      if inHigh = inLow then .error (.divisionByZero "map")
      else .ok (.int (rescale x inLow inHigh outLow outHigh).toInt32)
  | .pow => do
      let x ← args.number 0
      let y ← args.number 1
      .ok (.float (x.pow y))
  | .sq => BinaryOp.mul.apply (args.get 0) (args.get 0)
  | .sqrt => float Binary64.sqrt
  | .sin => float Binary64.sin
  | .cos => float Binary64.cos
  | .tan => float Binary64.tan
  | .floor => float Binary64.floor
  | .ceil => float Binary64.ceil
  | .round => do .ok (.int (← args.number 0).roundToInt32)
  | .bit => do
      let n ← args.integer 0
      .ok (.unsigned (1 <<< UInt32.ofNat (n.toUInt64.toNat % 32)))
  | .bitRead => do
      let x ← args.integer 0
      let n ← args.integer 1
      .ok (.int (Int32.ofNat
        ((x.toUInt64 >>> UInt64.ofNat (n.toUInt64.toNat % 64)) &&& 1).toNat))
  | .lowByte => do .ok (.int ((← args.integer 0) &&& 0xFF).toInt32)
  | .highByte => do .ok (.int (((← args.integer 0) >>> 8) &&& 0xFF).toInt32)
  | .makeText => do .ok (.text (← formattedText env args false))
  | _ => .ok .void

def command? (builtin : Builtin) (args : Arguments) : Option (Except Cause Command) :=
  match builtin with
  | .pinMode => some do
      let pin ← args.integer 0
      let mode ← args.integer 1
      .ok (.pinMode pin mode)
  | .digitalWrite => some do
      let level ← args.integer 1
      let pin ← args.integer 0
      .ok (.digitalWrite pin (if level = 0 then 0 else 1))
  | .analogWrite => some do
      let pin ← args.integer 0
      let level ← args.integer 1
      .ok (.analogWrite pin level)
  | .delay => some do .ok (.delay (← args.integer 0))
  | .delayMicroseconds => some do .ok (.delayMicroseconds (← args.integer 0))
  | .tone => some do
      let duration ←
        if args.values.length = 3 then some <$> args.integer 2 else .ok none
      let pin ← args.integer 0
      let frequency ← args.integer 1
      .ok (.tone pin frequency duration)
  | .noTone => some do .ok (.noTone (← args.integer 0))
  | _ => none

def request? (builtin : Builtin) (args : Arguments) : Option (Except Cause Request) :=
  match builtin with
  | .analogRead => some do .ok (.analogRead (← args.integer 0))
  | .digitalRead => some do .ok (.digitalRead (← args.integer 0))
  | .millis => some (.ok .millis)
  | .micros => some (.ok .micros)
  | _ => none

end Builtin

namespace Act

def drawRandom (args : Arguments) (loc : Location) : Act Value := do
  let single := args.values.length = 1
  let low ← if single then pure 0 else attempt (args.integer 0) loc
  let high ← attempt (args.integer (if single then 0 else 1)) loc
  let (drawn, next) := nextRandom (← get).random low high
  modify fun ctx => { ctx with random := next }
  pure (.int drawn.toInt32)

def seedRandom (args : Arguments) (loc : Location) : Act Value := do
  let seed ← attempt (args.integer 0) loc
  modify fun ctx => { ctx with random := seed.toUInt64 }
  pure .void

def runBuiltin (builtin : Builtin) (values : List Value) (loc : Location) : Act Effect := do
  let args : Arguments := ⟨builtin.name, values⟩
  attempt (args.checkCount builtin.arity.1 builtin.arity.2) loc
  match builtin.request? args with
  | some request => pure (.request (← attempt request loc))
  | none =>
      match builtin.command? args with
      | some command => do
          let command ← attempt command loc
          push .void
          pure (.emit command)
      | none => do
          let value ←
            match builtin with
            | .random => drawRandom args loc
            | .randomSeed => seedRandom args loc
            | _ => do attempt (builtin.compute (← environment) args) loc
          push value
          pure .quiet

end Act

end Breadboard
