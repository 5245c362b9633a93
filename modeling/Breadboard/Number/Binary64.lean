/-!
Double precision numbers as bit patterns.

Every finite magnitude is a natural number of least steps: `2^-1074` for the
double format, `2^-149` for the single format. Rounding, narrowing and
truncation are therefore exact integer arithmetic. The four operations and the
transcendental functions go through the machine's own floating point unit.
-/

namespace Breadboard

structure FloatFormat where
  precision : Nat
  infinity : Nat

namespace FloatFormat

def double : FloatFormat := ⟨53, 0x7FF0000000000000⟩

def single : FloatFormat := ⟨24, 0x7F800000⟩

def steps (format : FloatFormat) (bits : Nat) : Nat :=
  let width := format.precision - 1
  let exponent := bits >>> width
  let fraction := bits % Nat.pow 2 width
  if exponent = 0 then fraction else (fraction + Nat.pow 2 width) <<< (exponent - 1)

/-- `numerator / denominator` to the nearest integer, halves to the even neighbour. -/
def divideToEven (numerator denominator : Nat) : Nat :=
  let quotient := numerator / denominator
  let twice := 2 * (numerator % denominator)
  if twice < denominator then quotient
  else if twice = denominator ∧ quotient % 2 = 0 then quotient
  else quotient + 1

/-- The unsigned pattern nearest to `numerator / denominator` least steps. A
value past the largest finite one becomes infinity. -/
def nearest (format : FloatFormat) (numerator denominator : Nat) : Nat :=
  let shift := Nat.log2 (numerator / denominator) + 1 - format.precision
  let significand := divideToEven numerator (denominator <<< shift)
  min ((shift <<< (format.precision - 1)) + significand) format.infinity

end FloatFormat

structure Binary64 where
  bits : UInt64
  deriving DecidableEq

namespace Binary64

def signBit : UInt64 := 0x8000000000000000

def stepsPerOne : Nat := Nat.pow 2 1074

def stepsPerSingleStep : Nat := Nat.pow 2 925

def negative (x : Binary64) : Bool := x.bits &&& signBit != 0

def magnitudeBits (x : Binary64) : Nat := (x.bits &&& 0x7FFFFFFFFFFFFFFF).toNat

def isNaN (x : Binary64) : Bool := FloatFormat.double.infinity < x.magnitudeBits

def isInfinite (x : Binary64) : Bool := x.magnitudeBits = FloatFormat.double.infinity

def isFinite (x : Binary64) : Bool := x.magnitudeBits < FloatFormat.double.infinity

def isZero (x : Binary64) : Bool := x.magnitudeBits = 0

def steps (x : Binary64) : Nat := FloatFormat.double.steps x.magnitudeBits

def withSign (negative : Bool) (magnitude : Nat) : Binary64 :=
  ⟨(if negative then signBit else 0) ||| magnitude.toUInt64⟩

def zero : Binary64 := ⟨0⟩

def ofSteps (negative : Bool) (numerator denominator : Nat) : Binary64 :=
  withSign negative (FloatFormat.double.nearest numerator denominator)

def ofInt (n : Int) : Binary64 := ofSteps (n < 0) (n.natAbs * stepsPerOne) 1

def neg (x : Binary64) : Binary64 := ⟨x.bits ^^^ signBit⟩

def abs (x : Binary64) : Binary64 := ⟨x.bits &&& 0x7FFFFFFFFFFFFFFF⟩

def toFloat (x : Binary64) : Float := Float.ofBits x.bits

def ofFloat (x : Float) : Binary64 := ⟨x.toBits⟩

def add (x y : Binary64) : Binary64 := ofFloat (x.toFloat + y.toFloat)

def sub (x y : Binary64) : Binary64 := ofFloat (x.toFloat - y.toFloat)

def mul (x y : Binary64) : Binary64 := ofFloat (x.toFloat * y.toFloat)

def div (x y : Binary64) : Binary64 := ofFloat (x.toFloat / y.toFloat)

def orderKey (x : Binary64) : Int :=
  if x.negative then -(x.magnitudeBits : Int) else x.magnitudeBits

/-- The order of two numbers; `none` when either is not a number. -/
def compare? (x y : Binary64) : Option Ordering :=
  if x.isNaN || y.isNaN then none else some (compare x.orderKey y.orderKey)

def signed (negative : Bool) (magnitude : Nat) : Int :=
  if negative then -(magnitude : Int) else magnitude

def clamp (low high n : Int) : Int := max low (min high n)

/-- The integer part, saturated to `[low, high]`; 0 for a NaN. -/
def truncateTo (low high : Int) (x : Binary64) : Int :=
  if x.isNaN then 0
  else if x.isInfinite then (if x.negative then low else high)
  else clamp low high (signed x.negative (x.steps / stepsPerOne))

/-- The nearest integer, halves away from zero, saturated to `[low, high]`; 0
for a NaN. -/
def roundTo (low high : Int) (x : Binary64) : Int :=
  if x.isNaN then 0
  else if x.isInfinite then (if x.negative then low else high)
  else clamp low high
    (signed x.negative ((2 * x.steps + stepsPerOne) / (2 * stepsPerOne)))

def toInt64 (x : Binary64) : Int64 :=
  Int64.ofInt (x.truncateTo Int64.minValue.toInt Int64.maxValue.toInt)

def roundToInt32 (x : Binary64) : Int32 :=
  Int32.ofInt (x.roundTo Int32.minValue.toInt Int32.maxValue.toInt)

def narrow (x : Binary64) : UInt32 :=
  let magnitude :=
    if x.isNaN then 0x7FC00000
    else if x.isInfinite then FloatFormat.single.infinity
    else FloatFormat.single.nearest x.steps stepsPerSingleStep
  (if x.negative then 0x80000000 else 0) ||| magnitude.toUInt32

def widen (bits : UInt32) : Binary64 :=
  let magnitude := (bits &&& 0x7FFFFFFF).toNat
  let wide :=
    if FloatFormat.single.infinity < magnitude then 0x7FF8000000000000
    else if magnitude = FloatFormat.single.infinity then FloatFormat.double.infinity
    else FloatFormat.double.nearest
      (FloatFormat.single.steps magnitude * stepsPerSingleStep) 1
  withSign (bits &&& 0x80000000 != 0) wide

def toSinglePrecision (x : Binary64) : Binary64 := widen x.narrow

def exactSingle? (x : Binary64) : Option UInt32 :=
  if x.toSinglePrecision.compare? x = some .eq then some x.narrow else none

def sqrt (x : Binary64) : Binary64 := ofFloat x.toFloat.sqrt

def sin (x : Binary64) : Binary64 := ofFloat x.toFloat.sin

def cos (x : Binary64) : Binary64 := ofFloat x.toFloat.cos

def tan (x : Binary64) : Binary64 := ofFloat x.toFloat.tan

def floor (x : Binary64) : Binary64 := ofFloat x.toFloat.floor

def ceil (x : Binary64) : Binary64 := ofFloat x.toFloat.ceil

def pow (x y : Binary64) : Binary64 := ofFloat (x.toFloat.pow y.toFloat)

end Binary64

end Breadboard
