/-! Double-precision numbers taken apart into an integer times a power of two, and the double nearest
to a quotient of integers, with ties to the even neighbour. -/
namespace DepAudit.Binary64

def roundHalfEven (numerator denominator : Nat) : Nat :=
  let whole := numerator / denominator
  let twice := 2 * (numerator % denominator)
  if twice < denominator then whole
  else if denominator < twice then whole + 1
  else whole + whole % 2

/-- A quotient of natural numbers scaled by `2 ^ exponent`, as numerator and denominator. -/
def scaled (numerator denominator : Nat) (exponent : Int) : Nat × Nat :=
  if 0 ≤ exponent then (numerator <<< exponent.toNat,denominator)
  else (numerator,denominator <<< (-exponent).toNat)

def floorLog2 (numerator denominator : Nat) : Int :=
  let guess : Int := (Nat.log2 numerator : Int) - (Nat.log2 denominator : Int)
  let s := scaled numerator denominator (-guess)
  if s.1 < s.2 then guess - 1 else guess

def minExponent : Int := -1074

def infinityBits : Nat := 0x7FF0000000000000

def nearestBits (numerator denominator : Nat) : Nat :=
  if numerator = 0 then 0
  else
    let exponent := max (floorLog2 numerator denominator - 52) minExponent
    let s := scaled numerator denominator (-exponent)
    let significand := roundHalfEven s.1 s.2
    min infinityBits (((exponent - minExponent).toNat <<< 52) + significand)

def withSign (negative : Bool) (x : Float) : Float := if negative then -x else x

def ofQuotient (negative : Bool) (numerator denominator : Nat) : Float :=
  withSign negative (Float.ofBits (nearestBits numerator denominator).toUInt64)

/-- The double nearest to `mantissa * 10 ^ exponent`. Exponents far out of range are not expanded. -/
def ofDecimal (negative : Bool) (mantissa : Nat) (exponent : Int) : Float :=
  let magnitude : Int := (Nat.log2 mantissa : Int) / 3 + exponent
  if mantissa = 0 then withSign negative 0.0
  else if magnitude + 1 < -400 then withSign negative 0.0
  else if (Nat.log2 mantissa : Int) / 4 + exponent > 400 then
    withSign negative (Float.ofBits infinityBits.toUInt64)
  else if 0 ≤ exponent then ofQuotient negative (mantissa * Nat.pow 10 exponent.toNat) 1
  else ofQuotient negative mantissa (Nat.pow 10 (-exponent).toNat)

def ofInt (n : Int) : Float := ofQuotient (n < 0) n.natAbs 1

structure Parts where
  negative : Bool
  significand : Nat
  exponent : Int

def isFinite (x : Float) : Bool := x.toBits.toNat >>> 52 % 2048 != 2047

def parts (x : Float) : Parts :=
  let bits := x.toBits.toNat
  let field := (bits >>> 52) % 2048
  let fraction := bits % Nat.pow 2 52
  { negative := bits >>> 63 == 1
    significand := if field = 0 then fraction else Nat.pow 2 52 + fraction
    exponent := if field = 0 then minExponent else field + minExponent - 1 }

end DepAudit.Binary64
