import DepAudit.Decimal

/-! Doubles with a given number of places or of digits, a half rounded to the even neighbour. -/
namespace DepAudit.Decimal

structure PlaceStyle where
  /-- The point stays where nothing follows it, and so do zeros at the end. -/
  full : Bool
  capitals : Bool

def PlaceStyle.pointed (style : PlaceStyle) (whole fraction : List Char) : List Char :=
  if fraction.isEmpty && !style.full then whole else whole ++ '.' :: fraction

def fixed (style : PlaceStyle) (places : Nat) (p : Binary64.Parts) : List Char :=
  let s := Binary64.scaled (p.significand * Nat.pow 10 places) 1 p.exponent
  let n := Binary64.roundHalfEven s.1 s.2
  let digits := (pad (places + 1) (toString n)).toList
  let whole := digits.length - places
  style.pointed (digits.take whole) (digits.drop whole)

def leading (count : Nat) (p : Binary64.Parts) : List Char × Int :=
  if p.significand = 0 then (List.replicate count '0',0)
  else
    let s := Binary64.scaled p.significand 1 p.exponent
    let point := pointOf s.1 s.2
    let place := point - count
    let n :=
      if 0 ≤ place then Binary64.roundHalfEven s.1 (s.2 * Nat.pow 10 place.toNat)
      else Binary64.roundHalfEven (s.1 * Nat.pow 10 (-place).toNat) s.2
    let digits := (toString n).toList
    (digits.take count,point - 1 + (digits.length - count : Nat))

def PlaceStyle.powered (style : PlaceStyle) (digits : List Char) (exponent : Int) : List Char :=
  style.pointed (digits.take 1) (digits.drop 1) ++ [if style.capitals then 'E' else 'e'] ++
    [if exponent < 0 then '-' else '+'] ++ (pad 2 (toString exponent.natAbs)).toList

def exponential (style : PlaceStyle) (places : Nat) (p : Binary64.Parts) : List Char :=
  let (digits,exponent) := leading (places + 1) p
  style.powered digits exponent

def PlaceStyle.trimmed (style : PlaceStyle) (digits : List Char) : List Char :=
  if style.full then digits else (digits.reverse.dropWhile (· = '0')).reverse

/-- With so many digits; an exponent is only written for numbers that are small or have more digits
before the point. -/
def general (style : PlaceStyle) (count : Nat) (p : Binary64.Parts) : List Char :=
  let (digits,exponent) := leading (max count 1) p
  if exponent < -4 || (max count 1 : Nat) ≤ exponent then
    style.powered (digits.take 1 ++ style.trimmed (digits.drop 1)) exponent
  else if exponent < 0 then
    style.pointed ['0'] (style.trimmed (List.replicate (-exponent - 1).toNat '0' ++ digits))
  else
    let whole := exponent.toNat + 1
    style.pointed (digits.take whole) (style.trimmed (digits.drop whole))

end DepAudit.Decimal
