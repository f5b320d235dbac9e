import DepAudit.Binary64

/-! Decimal text of doubles: the fewest digits that read back as the same double, written with a point
or an exponent, and rounding to a fixed number of places. -/
namespace DepAudit.Decimal

structure Digits where
  digits : Nat
  place : Int

structure Neighbourhood where
  low : Nat
  value : Nat
  high : Nat
  denominator : Nat
  closed : Bool

/-- The reals that round to `significand * 2 ^ exponent`. Below a power of two the doubles lie twice as
close. -/
def Neighbourhood.ofParts (p : Binary64.Parts) : Neighbourhood :=
  let below := if p.significand = Nat.pow 2 52 ∧ Binary64.minExponent < p.exponent then 1 else 2
  let unit := Binary64.scaled 1 4 p.exponent
  { low := (4 * p.significand - below) * unit.1
    value := 4 * p.significand * unit.1
    high := (4 * p.significand + 2) * unit.1
    denominator := unit.2
    closed := p.significand % 2 = 0 }

def Neighbourhood.holds (n : Neighbourhood) (numerator denominator : Nat) : Bool :=
  let x := numerator * n.denominator
  let low := n.low * denominator
  let high := n.high * denominator
  if n.closed then low ≤ x && x ≤ high else low < x && x < high

def pointOf (numerator denominator : Nat) : Int :=
  let guess : Int :=
    ((Nat.log2 numerator : Int) - (Nat.log2 denominator : Int)) * 30103 / 100000
  let atLeast (k : Int) : Bool :=
    if 0 ≤ k then denominator * Nat.pow 10 k.toNat ≤ numerator
    else denominator ≤ numerator * Nat.pow 10 (-k).toNat
  if atLeast (guess + 1) then guess + 2
  else if atLeast guess then guess + 1
  else if atLeast (guess - 1) then guess
  else guess - 1

/-- The nearest point of the grid `10 ^ place` that reads back, if one of the value's two neighbours on
it does. -/
def onGrid? (n : Neighbourhood) (place : Int) : Option Nat :=
  let up := if 0 ≤ place then Nat.pow 10 place.toNat else 1
  let down := if 0 ≤ place then 1 else Nat.pow 10 (-place).toNat
  let scaledValue := n.value * down
  let unit := n.denominator * up
  let lower := scaledValue / unit
  let fits (k : Nat) : Bool := n.holds (k * up) down
  match fits lower,fits (lower + 1) with
  | true,true => some (Binary64.roundHalfEven scaledValue unit)
  | true,false => some lower
  | false,true => some (lower + 1)
  | false,false => none

def shortestFrom (n : Neighbourhood) (point : Int) : (left count : Nat) → Digits
  | 0,_ => ⟨0,1⟩
  | left + 1,count =>
    match onGrid? n (point - count) with
    | some k => ⟨k,point - count⟩
    | none => shortestFrom n point left (count + 1)

def shortest (p : Binary64.Parts) : Digits :=
  let n := Neighbourhood.ofParts p
  shortestFrom n (pointOf n.value n.denominator) 17 1

/-- Decisions on the text of a number: exponents from `low` up to `high` are written without one, and an
exponent has at least `width` digits. -/
structure Style where
  low : Int
  high : Int
  width : Nat

def pad (width : Nat) (text : String) : String :=
  String.ofList (List.replicate (width - text.length) '0') ++ text

def positional (digits : List Char) (point : Int) : String :=
  if point ≤ 0 then
    "0." ++ String.ofList (List.replicate (-point).toNat '0' ++ digits)
  else
    let whole := digits.take point.toNat
    let fraction := digits.drop point.toNat
    String.ofList (whole ++ List.replicate (point.toNat - whole.length) '0') ++ "." ++
      (if fraction.isEmpty then "0" else String.ofList fraction)

def scientific (style : Style) (digits : List Char) (exponent : Int) : String :=
  String.ofList (digits.take 1) ++
    (if digits.length ≤ 1 then "" else "." ++ String.ofList (digits.drop 1)) ++
    (if exponent < 0 then "e-" else "e+") ++ pad style.width (toString exponent.natAbs)

def magnitude (style : Style) (p : Binary64.Parts) : String :=
  if p.significand = 0 then "0.0"
  else
    let s := shortest p
    let all := (toString s.digits).toList
    let point : Int := s.place + all.length
    let digits := (all.reverse.dropWhile (· = '0')).reverse
    if style.low ≤ point - 1 ∧ point - 1 < style.high then positional digits point
    else scientific style digits (point - 1)

def render (style : Style) (x : Float) : String :=
  if Binary64.isFinite x then
    let p := Binary64.parts x
    (if p.negative then "-" else "") ++ magnitude style p
  else if x.isNaN then "nan"
  else if x < 0 then "-inf"
  else "inf"

/-- Numbers have a point up to the sixteenth digit and down to the fourth place, and exponents of two
digits. -/
def plain : Style := ⟨-4,16,2⟩

def roundTo (places : Nat) (x : Float) : Float :=
  if Binary64.isFinite x then
    let p := Binary64.parts x
    let s := Binary64.scaled (p.significand * Nat.pow 10 places) 1 p.exponent
    Binary64.ofQuotient p.negative (Binary64.roundHalfEven s.1 s.2) (Nat.pow 10 places)
  else x

end DepAudit.Decimal
