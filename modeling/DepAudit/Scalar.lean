import DepAudit.Binary64

/-! The arithmetic that shares and scores are computed in. The formulas are written once for all
scalars: doubles when a report is made, exact rationals when one reasons about them. -/
namespace DepAudit

class Scalar (α : Type) extends Add α,Sub α,Mul α,LT α where
  /-- The quotient of an integer by a positive number. -/
  ofQuotient : Int → Nat → α
  decLt : DecidableLT α

namespace Scalar

variable {α : Type} [Scalar α]

instance : DecidableLT α := Scalar.decLt

def ofInt (n : Int) : α := ofQuotient n 1

def zero : α := ofInt 0

def one : α := ofInt 1

def share (numerator : Int) (denominator : Nat) : α :=
  if denominator = 0 then zero else ofQuotient numerator denominator

def clamp (low high value : α) : α :=
  let v := if value < high then value else high
  if low < v then v else low

end Scalar

/-- Doubles: the quotient of two integers is the double nearest to it. -/
instance : Scalar Float where
  ofQuotient n d := Binary64.ofQuotient (n < 0) n.natAbs d
  decLt := fun a b => inferInstanceAs (Decidable (a < b))

/-- Rationals are exact. -/
instance : Scalar Rat where
  ofQuotient n d := mkRat n d
  decLt := fun a b => inferInstanceAs (Decidable (a < b))

namespace Binary64

def toRat? (x : Float) : Option Rat :=
  if isFinite x then
    let p := parts x
    let s := scaled p.significand 1 p.exponent
    some (mkRat (if p.negative then -s.1 else s.1) s.2)
  else none

def intExceeds (n : Int) (x : Float) : Bool :=
  match toRat? x with
  | some r => decide (r < (n : Rat))
  | none => decide (x < 0.0)

end Binary64

end DepAudit
