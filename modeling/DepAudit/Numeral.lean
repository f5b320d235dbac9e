import DepAudit.Text.Digit

/-! Numerals: runs of decimal digits of any script, read as natural numbers up to a length limit. -/
namespace DepAudit

inductive NumeralError where
  /-- A character that has the shape of a digit and is none. -/
  | notDigit (c : Char)
  /-- More digits than `Numeral.maxDigits`. -/
  | tooLong (digits : Nat)
  deriving DecidableEq, Repr

namespace Numeral

def maxDigits : Nat := 4300

def digitsValue? : List Char → Nat → Except NumeralError Nat
  | [],value => .ok value
  | c :: cs,value =>
    match Text.digitValue? c with
    | some d => digitsValue? cs (10 * value + d)
    | none => .error (.notDigit c)

def read (digits : List Char) : Except NumeralError Nat :=
  if digits.length > maxDigits then .error (.tooLong digits.length) else digitsValue? digits 0

end Numeral

end DepAudit
