import DepAudit.Binary64
import DepAudit.Numeral
import DepAudit.Text.Blank
import DepAudit.Text.Hexadecimal

/-! Numbers as texts: blanks may stand around a number, a sign before it, and its digits may be of any
script. Of ASCII only the blanks that move a cursor count. -/
namespace DepAudit.Text.Figures

def asciiChar? (c : Char) : Option Char :=
  if c.toNat < 0x80 then some c
  else if isBlank c then some ' '
  else (digitValue? c).map fun d => Char.ofNat (0x30 + d)

def isAsciiBlank (c : Char) : Bool := c = ' ' || 0x09 ≤ c.toNat && c.toNat ≤ 0x0D

def body? (text : List Char) : Option (List Char) :=
  (text.mapM asciiChar?).map fun cs =>
    ((cs.dropWhile isAsciiBlank).reverse.dropWhile isAsciiBlank).reverse

def unsigned : List Char → List Char
  | '-' :: cs => cs
  | '+' :: cs => cs
  | cs => cs

def baseLetter? : Nat → Option Char
  | 2 => some 'b'
  | 8 => some 'o'
  | 16 => some 'x'
  | _ => none

def dropMark (base : Nat) : List Char → List Char
  | '0' :: c :: cs => if baseLetter? base = some c.toLower then cs else '0' :: c :: cs
  | cs => cs

def natural? (base : Nat) (cs : List Char) : Option Nat :=
  if cs.isEmpty || base = 10 && cs.length > Numeral.maxDigits then none
  else cs.foldlM (fun n c => ((hexValue? c).filter (· < base)).map (base * n + ·)) 0

def int? (base : Nat) (text : List Char) : Option Int := do
  let cs ← body? text
  let n ← natural? base (dropMark base (unsigned cs))
  return if cs.head? = some '-' then -(n : Int) else n

def exponent? : List Char → Option Int
  | [] => some 0
  | e :: cs =>
    let digits := unsigned cs
    if e = 'e' && !digits.isEmpty && digits.all Char.isDigit then
      let n : Int := Nat.ofDigitChars 10 digits 0
      some (if cs.head? = some '-' then -n else n)
    else none

/-- A number in small letters, without blanks and sign: decimal, or a word for infinity or no number. -/
def magnitude? (negative : Bool) (cs : List Char) : Option Float :=
  if ["inf","infinity"].contains (String.ofList cs) then
    some (Binary64.withSign negative (1.0 / 0.0))
  else if cs = "nan".toList then some (0.0 / 0.0)
  else
    let whole := cs.takeWhile Char.isDigit
    let rest := cs.drop whole.length
    let (fraction,rest) := match rest with
      | '.' :: rest => (rest.takeWhile Char.isDigit,rest.dropWhile Char.isDigit)
      | rest => ([],rest)
    if whole.isEmpty && fraction.isEmpty then none
    else (exponent? rest).map fun e =>
      Binary64.ofDecimal negative (Nat.ofDigitChars 10 (whole ++ fraction) 0) (e - fraction.length)

def double? (text : List Char) : Option Float := do
  let cs ← body? text
  magnitude? (cs.head? = some '-') ((unsigned cs).map Char.toLower)

end DepAudit.Text.Figures
