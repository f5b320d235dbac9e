/-! Hexadecimal digits, and the characters that numbered escapes write with them. -/
namespace DepAudit.Text

def hexValue? (c : Char) : Option Nat :=
  if c.isDigit then some (c.toNat - 0x30)
  else if 'a' ≤ c && c ≤ 'f' then some (c.toNat - 0x57)
  else if 'A' ≤ c && c ≤ 'F' then some (c.toNat - 0x37)
  else none

def hexNumber? (digits : List Char) : Option Nat :=
  digits.foldlM (fun n c => (hexValue? c).map (16 * n + ·)) 0

def isHighHalf (n : Nat) : Bool := 0xD800 ≤ n && n ≤ 0xDBFF

def isLowHalf (n : Nat) : Bool := 0xDC00 ≤ n && n ≤ 0xDFFF

def joinHalves (high low : Nat) : Char :=
  Char.ofNat (0x10000 + (high - 0xD800) * 0x400 + (low - 0xDC00))

/-- The first of the private characters that stand for the halves of pairs, which are no characters. -/
def firstHalf : Nat := 0x10C000

def isHalfChar (c : Char) : Bool := firstHalf ≤ c.toNat && c.toNat < firstHalf + 0x800

/-- The character of a numbered escape. A half that stays alone is kept apart from every other one. -/
def codeChar (n : Nat) : Char :=
  if isHighHalf n || isLowHalf n then Char.ofNat (firstHalf + (n - 0xD800)) else Char.ofNat n

def codeOf (c : Char) : Nat := if isHalfChar c then c.toNat - firstHalf + 0xD800 else c.toNat

end DepAudit.Text
