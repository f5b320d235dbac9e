/-! Bytes written with sixty-four characters, each for six bits. Other characters are passed over; equals
signs fill up the last four. -/
namespace DepAudit.Text.Base64

def value? (c : Char) : Option Nat :=
  if c.isUpper then some (c.toNat - 0x41)
  else if c.isLower then some (c.toNat - 0x61 + 26)
  else if c.isDigit then some (c.toNat - 0x30 + 52)
  else if c = '+' then some 62
  else if c = '/' then some 63
  else none

/-- The bytes behind some bits that are left over from the characters before: `phase` of the four
characters have been read, `signs` equals signs since the last one. Bits that fill no byte are dropped
where the signs that complete the four follow; without them there is no reading. -/
def bytesFrom? : (phase bits signs : Nat) → List Char → Option (List UInt8)
  | phase,_,_,[] => if phase = 0 then some [] else none
  | phase,bits,signs,c :: cs =>
    if c = '=' then
      if 2 ≤ phase && 4 ≤ phase + signs + 1 then some []
      else bytesFrom? phase bits (if 2 ≤ phase then signs + 1 else signs) cs
    else match value? c with
      | none => bytesFrom? phase bits signs cs
      | some v =>
        let bits := 64 * bits + v
        match phase with
        | 0 => bytesFrom? 1 bits 0 cs
        | 1 => (bytesFrom? 2 (bits % 16) 0 cs).map ((bits / 16).toUInt8 :: ·)
        | 2 => (bytesFrom? 3 (bits % 4) 0 cs).map ((bits / 4).toUInt8 :: ·)
        | _ => (bytesFrom? 0 0 0 cs).map (bits.toUInt8 :: ·)

def decode? (cs : List Char) : Option (List UInt8) :=
  if cs.all (·.toNat < 0x80) then bytesFrom? 0 0 0 cs else none

end DepAudit.Text.Base64
