import DepAudit.Text.Hexadecimal

/-! Texts as code points. Numbered escapes may write the halves of a pair one by one, which are no
characters; such a text is only the same as another one with the same halves. -/
namespace DepAudit.Text

abbrev Codes := List Nat

namespace Codes

def isHalf (n : Nat) : Bool := isHighHalf n || isLowHalf n

def ofChars (cs : List Char) : Codes := cs.map Char.toNat

def text? (codes : Codes) : Option String :=
  if codes.any isHalf then none else some (String.ofList (codes.map Char.ofNat))

def joined : Codes → List Char
  | [] => []
  | [n] => [codeChar n]
  | high :: low :: rest =>
    if isHighHalf high && isLowHalf low then joinHalves high low :: joined rest
    else codeChar high :: joined (low :: rest)

def shown (codes : Codes) : String := String.ofList (joined codes)

end Codes

end DepAudit.Text
