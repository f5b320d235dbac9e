import DepAudit.Text.Codes
import DepAudit.Text.Printable

/-! A text in quotes, with what cannot be shown written as escapes. Single quotes are used unless the
text holds one and no double quote. -/
namespace DepAudit.Text

def hexDigits (width n : Nat) : List Char :=
  let digits := Nat.toDigits 16 n
  List.replicate (width - digits.length) '0' ++ digits

def numbered (n : Nat) : List Char :=
  if n < 0x100 then '\\' :: 'x' :: hexDigits 2 n
  else if n < 0x10000 then '\\' :: 'u' :: hexDigits 4 n
  else '\\' :: 'U' :: hexDigits 8 n

def quotedChar (quote c : Char) : List Char :=
  if c = quote || c = '\\' then ['\\',c]
  else if c = '\n' then ['\\','n']
  else if c = '\r' then ['\\','r']
  else if c = '\t' then ['\\','t']
  else if isPrintable c then [c]
  else numbered (codeOf c)

def asciiOnly (text : String) : String :=
  String.ofList (text.toList.flatMap fun c => if c.toNat < 0x80 then [c] else numbered (codeOf c))

def quoteOf (single double : Bool) : Char := if single && !double then '"' else '\''

def quoted (text : String) : String :=
  let cs := text.toList
  let quote := quoteOf (cs.contains '\'') (cs.contains '"')
  String.ofList (quote :: (cs.flatMap (quotedChar quote) ++ [quote]))

def quotedCode (quote : Char) (n : Nat) : List Char :=
  if Codes.isHalf n then numbered n else quotedChar quote (Char.ofNat n)

def quotedCodes (codes : Codes) : String :=
  let quote := quoteOf (codes.contains 0x27) (codes.contains 0x22)
  String.ofList (quote :: (codes.flatMap (quotedCode quote) ++ [quote]))

def quotedByte (quote : Char) (b : UInt8) : List Char :=
  if b < 0x7F then quotedChar quote (Char.ofNat b.toNat) else numbered b.toNat

def quotedBytes (bytes : List UInt8) : String :=
  let quote := quoteOf (bytes.contains 0x27) (bytes.contains 0x22)
  String.ofList ('b' :: quote :: (bytes.flatMap (quotedByte quote) ++ [quote]))

end DepAudit.Text
