import DepAudit.Text.Ranges

/-! White space: the characters of that Unicode property and the four separators U+001C to U+001F. -/
namespace DepAudit.Text

def blankRanges : Ranges :=
  [(0x9,0xD),(0x1C,0x20),(0x85,0x85),(0xA0,0xA0),(0x1680,0x1680),(0x2000,0x200A),
   (0x2028,0x2029),(0x202F,0x202F),(0x205F,0x205F),(0x3000,0x3000)]

def isBlank (c : Char) : Bool := blankRanges.contains c

def skipBlanks (cs : List Char) : List Char := cs.dropWhile isBlank

def trim (cs : List Char) : List Char := (skipBlanks (skipBlanks cs).reverse).reverse

end DepAudit.Text
