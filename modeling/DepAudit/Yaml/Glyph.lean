import DepAudit.Text.Ranges
import DepAudit.Yaml.Error

/-! The characters of a document with their places, and the classes that the format has for them. Line
ends are taken to be single characters. -/
namespace DepAudit.Yaml

structure Place where
  index : Nat := 0
  line : Nat := 0
  column : Nat := 0
  deriving DecidableEq, Repr

abbrev Glyph := Char × Place

def printableRanges : Text.Ranges :=
  [(0x9,0xA),(0xD,0xD),(0x20,0x7E),(0x85,0x85),(0xA0,0xD7FF),(0xE000,0xFFFD),
   (0x10000,0x10FFFF)]

def isBreak (c : Char) : Bool := c = '\n' || c = '\x85' || c = '\u2028' || c = '\u2029'

def isSpace (c : Char) : Bool := c = ' ' || c = '\t'

def isGap (c : Char) : Bool := isSpace c || isBreak c

def keptBreak (c : Char) : Char := if c = '\x85' then '\n' else c

def Place.after (p : Place) (c : Char) : Place :=
  { index := p.index + 1
    line := if isBreak c then p.line + 1 else p.line
    column := if isBreak c then 0 else if c = '\uFEFF' then p.column else p.column + 1 }

def glyphsFrom (p : Place) : List Char → List Glyph
  | [] => []
  | c :: cs => (c,p) :: glyphsFrom (p.after c) cs

def glyphs : List Char → List Glyph
  | '\uFEFF' :: cs => glyphsFrom (({} : Place).after '\uFEFF') cs
  | cs => glyphsFrom {} cs

def chars (gs : List Glyph) : List Char := gs.map Prod.fst

def endsOr (p : Char → Bool) : List Glyph → Bool
  | [] => true
  | (c,_) :: _ => p c

def startsGap : List Glyph → Bool := endsOr isGap

def startsBlank : List Glyph → Bool := endsOr fun c => c = ' ' || isBreak c

def startsTriple (c : Char) (gs : List Glyph) : Bool :=
  chars (gs.take 3) == [c,c,c] && startsGap (gs.drop 3)

def startsDocumentMark (gs : List Glyph) : Bool := startsTriple '-' gs || startsTriple '.' gs

def skipSpaces (gs : List Glyph) : List Glyph := gs.dropWhile (·.1 = ' ')

/-- Passes over the rest of a line that holds at most a comment, and over its end; `none` where there
is more on it. -/
def restOfLine? (gs : List Glyph) : Option (List Glyph) :=
  let gs := skipSpaces gs
  let gs := if (chars (gs.take 1)) = ['#'] then gs.dropWhile (!isBreak ·.1) else gs
  match gs with
  | [] => some []
  | (c,_) :: rest => if isBreak c then some rest else none

structure Stop where
  error : Error
  left : Nat
  deriving DecidableEq, Repr

def stopAt {α : Type} (fault : Fault) (rest : List Glyph) : Except Stop α :=
  .error ⟨.invalid fault,rest.length⟩

def Stop.lift {α : Type} (rest : List Glyph) (r : Except Error α) : Except Stop α :=
  r.mapError fun error => ⟨error,rest.length⟩

def isName (c : Char) : Bool := c.isAlphanum || c = '-' || c = '_'

end DepAudit.Yaml
