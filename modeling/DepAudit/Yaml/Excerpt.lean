import DepAudit.Text.Decode
import DepAudit.Yaml.Tokens

/-! How far a text can be read. It is read block by block, so that a fault in a block that is not
reached yet is only met after the faults of what lies before. -/
namespace DepAudit.Yaml

/-- The number of characters in a block; the first two blocks are read at once. -/
def blockSize : Nat := 4096

def blocksBefore (place : Nat) : Nat :=
  if place < 2 * blockSize then 0 else place / blockSize * blockSize

structure Excerpt where
  chars : List Char
  cut : Option Error := none

def Excerpt.checked (e : Excerpt) : Excerpt :=
  let fit := e.chars.takeWhile printableRanges.contains
  if fit.length = e.chars.length then e
  else ⟨e.chars.take (blocksBefore fit.length),some (.invalid .character)⟩

def Excerpt.ofBytes (content : ByteArray) : Excerpt :=
  match Text.decode? content with
  | some text => checked ⟨text.toList,none⟩
  | none =>
    let known := Text.decodedChunks content
    checked ⟨known.take (blocksBefore known.length),some .brokenOff⟩

def tokens (content : ByteArray) : Except Error TokenRun :=
  let e := Excerpt.ofBytes content
  match e.chars,e.cut with
  | [],some error => .error error
  | cs,cut => .ok (.ofChars cs cut)

end DepAudit.Yaml
