import DepAudit.ProjectFile.Brace
import DepAudit.Table
import DepAudit.Text.Scan

/-! Sections of a property list: `id = { … isa = Kind; … };` with a comment allowed behind the id. The
kind stands before any inner brace, so that a header never takes the kind of another section. -/
namespace DepAudit.ProjectFile

def afterComment? (cs : List Char) : Option (List Char) := do
  Text.afterFirst? "*/".toList (← Text.after? "/*".toList cs)

def skipComment (cs : List Char) : List Char := (afterComment? cs).getD cs

def skipGap (cs : List Char) : List Char := Text.skipBlanks (skipComment (Text.skipBlanks cs))

def kindEnd? (kind cs : List Char) : Option (List Char) := do
  Text.after? [';'] (Text.skipBlanks (← Text.after? kind cs))

def isaLine? (kind : List Char) (before : Option Char) (cs : List Char) : Option (List Char) := do
  guard (Text.startsWord before)
  let cs ← Text.after? "isa".toList cs
  let cs ← Text.after? ['='] (Text.skipBlanks cs)
  Text.afterBlanks? (kindEnd? kind) cs

/-- The rest behind the first entry of that kind, if no brace stands before it. -/
def isaAhead? (kind : List Char) : Option Char → List Char → Option (List Char)
  | _,[] => none
  | before,c :: cs =>
    match isaLine? kind before (c :: cs) with
    | some rest => some rest
    | none => if c = '{' || c = '}' then none else isaAhead? kind (some c) cs

structure Header where
  id : List Char
  group : List Char

def header? (kind : List Char) : Text.Pattern Header := fun before cs => do
  guard (Text.startsWord before)
  let id := cs.takeWhile Text.isWord
  guard !id.isEmpty
  let cs ← Text.after? ['='] (skipGap (cs.dropWhile Text.isWord))
  let group := Text.skipBlanks cs
  let inside ← Text.after? ['{'] group
  let rest ← isaAhead? kind (some '{') inside
  return (⟨id,group⟩,rest)

def Header.entry? (h : Header) : Option (String × String) :=
  (groupBody? h.group).map fun body => (String.ofList h.id,String.ofList body)

def sections (text : String) (kind : String) : Table String String :=
  Table.ofPairs ((Text.all (header? kind.toList) text.toList).filterMap Header.entry?)

end DepAudit.ProjectFile
