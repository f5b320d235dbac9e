import DepAudit.Table
import DepAudit.Text.Scan

/-! Counting import statements in source text. This goes by words alone: what stands in comments and
strings counts as well. -/
namespace DepAudit.Imports

def statement? : Text.Pattern (List Char) := fun before cs => do
  guard (Text.startsWord before)
  let cs ← Text.after? "import".toList cs
  guard (cs.head?.any Text.isBlank)
  let cs := Text.skipBlanks cs
  let name := cs.takeWhile Text.isIdentifier
  guard !name.isEmpty
  return (name,cs.dropWhile Text.isIdentifier)

def modules (source : String) : List String :=
  (Text.all statement? source.toList).map String.ofList

/-- How often each of the names is imported, in the order of first imports; a name that is never
imported is left out. -/
def count (source : String) (names : List String) : Table String Int :=
  ((modules source).filter (names.contains ·)).foldl (fun t name => t.update name 0 (· + 1)) []

def merge (partials : List (String × Option (Table String Int))) :
    Table String (Table String Int) :=
  partials.foldl (fun merged p =>
    (p.2.getD []).foldl (fun merged c =>
      merged.update c.1 [] fun byFile => byFile.update p.1 0 (· + c.2)) merged) []

end DepAudit.Imports
