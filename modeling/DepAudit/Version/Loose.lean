import DepAudit.Version.Basic

/-! Loose reading of version texts that need not be semantic versions, and a comparison that falls
back from precedence to the numeric part and then to the plain texts. -/
namespace DepAudit.Version

def pinMarks : List String := ["branch: ","revision: "]

def looseText (text : String) : List Char :=
  (pinMarks.foldl (fun cs mark => Text.dropStart mark.toList cs) (Text.trim text.toList)).dropWhile
    fun c => c = 'v' || c = 'V'

def looseBase (cs : List Char) : List Char := (cs.takeWhile (· ≠ '-')).takeWhile (· ≠ '+')

def loosePieces (cs : List Char) : List (List Char) :=
  (cs.splitOn '.').filter fun piece => !piece.isEmpty && piece.all Text.isDigitLike

/-- The first three numbers of a version text; `none` when it has fewer. Every piece is read, also
past the third. -/
def looseTriple? (text : String) : Except NumeralError (Option Triple) := do
  match ← (loosePieces (looseBase (looseText text))).mapM Numeral.read with
  | major :: minor :: patch :: _ => return some ⟨major,minor,patch⟩
  | _ => return none

/-- Compares the loose triples, and the plain texts when one of them is missing. -/
def compareByTriple (a b : String) : Except NumeralError Ordering := do
  let ta ← looseTriple? a
  let tb ← looseTriple? b
  match ta,tb with
  | some ta,some tb => return compare ta tb
  | _,_ => return compare a b

/-- Compares two texts: by precedence when both are semantic versions, else by their numbers, else
as plain texts. -/
def compareLoose (a b : String) : Except NumeralError Ordering := do
  let va ← parse? a
  let vb ← parse? b
  match va,vb with
  | some va,some vb => return compare va vb
  | _,_ => compareByTriple a b

end DepAudit.Version
