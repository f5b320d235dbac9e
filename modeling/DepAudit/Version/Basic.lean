import DepAudit.Numeral
import DepAudit.Text.Blank
import DepAudit.Text.Slices

/-! Semantic versions: their text, and their order, in which build labels take no part. -/
namespace DepAudit

structure Triple where
  major : Nat
  minor : Nat
  patch : Nat
  deriving DecidableEq, Hashable, Repr

namespace Triple

protected def compare (a b : Triple) : Ordering :=
  ((compare a.major b.major).then (compare a.minor b.minor)).then (compare a.patch b.patch)

instance : Ord Triple := ⟨Triple.compare⟩

end Triple

structure Version where
  triple : Triple
  prerelease : Option String
  build : Option String
  deriving Repr

namespace Version

/-- A release stands above each of its prereleases, which are ordered as plain text. -/
def comparePrerelease : Option String → Option String → Ordering
  | none,none => .eq
  | none,some _ => .gt
  | some _,none => .lt
  | some a,some b => compare a b

protected def compare (a b : Version) : Ordering :=
  (compare a.triple b.triple).then (comparePrerelease a.prerelease b.prerelease)

instance : Ord Version := ⟨Version.compare⟩

/-- Versions are equal when they agree up to the build label. -/
instance : BEq Version := ⟨fun a b => a.triple == b.triple && a.prerelease == b.prerelease⟩

instance : Hashable Version := ⟨fun v => hash (v.triple,v.prerelease)⟩

protected def lt (a b : Version) : Bool := compare a b == .lt

protected def le (a b : Version) : Bool := a.lt b || a == b

protected def gt (a b : Version) : Bool := !a.lt b && a != b

protected def ge (a b : Version) : Bool := !a.lt b

def labelText (mark : String) : Option String → String
  | none => ""
  | some label => if label.isEmpty then "" else mark ++ label

def render (v : Version) : String :=
  toString v.triple.major ++ "." ++ toString v.triple.minor ++ "." ++ toString v.triple.patch
    ++ labelText "-" v.prerelease ++ labelText "+" v.build

structure Parts where
  major : List Char
  minor : List Char
  patch : List Char
  prerelease : Option (List Char)
  build : Option (List Char)

def takeRun? (p : Char → Bool) (cs : List Char) : Option (List Char × List Char) :=
  match cs.takeWhile p with
  | [] => none
  | run => some (run,cs.dropWhile p)

def isLabelChar (c : Char) : Bool := c.isAlphanum || c == '-'

def takeLabel? (mark : Char) : List Char → Option (Option (List Char) × List Char)
  | [] => some (none,[])
  | c :: cs => if c = mark then (takeRun? isLabelChar cs).map fun r => (some r.1,r.2)
    else some (none,c :: cs)

def takePointed? (cs : List Char) : Option (List Char × List Char) :=
  match takeRun? Text.isDecimalDigit cs with
  | some (run,'.' :: rest) => some (run,rest)
  | _ => none

/-- Takes a version text apart. The numerals may be of any script, the labels are plain ASCII. -/
def Parts.ofText? (cs : List Char) : Option Parts := do
  let (major,cs) ← takePointed? cs
  let (minor,cs) ← takePointed? cs
  let (patch,cs) ← takeRun? Text.isDecimalDigit cs
  let (prerelease,cs) ← takeLabel? '-' cs
  let (build,cs) ← takeLabel? '+' cs
  guard cs.isEmpty
  return ⟨major,minor,patch,prerelease,build⟩

def Parts.version (p : Parts) : Except NumeralError Version := do
  let triple := ⟨← Numeral.read p.major,← Numeral.read p.minor,← Numeral.read p.patch⟩
  return ⟨triple,p.prerelease.map String.ofList,p.build.map String.ofList⟩

def parse? (text : String) : Except NumeralError (Option Version) :=
  match Parts.ofText? (Text.trim text.toList) with
  | none => .ok none
  | some parts => parts.version.map some

def sort (versions : List Version) : List Version := versions.mergeSort fun a b => !b.lt a

end Version

end DepAudit
