import DepAudit.Json.Basic
import DepAudit.Repository
import DepAudit.Table
import DepAudit.Text.Scan

/-! Package manifests: the packages that are declared by address, with the versions they ask for. -/
namespace DepAudit

structure Declaration where
  name : String
  url : String
  requirement : Option String
  isLocal : Bool
  deriving DecidableEq, Repr

def Declaration.toJson (d : Declaration) : Json :=
  .obj [("name",.str d.name),("url",.str d.url),
    ("version_requirement",Json.ofText? d.requirement),("is_local",.bool d.isLocal)]

namespace PackageManifest

def isQuote (c : Char) : Bool := c = '"' || c = '\''

/-- A text in quotes, which need not be of one kind; it holds no quotes and is not empty. -/
def quoted? : List Char → Option (List Char × List Char)
  | [] => none
  | c :: cs =>
    if isQuote c then
      match cs.takeWhile (!isQuote ·),cs.dropWhile (!isQuote ·) with
      | t :: ts,_ :: rest => some (t :: ts,rest)
      | _,_ => none
    else none

def labelled? (label cs : List Char) : Option (List Char × List Char) := do
  quoted? (Text.skipBlanks (← Text.after? label cs))

def argument? (label : List Char) : List Char → Option (List Char × List Char)
  | [] => none
  | c :: cs =>
    match labelled? label (c :: cs) with
    | some r => some r
    | none => if c = ')' then none else argument? label cs

def optionalArgument (label cs : List Char) : Option (List Char) × List Char :=
  match argument? label cs with
  | some (value,rest) => (some value,rest)
  | none => (none,cs)

structure Arguments where
  url : List Char
  minimum : Option (List Char)
  exact : Option (List Char)

def arguments? : Text.Pattern Arguments := fun _ cs => do
  let cs ← Text.after? ".package(".toList cs
  let (url,cs) ← argument? "url:".toList cs
  let (minimum,cs) := optionalArgument "from:".toList cs
  let (exact,cs) := optionalArgument "exact:".toList cs
  return (⟨url,minimum,exact⟩,cs)

def Arguments.requirement (a : Arguments) : Option String :=
  match a.minimum with
  | some version => some (">=" ++ String.ofList version)
  | none => a.exact.map String.ofList

def Arguments.declaration (a : Arguments) : Except AddressError Declaration := do
  let url := String.ofList a.url
  return ⟨← Repository.packageName url,url,a.requirement,url.startsWith "." || url.startsWith "/"⟩

def declarations (text : String) : Except AddressError (List Declaration) :=
  (Text.all arguments? text.toList).mapM Arguments.declaration

def byName (ds : List Declaration) : Table String Declaration :=
  Table.ofPairs (ds.map fun d => (d.name,d))

end PackageManifest

end DepAudit
