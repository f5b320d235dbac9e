import DepAudit.Fact
import DepAudit.Failure

/-! Lock files: the pins of a resolved package graph. The older generation names a package and keeps
its location with the state, the newer one has an identity and a location of its own. -/
namespace DepAudit

structure LocalDependency where
  name : String
  path : String
  deriving DecidableEq, Repr

structure LockFile where
  facts : List Fact
  locals : List LocalDependency
  skipped : Nat
  deriving DecidableEq, Repr

namespace LockFile

def text? (v : Json) (name : String) : Option String :=
  match v.get? name with
  | some (.str s) => if s.isEmpty then none else some s
  | _ => none

def stateOf (pin : Json) : Json := (pin.get? "state").getD .null

/-- A pin's version: a released one, else the branch, else the start of the revision. -/
def versionOf (state : Json) : String :=
  match text? state "version",text? state "branch",text? state "revision" with
  | some version,_,_ => version
  | none,some branch,_ => "branch: " ++ branch
  | none,none,some revision => "revision: " ++ String.ofList (revision.toList.take 7)
  | none,none,none => ""

def branchOf? (state : Json) : Option String :=
  match text? state "version" with
  | some _ => none
  | none => text? state "branch"

def metadataOf (pin state : Json) : Table String String :=
  [("branch",branchOf? state),("revision",text? state "revision"),
   ("pin_kind",text? pin "kind")].filterMap fun m => m.2.map (m.1,·)

def pinFact? (pin : Json) : Option Fact := do
  let name ← text? pin "package" <|> text? pin "identity"
  let state := stateOf pin
  let location ← text? pin "location" <|> text? state "location"
  return {
    name
    version := versionOf state
    location := some location
    kind := .ofLocation location
    metadata := metadataOf pin state
    importCount := none }

def isLocalPath (location : String) : Bool := location.startsWith "." || location.startsWith "/"

def pinLocal? (pin : Json) : Option LocalDependency := do
  let name ← text? pin "package"
  let location ← text? (stateOf pin) "location"
  guard (isLocalPath location)
  return ⟨name,location⟩

/-- Every entry is taken on its own; one that is no object has neither a name nor a location. -/
def ofPins (entries : List Json) : LockFile where
  facts := entries.filterMap pinFact?
  locals := entries.filterMap pinLocal?
  skipped := entries.countP fun entry => (pinFact? entry).isNone

def pins? (document : Json) : Option (List Json) :=
  (document.get? "pins" >>= Json.arr?) <|>
    (document.get? "object" >>= Json.get? "pins" >>= Json.arr?)

def ofJson (document : Json) : Except ManifestFault LockFile :=
  if document.isObj then
    match pins? document with
    | some entries => .ok (ofPins entries)
    | none => .error .noPins
  else .error .notObject

def read (text : String) (path : Option String) : Except Failure LockFile :=
  match Json.read text with
  | .error .tooDeep => .error .tooDeep
  | .error reason => .error (.manifest ⟨.notJson reason,path⟩)
  | .ok document => (ofJson document).mapError fun fault => .manifest ⟨fault,path⟩

def count (f : LockFile) : Nat := f.facts.length + f.locals.length

def toMembers (f : LockFile) : List (String × Option Json) :=
  [("count",some (.int f.count)),("external",some (.arr (f.facts.map Fact.toJson))),
   ("local",some (.arr (f.locals.map fun l => .obj [("name",.str l.name),("path",.str l.path)]))),
   ("skipped",some (.int f.skipped))]

def pathMember (path : Option String) : String × Option Json :=
  ("path",path.bind fun p => if p.isEmpty then none else some (.str p))

def toJson (f : LockFile) (path : Option String) : Json :=
  .record (f.toMembers ++ [pathMember path])

end LockFile

end DepAudit
