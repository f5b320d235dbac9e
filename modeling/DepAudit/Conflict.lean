import DepAudit.Fact
import DepAudit.PackageManifest
import DepAudit.Version.Requirement

/-! Conflicts: names that are declared with versions which cannot all hold. A range is taken to agree
with everything, so that only differing pinned versions conflict. -/
namespace DepAudit

structure Conflict where
  dependency : String
  versions : List String
  sources : List String
  deriving DecidableEq, Repr

namespace Conflict

def toJson (c : Conflict) : Json :=
  .obj [("dependency",.str c.dependency),("versions",Json.strings c.versions),
    ("sources",Json.strings c.sources)]

def pinned (versions : List String) : List String := versions.filter (!Requirement.isRange ·)

def compatible (versions : List String) : Bool := (pinned versions).eraseDups.length ≤ 1

def clash? (versions : List String) : Option (List String) :=
  let distinct := versions.eraseDups
  if compatible distinct then none else some distinct

def sourceOf (f : Fact) : String :=
  match f.metadata.get? "declared_by",f.location with
  | some by_,location => if by_.isEmpty then orDirect location else by_
  | none,location => orDirect location
where
  orDirect : Option String → String
    | some location => if location.isEmpty then "direct" else location
    | none => "direct"

def sourcesOf (facts : List Fact) (name : String) : List String :=
  ((facts.filter (·.name = name)).map sourceOf).eraseDups

def ofFacts (facts : List Fact) : List Conflict :=
  (Table.group (facts.map fun f => (f.name,f.version))).filterMap fun p =>
    (clash? p.2).map fun versions => ⟨p.1,versions,sourcesOf facts p.1⟩

def stated? (d : Declaration) : Option (String × String) :=
  d.requirement.bind fun r => if r.isEmpty then none else some (d.name,r)

def ofDeclarations (ds : List Declaration) : List Conflict :=
  (Table.group (ds.filterMap stated?)).filterMap fun p =>
    (clash? p.2).map fun versions => ⟨p.1,versions,[]⟩

def duplicates (facts : List Fact) (manifest : String) : List Conflict :=
  ((Table.group (facts.map fun f => (f.name,f.version))).filter fun p => 1 < p.2.length).map
    fun p => ⟨p.1,p.2,[manifest]⟩

end Conflict

end DepAudit
