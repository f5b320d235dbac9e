import DepAudit.Fact
import DepAudit.PackageManifest
import DepAudit.Text.LowerCase
import DepAudit.Version.Requirement

/-! Resolved versions against the requirements of the package manifest. -/
namespace DepAudit

inductive MismatchReason where
  | notInManifest
  | notSatisfied
  /-- A reason of another wording. -/
  | other (text : String)
  deriving DecidableEq, Repr

def MismatchReason.word : MismatchReason → String
  | .notInManifest => "not-in-manifest"
  | .notSatisfied => "version-not-satisfied"
  | .other text => text

def MismatchReason.ofWord (w : String) : MismatchReason :=
  if w = MismatchReason.notInManifest.word then .notInManifest
  else if w = MismatchReason.notSatisfied.word then .notSatisfied
  else .other w

structure Mismatch where
  package : String
  resolved : String
  requirement : Option String
  reason : MismatchReason
  deriving DecidableEq, Repr

def Mismatch.toJson (m : Mismatch) : Json :=
  .obj [("package",.str m.package),("resolved_version",.str m.resolved),
    ("requirement",Json.ofText? m.requirement),("reason",.str m.reason.word)]

namespace RequirementCheck

def lowerName (name : String) : String := String.ofList (Text.lower name.toList)

structure Index where
  exact : Table String Declaration
  lowered : Table String Declaration

def Index.ofTable (requirements : Table String Declaration) : Index :=
  ⟨requirements,Table.ofPairs (requirements.map fun p => (lowerName p.1,p.2))⟩

def Index.find? (index : Index) (name : String) : Option Declaration :=
  index.exact.get? name <|> index.lowered.get? (lowerName name)

def mismatch? (index : Index) (fact : Fact) : Except NumeralError (Option Mismatch) :=
  match index.find? fact.name with
  | none => .ok (some ⟨fact.name,fact.version,none,.notInManifest⟩)
  | some d => do
    if ← Requirement.isMet fact.version d.requirement then return none
    else return some ⟨fact.name,fact.version,d.requirement,.notSatisfied⟩

def mismatches (requirements : Table String Declaration) (facts : List Fact) :
    Except NumeralError (List Mismatch) := do
  let found ← facts.mapM (mismatch? (.ofTable requirements))
  return found.filterMap id

end RequirementCheck

end DepAudit
