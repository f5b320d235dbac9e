import DepAudit.ProjectFile.Entry
import DepAudit.ProjectFile.Target

/-! The native targets of a project file and what they depend on. Dependencies are given through
sections of their own, each of which refers to a target. -/
namespace DepAudit

structure ProjectFile where
  targets : List Target
  sectionsFound : Nat
  skipped : Nat
  deriving DecidableEq, Repr

namespace ProjectFile

def targetKind : String := "PBXNativeTarget"

def dependencyKind : String := "PBXTargetDependency"

def references (text : String) : Table String String :=
  (sections text dependencyKind).filterMap fun s => (value? s.2 "target").map (s.1,·)

def target? (references : Table String String) (id body : String) : Option Target := do
  let name ← value? body "name"
  let productName := value? body "productName"
  let productType := value? body "productType"
  return {
    id, name, productName, productType
    type := .classify productType productName
    dependencies := (ids body "dependencies").map fun d => (references.get? d).getD d
    buildPhases := ids body "buildPhases" }

def ofSections (references : Table String String) (found : Table String String) : ProjectFile where
  targets := found.filterMap fun s => target? references s.1 s.2
  sectionsFound := found.length
  skipped := found.countP fun s => (target? references s.1 s.2).isNone

def read (text : String) (kind : String) : ProjectFile :=
  ofSections (references text) (sections text kind)

def toMembers (f : ProjectFile) : List (String × Option Json) :=
  [("targets",some (.arr (f.targets.map Target.toJson))),
   ("sections_found",some (.int f.sectionsFound)),("skipped",some (.int f.skipped))]

def toJson (f : ProjectFile) (path : Option String) : Json :=
  .record (f.toMembers ++ [("path",Target.filled path)])

end ProjectFile

end DepAudit
