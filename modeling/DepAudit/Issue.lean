import DepAudit.Conflict
import DepAudit.Digest
import DepAudit.Imports.Scan
import DepAudit.RequirementCheck

/-! Issues: what an analysis reports, each with an id, a severity and the data it rests on. Digests in ids
are of texts in UTF-8: no issue is made of a fault in a file whose path is not one. -/
namespace DepAudit

inductive Severity where
  | info
  | warning
  | error
  | critical
  deriving DecidableEq, Repr

namespace Severity

def word : Severity → String
  | info => "info"
  | warning => "warning"
  | error => "error"
  | critical => "critical"

def level : Severity → Nat
  | info => 1
  | warning => 2
  | error => 3
  | critical => 4

def ofWord? (w : String) : Option Severity := [info,warning,error,critical].find? (·.word = w)

end Severity

inductive IssueType where
  | circularDependency
  | versionConflict
  | missingDependency
  | unusedDependency
  | requirementMismatch
  | duplicateDependency
  | parseError
  | unknown
  deriving DecidableEq, Repr

namespace IssueType

def word : IssueType → String
  | circularDependency => "circular_dependency"
  | versionConflict => "version_conflict"
  | missingDependency => "missing_dependency"
  | unusedDependency => "unused_dependency"
  | requirementMismatch => "requirement_mismatch"
  | duplicateDependency => "duplicate_dependency"
  | parseError => "parse_error"
  | unknown => "unknown"

def all : List IssueType :=
  [circularDependency,versionConflict,missingDependency,unusedDependency,
   requirementMismatch,duplicateDependency,parseError,unknown]

def ofWord? (w : String) : Option IssueType := all.find? (·.word = w)

end IssueType

inductive Payload where
  | cycle (ids : List String)
  | conflict (c : Conflict)
  | mismatch (m : Mismatch)
  | unused (dependency : String) (filesScanned : Nat)
  | parseError (path : String) (kind : ManifestErrorKind)
  deriving DecidableEq, Repr

def Payload.toJson : Payload → Json
  | cycle ids => .obj [("cycle",Json.strings ids),("cycle_length",.int ids.length)]
  | conflict c => c.toJson
  | mismatch m => m.toJson
  | unused dependency filesScanned =>
    .obj [("dependency",.str dependency),("files_scanned",.int filesScanned)]
  | parseError path kind => .obj [("path",.str path),("kind",.str kind.word)]

structure Issue where
  id : String
  type : IssueType
  severity : Severity
  title : String
  description : String
  affected : List String
  fix : Option String
  metadata : Table String String
  payload : Option Payload
  deriving DecidableEq, Repr

namespace Issue

def toJson (i : Issue) : Json :=
  .record [("id",some (.str i.id)),("type",some (.str i.type.word)),
    ("severity",some (.str i.severity.word)),("title",some (.str i.title)),
    ("description",some (.str i.description)),("affected_nodes",some (Json.strings i.affected)),
    ("suggested_fix",i.fix.bind fun f => if f.isEmpty then none else some (.str f)),
    ("metadata",i.metadata.toJson?),("payload",i.payload.map Payload.toJson)]

def digest (parts : List String) : String :=
  String.ofList ((Digest.ofText ("\x1f".intercalate parts)).take 12)

def chain (cycle : List String) : String := " → ".intercalate (cycle ++ cycle.take 1)

def ofCycle (cycle : List String) : Issue where
  id := "cycle-" ++ digest cycle
  type := .circularDependency
  severity := .error
  title := "Circular Dependency Detected"
  description := "Circular dependency found: " ++ chain cycle
  affected := cycle
  fix := some
    "Break the cycle by extracting the shared functionality into a separate module"
  metadata := []
  payload := some (.cycle cycle)

def ofConflict (c : Conflict) : Issue where
  id := "conflict-" ++ c.dependency
  type := .versionConflict
  severity := .warning
  title := "Version Conflict"
  description := "Conflicting versions for " ++ c.dependency ++ ": " ++ ", ".intercalate c.versions
  affected := [c.dependency]
  fix := some ("Align every declaration of " ++ c.dependency ++ " on a single version")
  metadata := []
  payload := some (.conflict c)

def ofDuplicate (c : Conflict) : Issue where
  id := "duplicate-" ++ c.dependency
  type := .duplicateDependency
  severity := .warning
  title := "Duplicate Pin"
  description := c.dependency ++ " is pinned " ++ toString c.versions.length ++ " times: " ++
    ", ".intercalate c.versions
  affected := [c.dependency]
  fix := some "Re-resolve the package graph to regenerate the lock file"
  metadata := []
  payload := some (.conflict c)

def ofUndeclared (m : Mismatch) : Issue where
  id := "requirement-" ++ m.package
  type := .missingDependency
  severity := .info
  title := "Undeclared Dependency"
  description := m.package ++ " " ++ m.resolved ++
    " is resolved but not declared in the package manifest"
  affected := [m.package]
  fix := none
  metadata := []
  payload := some (.mismatch m)

def ofUnmet (m : Mismatch) : Issue where
  id := "requirement-" ++ m.package
  type := .requirementMismatch
  severity := .warning
  title := "Requirement Mismatch"
  description := m.package ++ " resolved to " ++ m.resolved ++ ", which does not satisfy " ++
    m.requirement.getD "None"
  affected := [m.package]
  fix := some "Re-resolve dependencies or update the requirement"
  metadata := []
  payload := some (.mismatch m)

def ofMismatch (m : Mismatch) : Issue :=
  if m.reason = .notInManifest then ofUndeclared m else ofUnmet m

def ofUnused (name : String) (filesScanned : Nat) : Issue where
  id := "unused-" ++ name
  type := .unusedDependency
  severity := .info
  title := "Unused Dependency"
  description := "No source file imports " ++ name
  affected := [name]
  fix := some ("Remove " ++ name ++ " if it is not needed transitively")
  metadata := []
  payload := some (.unused name filesScanned)

def isUnused {α : Type} (scan : ImportScan α) (name : String) : Bool :=
  (scan.metrics.get? name).any fun m => m.total ≤ 0

def unused {α : Type} (scan : ImportScan α) (names : List String) : List Issue :=
  if scan.filesScanned = 0 then []
  else (names.filter (isUnused scan)).map (ofUnused · scan.filesScanned)

def ofParseError (kind : ManifestErrorKind) (message path : String) : Issue where
  id := "parse-" ++ kind.word ++ "-" ++ digest [path]
  type := .parseError
  severity := .error
  title := "Manifest Parse Failure"
  description := message
  affected := []
  fix := none
  metadata := []
  payload := some (.parseError path kind)

def ofManifestError (e : ManifestError) : Issue :=
  ofParseError e.kind e.message (e.path.getD "")

def sort (issues : List Issue) : List Issue :=
  issues.mergeSort fun a b => decide (b.severity.level ≤ a.severity.level)

def isError (i : Issue) : Bool := 3 ≤ i.severity.level

end Issue

end DepAudit
