import DepAudit.Failure
import DepAudit.FileTree.Walk
import DepAudit.Glob
import DepAudit.Imports.Count
import DepAudit.Json.Basic
import DepAudit.ValueText

/-! Scanning the source files of a project for imports of given names. -/
namespace DepAudit

structure ImportMetrics (α : Type) where
  name : String
  total : Int
  coverage : α
  locations : Table String Int

def ImportMetrics.importing {α : Type} (m : ImportMetrics α) : Nat :=
  m.locations.countP fun p => 0 < p.2

def ImportMetrics.toJson (m : ImportMetrics Float) : Json :=
  .obj [("name",.str m.name),("total_imports",.int m.total),
    ("files_coverage",.float m.coverage),
    ("import_locations",.obj (m.locations.map fun p => (p.1,.int p.2)))]

structure ImportScan (α : Type) where
  metrics : Table String (ImportMetrics α)
  filesScanned : Nat
  filesFailed : Nat

def ImportScan.toJson (s : ImportScan Float) : Json :=
  .obj [("files_scanned",.int s.filesScanned),("files_failed",.int s.filesFailed),
    ("metrics",.obj (s.metrics.map fun p => (p.1,p.2.toJson)))]

/-- How a scan is run: with how many workers, for how long, and whether it comes to its end by then. -/
structure ScanLimits where
  workers : Value
  timeout : Value
  finishes : Bool

namespace Imports

def hasEnding (endings : List Value) (name : String) : Except SettingError Bool :=
  match endings with
  | [] => .ok false
  | .text ending :: rest => if name.endsWith ending then .ok true else hasEnding rest name
  | .halves _ :: rest => hasEnding rest name
  | _ :: _ => .error .wrongType

def isExcluded (patterns : List Value) (path : String) : Except SettingError Bool :=
  match patterns with
  | [] => .ok false
  | .text pattern :: rest =>
    if Glob.fitsPath pattern path then .ok true else isExcluded rest path
  | .halves _ :: rest => isExcluded rest path
  | _ :: _ => .error .wrongType

def isSource (endings : List Value) (name : String) : Except SettingError Bool :=
  if Entry.isHidden name then .ok false else hasEnding endings name

def checkRoot (root : String) : Except SettingError Unit :=
  if FilePath.isPath root then .ok () else .error .noPath

def sourceFiles (disk : FileSystem) (root : String) (endings patterns : List Value) :
    Except SettingError (List String) := do
  checkRoot root
  Entry.wantedFiles (← disk.walk (isExcluded patterns) root) fun _ name => isSource endings name

def countFile (disk : FileSystem) (names : List String) (path : String) :
    Option (Table String Int) :=
  (disk.text? path).map fun source => count source names

def metricsOf {α : Type} [Scalar α] (merged : Table String (Table String Int)) (files : Nat)
    (name : String) : ImportMetrics α :=
  let locations := (merged.get? name).getD []
  let m : ImportMetrics α :=
    { name
      total := locations.foldl (fun n p => n + p.2) 0
      coverage := Scalar.zero
      locations := locations.mergeSort fun a b => decide (a.1 ≤ b.1) }
  { m with coverage := Scalar.share m.importing files }

def scanFiles {α : Type} [Scalar α] (disk : FileSystem) (names files : List String) : ImportScan α :=
  let names := names.eraseDups
  let partials := files.map fun path => (path,countFile disk names path)
  let merged := merge partials
  { metrics := names.map fun name => (name,metricsOf merged files.length name)
    filesScanned := files.length
    filesFailed := partials.countP (·.2.isNone) }

def longestWait : Float := 9223372036.854775

def checkTime (limits : ScanLimits) (files : Nat) : Except Failure Unit :=
  match limits.timeout with
  | .null => .ok ()
  | timeout => do
    let seconds ← timeout.amount.mapError .setting
    if limits.finishes then return
    if longestWait < seconds then throw (.setting .tooGreat)
    throw (.scanTimeout ⟨timeout.shown,files⟩)

/-- Scans the source files below a directory. The number of workers only has to be a number. -/
def scan {α : Type} [Scalar α] (disk : FileSystem) (root : String) (names : List String)
    (endings patterns : List Value) (limits : ScanLimits) : Except Failure (ImportScan α) := do
  let _ ← limits.workers.number.mapError .setting
  let files ← (sourceFiles disk root endings patterns).mapError .setting
  unless files.isEmpty do checkTime limits files.length
  return scanFiles disk names files

end Imports

end DepAudit
