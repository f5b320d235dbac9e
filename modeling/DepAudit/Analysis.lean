import DepAudit.Discovery
import DepAudit.Graph.Sources
import DepAudit.Issue
import DepAudit.LockFile
import DepAudit.ProjectFile.Targets

/-! A whole analysis: every manifest of a project is read, graphs are built, imports counted, issues
collected and dependencies ranked. A manifest that cannot be used becomes an issue; only settings that
do not fit, texts that cannot be read as numbers or addresses, and a manifest that cannot be used at a path
that is not UTF-8 end the analysis. -/
namespace DepAudit

inductive Reading (α : Type) where
  | used (path : String) (content : α)
  | failed (e : ManifestError)

namespace Reading

variable {α : Type}

def content? : Reading α → Option (String × α)
  | used path content => some (path,content)
  | failed _ => none

def issues (f : String → α → List Issue) : Reading α → List Issue
  | used path content => f path content
  | failed e => [.ofManifestError e]

/-- A failure to read is kept for an issue, whose id has a digest of the path in UTF-8. -/
def ofFault (disk : FileSystem) (e : ManifestError) : Except Failure (Reading α) :=
  if disk.encodes (e.path.getD "") then .ok (failed e) else .error .unencodable

def keep (disk : FileSystem) (path : String) : Except Failure α → Except Failure (Reading α)
  | .ok content => .ok (used path content)
  | .error (.manifest e) => ofFault disk e
  | .error other => .error other

end Reading

structure ProjectGraph where
  file : ProjectFile
  graph : Graph
  metrics : Metrics

structure AnalysisResult where
  root : String
  projectType : ProjectType
  lockFiles : List (String × LockFile)
  projects : List (String × ProjectGraph)
  facts : List Fact
  pinned : Option (Graph × Metrics)
  conflicts : List Conflict
  importScan : Option (ImportScan Float)
  scores : List (Score Float)
  issues : List Issue

namespace Analysis

def reported (root path : String) : String := FilePath.relative "/" path root

def readLockFile (disk : FileSystem) (path : String) : Except Failure (Reading LockFile) :=
  Reading.keep disk path do
    LockFile.read (← (disk.readManifest path).mapError .manifest) (some path)

def declaredFacts (root path : String) (file : LockFile) : List Fact :=
  file.facts.map fun f =>
    { f with metadata := Table.set f.metadata "declared_by" (reported root path) }

def duplicateIssues (root path : String) (file : LockFile) : List Issue :=
  (Conflict.duplicates file.facts (reported root path)).map .ofDuplicate

def firstByName : List Fact → List Fact
  | [] => []
  | f :: fs => f :: (firstByName fs).filter (·.name ≠ f.name)

def readManifest (disk : FileSystem) (path : String) : Except Failure (Reading (List Declaration)) :=
  Reading.keep disk path do
    let text ← (disk.readManifest path).mapError .manifest
    (PackageManifest.declarations text).mapError .address

def mismatches (ds : List Declaration) (facts : List Fact) : Except Failure (List Mismatch) :=
  if facts.isEmpty then .ok []
  else (RequirementCheck.mismatches (PackageManifest.byName ds) (firstByName facts)).mapError .numeral

def manifestIssues (disk : FileSystem) (facts : List Fact) : Option String → Except Failure (List Issue)
  | none => .ok []
  | some path => do
    match ← readManifest disk path with
    | .failed e => return [.ofManifestError e]
    | .used _ ds =>
      return (Conflict.ofDeclarations ds).map .ofConflict ++
        (← mismatches ds facts).map .ofMismatch

def metrics (s : Settings) (g : Graph) : Except Failure Metrics :=
  (Metrics.compute g s.thresholds.bottleneckFactor s.thresholds.complexity.used).mapError .setting

def readProject (disk : FileSystem) (s : Settings) (path : String) :
    Except Failure (Reading ProjectGraph) := do
  match disk.readManifest path with
  | .error e => Reading.ofFault disk e
  | .ok text =>
    let file := ProjectFile.read text ProjectFile.targetKind
    let graph := Graph.ofTargets file.targets [("path",reported s.root path)]
    return .used path ⟨file,graph,← metrics s graph⟩

def cycleNames (g : Graph) (cycle : List String) : List String :=
  cycle.map fun id => ((g.node? id).map Node.name).getD id

def cycleIssues (p : ProjectGraph) : List Issue :=
  p.graph.cycles.map fun cycle => .ofCycle (cycleNames p.graph cycle)

def scanImports (disk : FileSystem) (s : Settings) (names : List String) (finishes : Bool) :
    Except Failure (Option (ImportScan Float)) :=
  if s.scan.enabled.isOn && !names.isEmpty then do
    let endings ← s.discovery.sourceEndings.elements.mapError .setting
    let patterns ← s.discovery.excluded.elements.mapError .setting
    match Imports.scan disk s.root names endings patterns
        ⟨s.scan.workers,s.scan.timeout,finishes⟩ with
    | .ok scan => return some scan
    | .error (.scanTimeout _) => return none
    | .error e => .error e
  else .ok none

def rankBy (g : Graph) (factor : Value) (weights : Weights Value)
    (metrics : Table String (ImportMetrics Float)) (facts : List Fact) :
    Except SettingError (List (Score Float)) := do
  let bottlenecks ← g.bottlenecksFor factor
  if facts.isEmpty then return []
  let weights ← weights.amounts (Ranking.maxTotal metrics facts) (Ranking.totals metrics facts)
  return (Ranking.against g bottlenecks metrics weights).rank facts

def rank (s : Settings) (g : Graph) (scan : Option (ImportScan Float)) (facts : List Fact) :
    Except Failure (List (Score Float)) :=
  let metrics := (scan.map ImportScan.metrics).getD []
  (rankBy g s.thresholds.bottleneckFactor s.ranking metrics facts).mapError .setting

/-- Analyses the project below the root of the settings. `finishes` tells whether a scan that has a
time limit ends within it. -/
def run (disk : FileSystem) (s : Settings) (finishes : Bool) : Except Failure AnalysisResult := do
  let projectType ← (Discovery.projectType disk s.root s.discovery).mapError .setting
  let lockPaths ← (Discovery.lockFiles disk s.root s.discovery).mapError .setting
  let locks ← lockPaths.mapM (readLockFile disk)
  let lockFiles := locks.filterMap Reading.content?
  let facts := lockFiles.flatMap fun l => declaredFacts s.root l.1 l.2
  let conflicts := Conflict.ofFacts facts
  let manifestPath ← (Discovery.manifest? disk s.root s.discovery).mapError .setting
  let manifestIssues ← manifestIssues disk facts manifestPath
  let unique := firstByName facts
  let pinned := Graph.ofFacts unique [("root",s.root)]
  let pinnedMetrics ← metrics s pinned
  let projectPaths ← (Discovery.projectFiles disk s.root s.discovery).mapError .setting
  let projects ← projectPaths.mapM (readProject disk s)
  let names := unique.map Fact.name
  let scan ← scanImports disk s names finishes
  let scores ← rank s pinned scan unique
  return {
    root := s.root
    projectType
    lockFiles
    projects := projects.filterMap Reading.content?
    facts
    pinned := some (pinned,pinnedMetrics)
    conflicts
    importScan := scan
    scores
    issues := Issue.sort (
      locks.flatMap (Reading.issues (duplicateIssues s.root)) ++
      conflicts.map .ofConflict ++ manifestIssues ++
      projects.flatMap (Reading.issues fun _ => cycleIssues) ++
      (scan.map (Issue.unused · names)).getD []) }

end Analysis

namespace AnalysisResult

def empty (root : String) : AnalysisResult :=
  ⟨root,.unknown,[],[],[],none,[],none,[],[]⟩

def hasErrors (r : AnalysisResult) : Bool := r.issues.any Issue.isError

def targetMembers (r : AnalysisResult) : List (String × Option Json) :=
  if r.projects.isEmpty then []
  else
    let byPath (f : ProjectGraph → Json) : Json :=
      .obj (Table.ofPairs (r.projects.map fun p => (Analysis.reported r.root p.1,f p.2)))
    [("target_graphs",some (byPath fun p => p.graph.toJson)),
     ("target_metrics",some (byPath fun p => p.metrics.toJson))]

def toMembers (r : AnalysisResult) : List (String × Option Json) :=
  [("root",some (.str r.root)),("project_type",some (.str r.projectType.word)),
   ("resolved",some (.arr (r.lockFiles.map fun l => l.2.toJson (some l.1)))),
   ("projects",some (.arr (r.projects.map fun p => p.2.file.toJson (some p.1)))),
   ("conflicts",some (.arr (r.conflicts.map Conflict.toJson))),
   ("scores",some (.arr (r.scores.map Score.toJson))),
   ("issues",some (.arr (r.issues.map Issue.toJson))),
   ("pinned_graph",r.pinned.map fun p => p.1.toJson),
   ("pinned_metrics",r.pinned.map fun p => p.2.toJson)] ++ r.targetMembers ++
  [("import_scan",r.importScan.map ImportScan.toJson)]

def toJson (r : AnalysisResult) : Json := .record r.toMembers

end AnalysisResult

end DepAudit
