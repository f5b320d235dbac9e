import DepAudit.Analysis
import DepAudit.Proofs.Outcome

/-! An analysis by its phases: it comes to an end when each of them does, and its result is put together
from what they find. -/
namespace DepAudit

namespace Reading

variable {α : Type} {disk disk' : FileSystem}

theorem ofFault_eq (disk : FileSystem) (fault : ManifestFault) (path : String) :
    (ofFault disk ⟨fault,some path⟩ : Except Failure (Reading α)) =
      if disk.encodes path then .ok (failed ⟨fault,some path⟩) else .error .unencodable := rfl

theorem eq_failed_of_ofFault {disk : FileSystem} {e : ManifestError} {reading : Reading α}
    (kept : ofFault disk e = .ok reading) : reading = failed e := by
  rw [ofFault] at kept
  split at kept
  · exact (Except.ok.inj kept).symm
  · cases kept

theorem ofFault_congr (strays : disk'.strays = disk.strays) (e : ManifestError) :
    (ofFault disk' e : Except Failure (Reading α)) = ofFault disk e := by
  rw [ofFault,ofFault,FileSystem.encodes,FileSystem.encodes,strays]

theorem keep_congr (strays : disk'.strays = disk.strays) (path : String) (x : Except Failure α) :
    keep disk' path x = keep disk path x := by
  cases x with
  | ok content => rfl
  | error reason =>
    cases reason with
    | manifest e => exact ofFault_congr strays e
    | _ => rfl

end Reading

namespace Analysis

structure Phases where
  projectType : ProjectType
  lockPaths : List String
  locks : List (Reading LockFile)
  manifestPath : Option String
  manifestIssues : List Issue
  pinnedMetrics : Metrics
  projectPaths : List String
  projects : List (Reading ProjectGraph)
  scan : Option (ImportScan Float)
  scores : List (Score Float)

namespace Phases

variable (p : Phases) (s : Settings)

def lockFiles : List (String × LockFile) := p.locks.filterMap Reading.content?

def facts : List Fact := p.lockFiles.flatMap fun l => declaredFacts s.root l.1 l.2

def unique : List Fact := firstByName (p.facts s)

def names : List String := (p.unique s).map Fact.name

def pinned : Graph := Graph.ofFacts (p.unique s) [("root",s.root)]

def produced : List Issue :=
  p.locks.flatMap (Reading.issues (duplicateIssues s.root)) ++
    (Conflict.ofFacts (p.facts s)).map .ofConflict ++ p.manifestIssues ++
    p.projects.flatMap (Reading.issues fun _ => cycleIssues) ++
    (p.scan.map (Issue.unused · (p.names s))).getD []

def result : AnalysisResult where
  root := s.root
  projectType := p.projectType
  lockFiles := p.lockFiles
  projects := p.projects.filterMap Reading.content?
  facts := p.facts s
  pinned := some (p.pinned s,p.pinnedMetrics)
  conflicts := Conflict.ofFacts (p.facts s)
  importScan := p.scan
  scores := p.scores
  issues := Issue.sort (p.produced s)

structure Completed (disk : FileSystem) (finishes : Bool) : Prop where
  projectType : Discovery.projectType disk s.root s.discovery = .ok p.projectType
  lockPaths : Discovery.lockFiles disk s.root s.discovery = .ok p.lockPaths
  locks : List.Forall₂ (fun path lock => readLockFile disk path = .ok lock) p.lockPaths p.locks
  manifestPath : Discovery.manifest? disk s.root s.discovery = .ok p.manifestPath
  manifestIssues : Analysis.manifestIssues disk (p.facts s) p.manifestPath = .ok p.manifestIssues
  pinnedMetrics : metrics s (p.pinned s) = .ok p.pinnedMetrics
  projectPaths : Discovery.projectFiles disk s.root s.discovery = .ok p.projectPaths
  projects : List.Forall₂ (fun path project => readProject disk s path = .ok project)
    p.projectPaths p.projects
  scan : scanImports disk s (p.names s) finishes = .ok p.scan
  scores : rank s (p.pinned s) p.scan (p.unique s) = .ok p.scores

end Phases

theorem run_eq_ok_iff {disk : FileSystem} {s : Settings} {finishes : Bool} {r : AnalysisResult} :
    run disk s finishes = .ok r ↔ ∃ p : Phases, p.Completed s disk finishes ∧ r = p.result s := by
  constructor
  · intro ran
    obtain ⟨projectType,typed,ran⟩ := bind_eq_ok.mp ran
    obtain ⟨lockPaths,locked,ran⟩ := bind_eq_ok.mp ran
    obtain ⟨locks,read,ran⟩ := bind_eq_ok.mp ran
    obtain ⟨manifestPath,found,ran⟩ := bind_eq_ok.mp ran
    obtain ⟨manifestIssues,compared,ran⟩ := bind_eq_ok.mp ran
    obtain ⟨pinnedMetrics,measured,ran⟩ := bind_eq_ok.mp ran
    obtain ⟨projectPaths,projected,ran⟩ := bind_eq_ok.mp ran
    obtain ⟨projects,graphed,ran⟩ := bind_eq_ok.mp ran
    obtain ⟨scan,scanned,ran⟩ := bind_eq_ok.mp ran
    obtain ⟨scores,ranked,same⟩ := bind_eq_ok.mp ran
    exact ⟨⟨projectType,lockPaths,locks,manifestPath,manifestIssues,pinnedMetrics,projectPaths,projects,
      scan,scores⟩,⟨mapError_eq_ok.mp typed,mapError_eq_ok.mp locked,mapM_eq_ok.mp read,
      mapError_eq_ok.mp found,compared,measured,mapError_eq_ok.mp projected,mapM_eq_ok.mp graphed,scanned,
      ranked⟩,(Except.ok.inj same).symm⟩
  · rintro ⟨p,done,rfl⟩
    exact bind_eq_ok.mpr ⟨_,mapError_eq_ok.mpr done.projectType,
      bind_eq_ok.mpr ⟨_,mapError_eq_ok.mpr done.lockPaths,
      bind_eq_ok.mpr ⟨_,mapM_eq_ok.mpr done.locks,
      bind_eq_ok.mpr ⟨_,mapError_eq_ok.mpr done.manifestPath,
      bind_eq_ok.mpr ⟨_,done.manifestIssues,
      bind_eq_ok.mpr ⟨_,done.pinnedMetrics,
      bind_eq_ok.mpr ⟨_,mapError_eq_ok.mpr done.projectPaths,
      bind_eq_ok.mpr ⟨_,mapM_eq_ok.mpr done.projects,
      bind_eq_ok.mpr ⟨_,done.scan,
      bind_eq_ok.mpr ⟨_,done.scores,rfl⟩⟩⟩⟩⟩⟩⟩⟩⟩⟩

/-- What ends the comparison with the package manifest ends the analysis. -/
theorem run_eq_error_of_manifestIssues {disk : FileSystem} {s : Settings} {finishes : Bool} {p : Phases}
    {e : Failure} (typed : Discovery.projectType disk s.root s.discovery = .ok p.projectType)
    (locked : Discovery.lockFiles disk s.root s.discovery = .ok p.lockPaths)
    (read : List.Forall₂ (fun path lock => readLockFile disk path = .ok lock) p.lockPaths p.locks)
    (found : Discovery.manifest? disk s.root s.discovery = .ok p.manifestPath)
    (ended : manifestIssues disk (p.facts s) p.manifestPath = .error e) :
    run disk s finishes = .error e :=
  bind_eq_error.mpr (.inr ⟨_,mapError_eq_ok.mpr typed,
    bind_eq_error.mpr (.inr ⟨_,mapError_eq_ok.mpr locked,
    bind_eq_error.mpr (.inr ⟨_,mapM_eq_ok.mpr read,
    bind_eq_error.mpr (.inr ⟨_,mapError_eq_ok.mpr found,
    bind_eq_error.mpr (.inl ended)⟩)⟩)⟩)⟩)

/-- What ends the reading of a lock file, after those before it were read, ends the analysis. -/
theorem run_eq_error_of_lockFile {disk : FileSystem} {s : Settings} {finishes : Bool} {p : Phases}
    {e : Failure} {path : String} {paths others : List String} {locks : List (Reading LockFile)}
    (typed : Discovery.projectType disk s.root s.discovery = .ok p.projectType)
    (locked : Discovery.lockFiles disk s.root s.discovery = .ok (paths ++ path :: others))
    (read : List.Forall₂ (fun path lock => readLockFile disk path = .ok lock) paths locks)
    (ended : readLockFile disk path = .error e) : run disk s finishes = .error e :=
  bind_eq_error.mpr (.inr ⟨_,mapError_eq_ok.mpr typed,
    bind_eq_error.mpr (.inr ⟨_,mapError_eq_ok.mpr locked,
    bind_eq_error.mpr (.inl (mapM_eq_error read ended))⟩)⟩)

end Analysis

end DepAudit
