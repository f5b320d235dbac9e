import DepAudit.Proofs.Analysis.Phases
import DepAudit.Proofs.Conflict
import DepAudit.Proofs.FileTree.Places
import DepAudit.Proofs.Graph.Views
import DepAudit.Proofs.RequirementCheck
import DepAudit.Proofs.StableSort
import Mathlib

/-! How many issues of each kind an analysis reports, and in which order: every kind is counted by what it
speaks of, and sorting by severity moves nothing else. -/
namespace DepAudit

def Issue.tally (type : IssueType) (issues : List Issue) : Nat := issues.countP (·.type = type)

def AnalysisResult.targetMetrics (r : AnalysisResult) : Table String Metrics :=
  Table.ofPairs (r.projects.map fun p => (Analysis.reported r.root p.1,p.2.metrics))

def repeatedNames (facts : List Fact) : Finset String :=
  (facts.map Fact.name).toFinset.filter fun name => 1 < (facts.map Fact.name).count name

namespace Issue

variable {α : Type} {type : IssueType}

theorem tally_append (front back : List Issue) :
    tally type (front ++ back) = tally type front + tally type back := List.countP_append ..

theorem tally_map {f : α → Issue} (kind : IssueType) (typed : ∀ x, (f x).type = kind) (xs : List α) :
    tally type (xs.map f) = if kind = type then xs.length else 0 := by
  rw [tally,List.countP_map]
  split
  · rename_i same
    exact List.countP_eq_length.mpr fun x _ => by simp [typed,same]
  · rename_i different
    exact List.countP_eq_zero.mpr fun x _ => by simp [typed,different]

theorem tally_eq_zero {issues : List Issue} (others : ∀ i ∈ issues, i.type ≠ type) :
    tally type issues = 0 := List.countP_eq_zero.mpr fun i member => by simp [others i member]

theorem tally_pos_iff {issues : List Issue} : 0 < tally type issues ↔ ∃ i ∈ issues, i.type = type := by
  simp [tally,List.countP_pos_iff]

theorem type_ofMismatch (m : Mismatch) :
    (ofMismatch m).type = .missingDependency ∨ (ofMismatch m).type = .requirementMismatch := by
  rw [ofMismatch]
  split
  · exact .inl rfl
  · exact .inr rfl

theorem mem_unused {scan : ImportScan α} {names : List String} {i : Issue} (member : i ∈ unused scan names) :
    ∃ name ∈ names, i = ofUnused name scan.filesScanned := by
  rw [unused] at member
  split at member
  · cases member
  · obtain ⟨name,kept,same⟩ := List.mem_map.mp member
    exact ⟨name,(List.mem_filter.mp kept).1,same.symm⟩

theorem tally_sort (issues : List Issue) : tally type (sort issues) = tally type issues :=
  (List.mergeSort_perm ..).countP_eq _

end Issue

namespace Reading

variable {α : Type}

def failure? : Reading α → Option ManifestError
  | used _ _ => none
  | failed e => some e

/-- The issues of readings are those of their failures and those of their contents. -/
theorem issues_perm (f : String → α → List Issue) (readings : List (Reading α)) :
    (readings.flatMap (issues f)).Perm ((readings.filterMap failure?).map .ofManifestError ++
      (readings.filterMap content?).flatMap fun c => f c.1 c.2) := by
  induction readings with
  | nil => exact .nil
  | cons reading readings ih =>
    cases reading with
    | used path content =>
      refine (ih.append_left (f path content)).trans ?_
      rw [← List.append_assoc]
      refine (List.perm_append_comm.append_right _).trans ?_
      rw [List.append_assoc]
      exact .rfl
    | failed e => exact ih.cons _

theorem tally_issues (f : String → α → List Issue) (type : IssueType) (readings : List (Reading α)) :
    Issue.tally type (readings.flatMap (issues f)) =
      (if .parseError = type then (readings.filterMap failure?).length else 0) +
        ((readings.filterMap content?).map fun c => Issue.tally type (f c.1 c.2)).sum := by
  rw [Issue.tally,(issues_perm f readings).countP_eq,List.countP_append,List.countP_flatMap]
  exact congrArg (· + _) (Issue.tally_map .parseError (fun _ => rfl) _)

/-- Reading keeps the faults of all items, in their order. -/
theorem filterMap_failure? {β : Type} {fault? : β → Option ManifestError} {read : β → Reading α → Prop}
    (faulty : ∀ x reading, read x reading → reading.failure? = fault? x) {xs : List β}
    {readings : List (Reading α)} (all : List.Forall₂ read xs readings) :
    readings.filterMap failure? = xs.filterMap fault? := by
  induction all with
  | nil => rfl
  | cons first _ ih => rw [List.filterMap_cons,List.filterMap_cons,faulty _ _ first,ih]

theorem exists_read {β : Type} {read : β → Reading α → Prop} {xs : List β} {readings : List (Reading α)}
    (all : List.Forall₂ read xs readings) {c : String × α} (member : c ∈ readings.filterMap content?) :
    ∃ x reading, read x reading ∧ reading.content? = some c := by
  obtain ⟨reading,inside,used⟩ := List.mem_filterMap.mp member
  obtain ⟨x,_,first⟩ := exists_of_forall₂ all inside
  exact ⟨x,reading,first,used⟩

/-- Where readings keep their paths, those of the contents are among them, in their order. -/
theorem paths_sublist {read : String → Reading α → Prop}
    (kept : ∀ path reading c, read path reading → content? reading = some c → c.1 = path)
    {paths : List String} {readings : List (Reading α)} (all : List.Forall₂ read paths readings) :
    ((readings.filterMap content?).map Prod.fst).Sublist paths := by
  induction all with
  | nil => exact .slnil
  | @cons path reading paths readings first _ ih =>
    rw [List.filterMap_cons]
    cases used : content? reading with
    | none => exact ih.cons path
    | some c =>
      rw [List.map_cons,kept path reading c first used]
      exact ih.cons_cons path

end Reading

namespace Conflict

theorem nodup_duplicates (facts : List Fact) (manifest : String) :
    ((duplicates facts manifest).map dependency).Nodup := by
  rw [names_duplicates]
  exact (nodup_eraseDups _).filter _

/-- The duplicates of a lock file are its repeated names. -/
theorem mem_duplicates {facts : List Fact} {manifest name : String} :
    name ∈ (duplicates facts manifest).map dependency ↔ name ∈ repeatedNames facts := by
  have counted : (factsOf facts name).length = (facts.map Fact.name).count name := by
    rw [factsOf,← List.countP_eq_length_filter,List.count_eq_countP,List.countP_map]
    rfl
  rw [mem_names_duplicates,repeatedNames,Finset.mem_filter,List.mem_toFinset,counted,iff_and_self]
  exact fun several => List.count_pos_iff.mp (Nat.zero_lt_of_lt several)

theorem length_duplicates (facts : List Fact) (manifest : String) :
    (duplicates facts manifest).length = (repeatedNames facts).card := by
  have members : ((duplicates facts manifest).map dependency).toFinset = repeatedNames facts := by
    ext name
    rw [List.mem_toFinset,mem_duplicates]
  rw [← members,List.toFinset_card_of_nodup (nodup_duplicates facts manifest),List.length_map]

end Conflict

namespace Analysis

def lockFault? (disk : FileSystem) (path : String) : Option ManifestError :=
  match disk.readManifest path with
  | .error e => some e
  | .ok text =>
    match LockFile.read text (some path) with
    | .error (.manifest e) => some e
    | _ => none

def lockFile? (disk : FileSystem) (path : String) : Option (String × LockFile) :=
  match disk.readManifest path with
  | .error _ => none
  | .ok text =>
    match LockFile.read text (some path) with
    | .error _ => none
    | .ok file => some (path,file)

def readFault? (disk : FileSystem) (path : String) : Option ManifestError :=
  match disk.readManifest path with
  | .error e => some e
  | .ok _ => none

def Phases.faults (p : Phases) (disk : FileSystem) : List ManifestError :=
  p.lockPaths.filterMap (lockFault? disk) ++ p.manifestPath.toList.filterMap (readFault? disk) ++
    p.projectPaths.filterMap (readFault? disk)

def declared (disk : FileSystem) (manifest : Option String) : List Declaration :=
  match manifest.map (readManifest disk) with
  | some (.ok (.used _ ds)) => ds
  | _ => []

variable {disk : FileSystem} {s : Settings}

/-- A lock file is read as one or with its fault, and no other way. -/
theorem readLockFile_cases {path : String} {lock : Reading LockFile}
    (read : readLockFile disk path = .ok lock) :
    (∃ file, lock = .used path file ∧ lockFile? disk path = some (path,file) ∧
      lockFault? disk path = none) ∨
    ∃ e, lock = .failed e ∧ lockFile? disk path = none ∧ lockFault? disk path = some e := by
  rw [readLockFile] at read
  rw [lockFile?,lockFault?]
  cases text : disk.readManifest path with
  | error e =>
    rw [text] at read
    exact .inr ⟨e,Reading.eq_failed_of_ofFault read,rfl,rfl⟩
  | ok content =>
    rw [text] at read
    change Reading.keep disk path (LockFile.read content (some path)) = .ok lock at read
    cases parsed : LockFile.read content (some path) with
    | ok file =>
      rw [parsed] at read
      refine .inl ⟨file,(Except.ok.inj read).symm,?_⟩
      simp [parsed]
    | error failure =>
      rw [parsed] at read
      cases failure with
      | manifest e =>
        refine .inr ⟨e,Reading.eq_failed_of_ofFault read,?_⟩
        simp [parsed]
      | _ => cases read

theorem failure_readLockFile (path : String) (lock : Reading LockFile)
    (read : readLockFile disk path = .ok lock) : lock.failure? = lockFault? disk path := by
  rcases readLockFile_cases read with ⟨file,rfl,_,faultless⟩ | ⟨e,rfl,_,faulty⟩
  · rw [faultless]
    rfl
  · rw [faulty]
    rfl

theorem failure_readProject (path : String) (project : Reading ProjectGraph)
    (read : readProject disk s path = .ok project) : project.failure? = readFault? disk path := by
  rw [readProject] at read
  rw [readFault?]
  cases text : disk.readManifest path with
  | error e =>
    rw [text] at read
    obtain rfl := Reading.eq_failed_of_ofFault read
    rfl
  | ok content =>
    rw [text] at read
    obtain ⟨m,_,same⟩ := bind_eq_ok.mp read
    obtain rfl := Except.ok.inj same
    rfl

theorem cycles_of_metrics {g : Graph} {m : Metrics} (measured : metrics s g = .ok m) :
    m.cycles = g.cycles.length := by
  obtain ⟨_,_,_,rfl⟩ := Metrics.exists_of_compute (mapError_eq_ok.mp measured)
  rfl

theorem content_readProject {path : String} {project : Reading ProjectGraph}
    (read : readProject disk s path = .ok project) {c : String × ProjectGraph}
    (used : project.content? = some c) :
    c.1 = path ∧ c.2.metrics.cycles = c.2.graph.cycles.length := by
  rw [readProject] at read
  cases text : disk.readManifest path with
  | error e =>
    rw [text] at read
    obtain rfl := Reading.eq_failed_of_ofFault read
    cases used
  | ok content =>
    rw [text] at read
    obtain ⟨m,measured,same⟩ := bind_eq_ok.mp read
    obtain rfl := Except.ok.inj same
    obtain rfl := Option.some.inj used
    exact ⟨rfl,cycles_of_metrics measured⟩

theorem mem_firstByName {facts : List Fact} {f : Fact} (member : f ∈ firstByName facts) : f ∈ facts := by
  induction facts with
  | nil => cases member
  | cons g facts ih =>
    rcases List.mem_cons.mp member with rfl | later
    · exact List.mem_cons_self ..
    · exact .tail g (ih (List.mem_filter.mp later).1)

/-- Mismatches are about different facts, in the order of these. -/
theorem packages_of_mismatches {ds : List Declaration} {facts : List Fact} {ms : List Mismatch}
    (found : mismatches ds facts = .ok ms) :
    (ms.map Mismatch.package).Sublist ((firstByName facts).map Fact.name) := by
  rw [mismatches] at found
  split at found
  · obtain rfl := Except.ok.inj found
    exact List.nil_sublist _
  · obtain ⟨each,compared,same⟩ := bind_eq_ok.mp (mapError_eq_ok.mp found)
    obtain rfl := Except.ok.inj same
    have all := mapM_eq_ok.mp compared
    generalize firstByName facts = firsts at all ⊢
    clear compared same found
    induction all with
    | nil => exact .slnil
    | @cons f m? _ _ first _ ih =>
      cases m? with
      | none => exact ih.cons f.name
      | some m =>
        rw [List.filterMap_cons,List.map_cons,← (RequirementCheck.named_of_mismatch? first).1]
        exact ih.cons_cons m.package

/-- The issues of the package manifest: its fault, or its conflicts and its mismatches. -/
theorem manifestIssues_parts {facts : List Fact} {manifest : Option String} {issues : List Issue}
    (compared : manifestIssues disk facts manifest = .ok issues) : ∃ ms : List Mismatch,
      (ms.map Mismatch.package).Sublist ((firstByName facts).map Fact.name) ∧
      issues = (manifest.toList.filterMap (readFault? disk)).map .ofManifestError ++
        (Conflict.ofDeclarations (declared disk manifest)).map .ofConflict ++ ms.map .ofMismatch := by
  cases manifest with
  | none =>
    obtain rfl := Except.ok.inj compared
    exact ⟨[],List.nil_sublist _,rfl⟩
  | some path =>
    obtain ⟨reading,read,rest⟩ := bind_eq_ok.mp compared
    cases text : disk.readManifest path with
    | error e =>
      have failed := read
      rw [readManifest,text] at failed
      obtain rfl := Reading.eq_failed_of_ofFault failed
      obtain rfl := Except.ok.inj rest
      refine ⟨[],List.nil_sublist _,?_⟩
      simp [readFault?,text,declared,read,Conflict.ofDeclarations,Table.group]
    | ok content =>
      have kept := read
      rw [readManifest,text] at kept
      change Reading.keep disk path ((PackageManifest.declarations content).mapError .address) = _ at kept
      cases parsed : PackageManifest.declarations content with
      | error e =>
        rw [parsed] at kept
        cases kept
      | ok ds =>
        rw [parsed] at kept
        obtain rfl := Except.ok.inj kept
        obtain ⟨ms,mismatched,same⟩ := bind_eq_ok.mp rest
        obtain rfl := Except.ok.inj same
        refine ⟨ms,packages_of_mismatches mismatched,?_⟩
        simp [readFault?,text,declared,read]

namespace Phases

variable {p : Phases} {finishes : Bool}

inductive Origin (p : Phases) (s : Settings) : Issue → Prop
  | fault (e : ManifestError) : Origin p s (.ofManifestError e)
  | duplicate (c : Conflict) : Origin p s (.ofDuplicate c)
  | conflict (c : Conflict) : Origin p s (.ofConflict c)
  | cycle (names : List String) : Origin p s (.ofCycle names)
  | mismatch (m : Mismatch) (named : m.package ∈ (p.facts s).map Fact.name) : Origin p s (.ofMismatch m)
  | unused (name : String) (files : Nat) (named : name ∈ p.names s) : Origin p s (.ofUnused name files)

theorem origin_of_mem_produced (done : p.Completed s disk finishes) {i : Issue}
    (member : i ∈ p.produced s) : p.Origin s i := by
  obtain ⟨ms,packages,parts⟩ := manifestIssues_parts done.manifestIssues
  have named (m : Mismatch) (listed : m ∈ ms) : m.package ∈ (p.facts s).map Fact.name := by
    obtain ⟨f,member,same⟩ := List.mem_map.mp (packages.subset (List.mem_map_of_mem listed))
    exact same ▸ List.mem_map_of_mem (mem_firstByName member)
  have fromReadings {α : Type} {f : String → α → List Issue} {readings : List (Reading α)}
      (inside : i ∈ readings.flatMap (Reading.issues f)) :
      (∃ e, i = .ofManifestError e) ∨ ∃ path content, i ∈ f path content := by
    obtain ⟨reading,_,inside⟩ := List.mem_flatMap.mp inside
    cases reading with
    | used path content => exact .inr ⟨path,content,inside⟩
    | failed e => exact .inl ⟨e,List.mem_singleton.mp inside⟩
  rw [produced,parts] at member
  simp only [List.mem_append] at member
  rcases member with (((inside | inside) | ((inside | inside) | inside)) | inside) | inside
  · rcases fromReadings inside with ⟨e,rfl⟩ | ⟨path,file,inside⟩
    · exact .fault e
    · obtain ⟨c,_,rfl⟩ := List.mem_map.mp inside
      exact .duplicate c
  · obtain ⟨c,_,rfl⟩ := List.mem_map.mp inside
    exact .conflict c
  · obtain ⟨e,_,rfl⟩ := List.mem_map.mp inside
    exact .fault e
  · obtain ⟨c,_,rfl⟩ := List.mem_map.mp inside
    exact .conflict c
  · obtain ⟨m,listed,rfl⟩ := List.mem_map.mp inside
    exact .mismatch m (named m listed)
  · rcases fromReadings inside with ⟨e,rfl⟩ | ⟨path,project,inside⟩
    · exact .fault e
    · obtain ⟨c,_,rfl⟩ := List.mem_map.mp inside
      exact .cycle _
  · cases scanned : p.scan with
    | none =>
      rw [scanned] at inside
      cases inside
    | some scan =>
      rw [scanned] at inside
      obtain ⟨name,listed,rfl⟩ := Issue.mem_unused inside
      exact .unused name _ listed

theorem tally_produced (done : p.Completed s disk finishes) {type : IssueType}
    (notMissing : type ≠ .missingDependency) (notUnmet : type ≠ .requirementMismatch)
    (notUnused : type ≠ .unusedDependency) :
    Issue.tally type (p.produced s) =
      (if type = .parseError then (p.faults disk).length else 0) +
      (if .duplicateDependency = type then
        (p.lockFiles.map fun l => (repeatedNames l.2.facts).card).sum else 0) +
      (if .versionConflict = type then (Conflict.ofFacts (p.facts s)).length +
        (Conflict.ofDeclarations (declared disk p.manifestPath)).length else 0) +
      (if .circularDependency = type then
        ((p.projects.filterMap Reading.content?).map fun c => c.2.graph.cycles.length).sum else 0) := by
  obtain ⟨ms,_,parts⟩ := manifestIssues_parts done.manifestIssues
  have failed : Issue.tally type ((p.manifestPath.toList.filterMap (readFault? disk)).map .ofManifestError) =
      if .parseError = type then (p.manifestPath.toList.filterMap (readFault? disk)).length else 0 :=
    Issue.tally_map .parseError (fun _ => rfl) _
  have mismatched : Issue.tally type (ms.map .ofMismatch) = 0 := by
    refine Issue.tally_eq_zero fun i member same => ?_
    obtain ⟨m,_,rfl⟩ := List.mem_map.mp member
    exact (Issue.type_ofMismatch m).elim (fun kind => notMissing (same.symm.trans kind))
      fun kind => notUnmet (same.symm.trans kind)
  have unused : Issue.tally type ((p.scan.map (Issue.unused · (p.names s))).getD []) = 0 := by
    refine Issue.tally_eq_zero fun i member same => ?_
    cases scanned : p.scan with
    | none =>
      rw [scanned] at member
      cases member
    | some scan =>
      rw [scanned] at member
      obtain ⟨name,_,rfl⟩ := Issue.mem_unused member
      exact notUnused same.symm
  have duplicates (l : String × LockFile) : Issue.tally type (duplicateIssues s.root l.1 l.2) =
      if .duplicateDependency = type then (repeatedNames l.2.facts).card else 0 := by
    rw [duplicateIssues,Issue.tally_map .duplicateDependency fun _ => rfl,Conflict.length_duplicates]
  have cycles (c : String × ProjectGraph) : Issue.tally type (cycleIssues c.2) =
      if .circularDependency = type then c.2.graph.cycles.length else 0 := by
    rw [cycleIssues,Issue.tally_map .circularDependency fun _ => rfl]
  have conflicts (cs : List Conflict) : Issue.tally type (cs.map .ofConflict) =
      if .versionConflict = type then cs.length else 0 := Issue.tally_map .versionConflict (fun _ => rfl) cs
  have faultyLocks : p.locks.filterMap Reading.failure? = p.lockPaths.filterMap (lockFault? disk) :=
    Reading.filterMap_failure? failure_readLockFile done.locks
  have faultyProjects :
      p.projects.filterMap Reading.failure? = p.projectPaths.filterMap (readFault? disk) :=
    Reading.filterMap_failure? failure_readProject done.projects
  rw [produced,parts]
  simp only [Issue.tally_append,Reading.tally_issues,failed,mismatched,unused,duplicates,cycles,conflicts,
    faultyLocks,faultyProjects]
  cases type with
  | missingDependency => exact absurd rfl notMissing
  | requirementMismatch => exact absurd rfl notUnmet
  | unusedDependency => exact absurd rfl notUnused
  | parseError =>
    simp [faults]
    omega
  | _ => simp [lockFiles]

theorem isError_of_mem_produced (done : p.Completed s disk finishes) {i : Issue}
    (member : i ∈ p.produced s) :
    i.isError = true ↔ i.type = .parseError ∨ i.type = .circularDependency := by
  cases origin_of_mem_produced done member with
  | fault e => exact ⟨fun _ => .inl rfl,fun _ => rfl⟩
  | cycle names => exact ⟨fun _ => .inr rfl,fun _ => rfl⟩
  | mismatch m _ =>
    rw [Issue.ofMismatch]
    split <;> exact ⟨nofun,nofun⟩
  | _ => exact ⟨nofun,nofun⟩

theorem nodup_reported (sound : disk.WellFormed) (done : p.Completed s disk finishes) :
    (p.projectPaths.map (reported s.root)).Nodup := by
  obtain ⟨vs,gone,found⟩ := bind_eq_ok.mp done.projectPaths
  obtain ⟨bundles,kept,found⟩ := bind_eq_ok.mp found
  obtain ⟨_,_,gone⟩ := bind_eq_ok.mp gone
  obtain ⟨start,placed,once⟩ := FileSystem.walk_places sound gone
  obtain ⟨_,rfl⟩ := filterM_eq_ok.mp kept
  obtain ⟨_,sorted⟩ := Entry.wantedFiles_eq_ok.mp found
  have fewer : (vs.filter fun v => isYes (Discovery.isBundle s.discovery v.path)).Sublist vs :=
    List.filter_sublist
  rw [sorted]
  refine ((List.mergeSort_perm ..).map (reported s.root)).nodup_iff.mpr ?_
  exact Entry.nodup_relative_chosenFiles (fun v member => placed v (fewer.subset member))
    (once.sublist (fewer.map Visit.path)) _

theorem targetMetrics_result (sound : disk.WellFormed) (done : p.Completed s disk finishes) :
    (p.result s).targetMetrics = (p.projects.filterMap Reading.content?).map fun c =>
      (reported s.root c.1,c.2.metrics) := by
  have paths := Reading.paths_sublist
    (fun path reading c read used => (content_readProject read used).1) done.projects
  have apart : (((p.projects.filterMap Reading.content?).map fun c =>
      (reported s.root c.1,c.2.metrics)).map Prod.fst).Nodup := by
    have listed := (nodup_reported sound done).sublist (paths.map (reported s.root))
    simpa only [List.map_map,Function.comp_def] using listed
  exact Table.ofPairs_of_nodup apart

end Phases

structure Accounted (disk : FileSystem) (s : Settings) (p : Phases) (r : AnalysisResult) : Prop where
  parseErrors : Issue.tally .parseError r.issues = (p.faults disk).length
  cycles : Issue.tally .circularDependency r.issues = (r.targetMetrics.map fun m => m.2.cycles).sum
  conflicts : Issue.tally .versionConflict r.issues =
    r.conflicts.length + (Conflict.ofDeclarations (declared disk p.manifestPath)).length
  duplicates : Issue.tally .duplicateDependency r.issues =
    (r.lockFiles.map fun l => (repeatedNames l.2.facts).card).sum
  errors : r.hasErrors = true ↔
    0 < Issue.tally .parseError r.issues ∨ 0 < Issue.tally .circularDependency r.issues
  ordered : r.issues.Pairwise fun i j => j.severity.level ≤ i.severity.level
  stable : ∀ severity : Severity,
    r.issues.filter (·.severity = severity) = (p.produced s).filter (·.severity = severity)

/-- Whatever an analysis comes upon, its issues of each kind are as many as there are things of that kind
to report, and they stand by severity, else in the order in which the phases came upon them. -/
theorem issues_account_for_phases (disk : FileSystem) (s : Settings) (finishes : Bool) (r : AnalysisResult)
    (sound : disk.WellFormed) (ran : run disk s finishes = .ok r) :
    ∃ p : Phases, p.Completed s disk finishes ∧ r = p.result s ∧ Accounted disk s p r := by
  obtain ⟨p,done,rfl⟩ := run_eq_ok_iff.mp ran
  have tally (type : IssueType) (notMissing : type ≠ .missingDependency)
      (notUnmet : type ≠ .requirementMismatch) (notUnused : type ≠ .unusedDependency) :=
    (Issue.tally_sort (p.produced s)).trans (Phases.tally_produced done notMissing notUnmet notUnused)
  refine ⟨p,done,rfl,?_,?_,?_,?_,?_,Issue.pairwise_sort _,fun severity => Issue.filter_sort severity _⟩
  · refine (tally .parseError nofun nofun nofun).trans ?_
    simp only [reduceCtorEq,if_false,if_true,Nat.add_zero]
  · refine (tally .circularDependency nofun nofun nofun).trans ?_
    have measured : ∀ c ∈ p.projects.filterMap Reading.content?,
        c.2.metrics.cycles = c.2.graph.cycles.length := fun c member =>
      have ⟨_,_,read,used⟩ := Reading.exists_read done.projects member
      (content_readProject read used).2
    rw [Phases.targetMetrics_result sound done,List.map_map]
    simp only [reduceCtorEq,if_false,if_true,Nat.zero_add]
    exact congrArg List.sum (List.map_congr_left fun c member => (measured c member).symm)
  · refine (tally .versionConflict nofun nofun nofun).trans ?_
    simp only [reduceCtorEq,if_false,if_true,Nat.zero_add,Nat.add_zero]
    rfl
  · refine (tally .duplicateDependency nofun nofun nofun).trans ?_
    simp only [reduceCtorEq,if_false,if_true,Nat.zero_add,Nat.add_zero]
    rfl
  · rw [Issue.tally_pos_iff,Issue.tally_pos_iff,← exists_or,AnalysisResult.hasErrors,List.any_eq_true]
    refine exists_congr fun i => ?_
    rw [← and_or_left]
    refine and_congr_right fun member => Phases.isError_of_mem_produced done ?_
    exact (List.mergeSort_perm ..).mem_iff.mp member

def mixedTree : FileSystem :=
  Entry.asTop <| .directory [
    ("Package.resolved",.file "\x7b\"pins\":[\x7b\"identity\":\"a\",\"location\":\"b\"\x7d,
      \x7b\"identity\":\"a\",\"location\":\"b\"\x7d]\x7d".toUTF8),
    ("Package.swift",.file ⟨#[0xFF]⟩),
    ("App.xcodeproj",.directory [("project.pbxproj",.file
      "0A = \x7bisa = PBXNativeTarget;name = a;dependencies = (0A)\x7d".toUTF8)])]

theorem mixedTree_wellFormed : mixedTree.WellFormed :=
  (Entry.wellFormed_of_check _ (by decide +kernel)).asTop

theorem mixed_tree_is_accounted_for : ∃ r, run mixedTree {} true = .ok r ∧
    ∃ p : Phases, p.Completed {} mixedTree true ∧ r = p.result {} ∧ Accounted mixedTree {} p r := by
  obtain ⟨r,ran⟩ : ∃ r, run mixedTree {} true = .ok r := exists_eq_ok (by decide +kernel)
  exact ⟨r,ran,issues_account_for_phases mixedTree {} true r mixedTree_wellFormed ran⟩

end Analysis

end DepAudit
