import DepAudit.Proofs.Analysis.Phases
import DepAudit.Proofs.Analysis.Widening
import DepAudit.Proofs.Ranking

/-! The text of a package manifest ends an analysis by its addresses and by its versions alone: whatever else
stands in it, the analysis comes to its end as it does without a manifest, on the same lock files, project
files and facts. -/
namespace DepAudit.Analysis

def packageFileName : String := "Package.swift"

/-- What the text of a package manifest ends an analysis with: an address that cannot be taken apart, or
versions that cannot be compared. -/
inductive EndedBy (facts : List Fact) (text : String) : Failure → Prop
  | address {e : AddressError} (unread : PackageManifest.declarations text = .error e) :
      EndedBy facts text (.address e)
  | version {ds : List Declaration} {e : Failure} (declared : PackageManifest.declarations text = .ok ds)
      (uncompared : mismatches ds facts = .error e) : EndedBy facts text e

variable {disk disk' : FileSystem} {path : String} {content : ByteArray} {facts : List Fact} {s : Settings}

theorem endedBy_iff {text : String} {e : Failure} : EndedBy facts text e ↔
    ((PackageManifest.declarations text).mapError .address >>= fun ds => mismatches ds facts) = .error e := by
  cases declared : PackageManifest.declarations text with
  | error reason =>
    constructor
    · intro ended
      cases ended with
      | address unread =>
        obtain rfl := Except.error.inj (declared.symm.trans unread)
        rfl
      | version read _ => cases declared.symm.trans read
    · intro ended
      obtain rfl := Except.error.inj ended
      exact .address declared
  | ok ds =>
    constructor
    · intro ended
      cases ended with
      | address unread => cases declared.symm.trans unread
      | version read uncompared =>
        obtain rfl := Except.ok.inj (declared.symm.trans read)
        exact uncompared
    · exact fun ended => .version declared ended

theorem manifestIssues_eq_error (opened : disk.bytes path = .ok content) (facts : List Fact)
    (e : Failure) :
    manifestIssues disk facts (some path) = .error e ↔
      (∃ text, Text.decode? content = some text ∧ EndedBy facts text e) ∨
        (Text.decode? content = none ∧ disk.encodes path = false ∧ e = .unencodable) := by
  cases decoded : Text.decode? content with
  | none =>
    have failed : Analysis.readManifest disk path = Reading.ofFault disk ⟨.notUtf8,some path⟩ := by
      rw [Analysis.readManifest,FileSystem.readManifest,opened]
      dsimp only
      rw [decoded]
      rfl
    rw [manifestIssues,failed,Reading.ofFault_eq]
    cases encodes : disk.encodes path with
    | true =>
      rw [if_pos rfl]
      simp [bind,Except.bind,pure,Except.pure]
    | false =>
      rw [if_neg Bool.false_ne_true]
      simp [bind,Except.bind,eq_comm]
  | some text =>
    have read : Analysis.readManifest disk path =
        Reading.keep disk path ((PackageManifest.declarations text).mapError .address) := by
      rw [Analysis.readManifest,FileSystem.readManifest,opened]
      dsimp only
      rw [decoded]
      rfl
    have known : (∃ t, some text = some t ∧ EndedBy facts t e) ∨ (some text = none ∧
        disk.encodes path = false ∧ e = .unencodable) ↔ EndedBy facts text e := by simp
    rw [manifestIssues,read,known,endedBy_iff]
    cases PackageManifest.declarations text with
    | error reason =>
      exact ⟨fun ended => congrArg _ (Except.error.inj ended),fun ended => congrArg _ (Except.error.inj ended)⟩
    | ok ds =>
      refine (bind_eq_error (x := mismatches ds facts)).trans ⟨?_,fun ended => .inl ended⟩
      rintro (ended | ⟨_,_,last⟩)
      · exact ended
      · cases last

/-- A walk comes to the directory that it starts from. -/
theorem root_visited {root : String} {entries : List (String × Entry)} {vs : List Visit}
    (walked : Discovery.walk disk root {} = .ok vs) (opened : disk.open? root = .ok (.directory entries)) :
    ⟨root,Entry.fileNames entries⟩ ∈ vs := by
  obtain ⟨_,_,gone⟩ := bind_eq_ok.mp walked
  obtain ⟨_,_,short,_⟩ := FileSystem.open?_eq_ok.mp opened
  rcases FileSystem.walk_eq_ok.mp gone with ⟨nothing,_⟩ | ⟨others,openedToo,gone⟩
  · rw [FileSystem.list?,opened] at nothing
    cases nothing
  · obtain rfl := Entry.directory.inj (Except.ok.inj (opened.symm.trans openedToo))
    rcases Entry.visits_directory_eq_ok.mp gone with ⟨long,_⟩ | ⟨_,later,_,rfl⟩
    · exact absurd short (Nat.not_le.mpr long)
    · exact List.mem_cons_self ..

theorem projectType_ends {root : String} {old : ProjectType}
    (typed : Discovery.projectType disk root {} = .ok old) (disk' : FileSystem) :
    ∃ new, Discovery.projectType disk' root {} = .ok new := by
  obtain ⟨_,checked,_⟩ := bind_eq_ok.mp typed
  rw [Discovery.projectType,checked]
  cases disk'.list? root with
  | none => exact ⟨_,rfl⟩
  | some entries =>
    simp only [Discovery.anyEndsWith_text,bind,Except.bind]
    split
    · exact ⟨_,rfl⟩
    · split
      · exact ⟨_,rfl⟩
      · split <;> exact ⟨_,rfl⟩

theorem manifest_found {root : String} (wide : Widened packageFileName content disk disk' root root)
    (short : (FilePath.join root packageFileName).utf8ByteSize ≤ Entry.maxPathSize) :
    Discovery.manifest? disk' root {} = .ok (some (FilePath.join root packageFileName)) ∧
      disk'.bytes (FilePath.join root packageFileName) = .ok content := by
  have opened : disk'.open? (FilePath.join root packageFileName) = .ok (.file content) := by
    rw [wide.open?_join (by decide +kernel),if_neg (Nat.not_lt.mpr short)]
  have isFile : disk'.isFile (FilePath.join root packageFileName) = true := by
    rw [FileSystem.isFile,opened]
  refine ⟨congrArg Except.ok (if_pos isFile),?_⟩
  rw [FileSystem.bytes,opened]

/-- The imports are scanned whatever the files are. -/
theorem scanImports_ends {file : String} (wide : Widened file content disk disk' s.root path)
    (standard : s.discovery = {}) (unlimited : s.scan = {}) (names : List String) (finishes : Bool) :
    ∃ scan, scanImports disk' s names finishes = .ok scan ∧
      ∀ found ∈ scan, ∀ p ∈ found.metrics, 0 ≤ p.2.total := by
  rw [scanImports,standard,unlimited]
  split
  · have ends : ({} : DiscoverySettings).sourceEndings.elements = .ok [.text ".swift"] := rfl
    have excluded : ({} : DiscoverySettings).excluded.elements =
      .ok [.text ".build",.text "DerivedData",.text "Pods",.text "Carthage"] := rfl
    obtain ⟨_,paths,_,sources,_⟩ := wide.sourceFiles ends excluded
    have scanned : Imports.scan disk' s.root names [.text ".swift"]
        [.text ".build",.text "DerivedData",.text "Pods",.text "Carthage"] ⟨.int 8,.null,finishes⟩ =
        .ok (Imports.scanFiles disk' names paths : ImportScan Float) := by
      refine bind_eq_ok.mpr ⟨_,rfl,bind_eq_ok.mpr ⟨paths,mapError_eq_ok.mpr sources,?_⟩⟩
      by_cases none : paths.isEmpty = true
      · rw [if_pos none]
        rfl
      · rw [if_neg none]
        rfl
    refine ⟨some (Imports.scanFiles disk' names paths),bind_eq_ok.mpr ⟨_,mapError_eq_ok.mpr ends,
      bind_eq_ok.mpr ⟨_,mapError_eq_ok.mpr excluded,?_⟩⟩,?_⟩
    · rw [scanned]
      rfl
    · intro found same
      obtain rfl := Option.some.inj same
      exact Imports.total_nonneg disk' names paths
  · exact ⟨none,rfl,nofun⟩

def Phases.withManifest (p : Phases) (projectType : ProjectType) (path : String)
    (scan : Option (ImportScan Float)) (scores : List (Score Float)) (issues : List Issue) : Phases :=
  { p with projectType, manifestPath := some path, manifestIssues := issues, scan, scores }

/-- A package manifest put at the root of a project ends its analysis exactly when the addresses of its text
cannot be taken apart or its versions cannot be compared, and then it does so instead of leaving an issue. An
analysis that comes to its end is of the same lock files, project files and facts as the one without the
manifest. -/
theorem package_text_ends_analysis_iff (disk disk' : FileSystem) (s : Settings) (finishes : Bool)
    (r : AnalysisResult) (entries : List (String × Entry)) (content : ByteArray)
    (discovery : s.discovery = {}) (scan : s.scan = {}) (ranking : s.ranking = .standard)
    (sound : disk.WellFormed) (opened : disk.open? s.root = .ok (.directory entries))
    (gains : disk.Gains packageFileName content s.root disk')
    (short : (FilePath.join s.root packageFileName).utf8ByteSize ≤ Entry.maxPathSize)
    (ran : run disk s finishes = .ok r) :
    (∀ e, run disk' s finishes = .error e ↔
      (∃ text, Text.decode? content = some text ∧ EndedBy r.facts text e) ∨
        (Text.decode? content = none ∧ disk.encodes (FilePath.join s.root packageFileName) = false ∧
          e = .unencodable)) ∧
    ∀ r', run disk' s finishes = .ok r' →
      r'.lockFiles = r.lockFiles ∧ r'.projects = r.projects ∧ r'.facts = r.facts := by
  obtain ⟨p,done,rfl⟩ := run_eq_ok_iff.mp ran
  have typed := done.projectType
  have lockPaths := done.lockPaths
  have projectPaths := done.projectPaths
  rw [discovery] at typed lockPaths projectPaths
  obtain ⟨vs,walked,_⟩ := bind_eq_ok.mp projectPaths
  have wide : Widened packageFileName content disk disk' s.root s.root :=
    widened_of_gains sound walked (root_visited walked opened) gains
  obtain ⟨found,bytes⟩ := manifest_found wide short
  generalize FilePath.join s.root packageFileName = path at found bytes ⊢
  obtain ⟨projectType,typed'⟩ := projectType_ends typed disk'
  obtain ⟨sameLocks,unlisted,_⟩ := wide.lockFiles lockPaths
  have lockPaths' := unlisted (by decide)
  obtain ⟨sameProjects,projectPaths'⟩ := wide.projectFiles (by decide) projectPaths
  have locks := forall₂_ok_congr (fun file listed => readLockFile_congr gains.strays (sameLocks file listed))
    done.locks
  have projects := forall₂_ok_congr
    (fun file listed => readProject_congr gains.strays (sameProjects file listed)) done.projects
  -- The manifest is source text too: the scan and the scores may differ, but they come to an end.
  obtain ⟨scan',scanned,counted⟩ := scanImports_ends wide discovery scan (p.names s) finishes
  obtain ⟨scores,ranked⟩ := rank_standard ranking done.scores counted
  let after := p.withManifest projectType path scan' scores
  have ends {issues : List Issue} (compared : manifestIssues disk' (p.facts s) (some path) = .ok issues) :
      run disk' s finishes = .ok ((after issues).result s) := by
    refine run_eq_ok_iff.mpr ⟨after issues,?_,rfl⟩
    exact ⟨discovery ▸ typed',discovery ▸ lockPaths',locks,discovery ▸ found,compared,done.pinnedMetrics,
      discovery ▸ projectPaths',projects,scanned,ranked⟩
  have fails {e : Failure} (compared : manifestIssues disk' (p.facts s) (some path) = .error e) :
      run disk' s finishes = .error e :=
    run_eq_error_of_manifestIssues (p := after []) (discovery ▸ typed') (discovery ▸ lockPaths') locks
      (discovery ▸ found) compared
  constructor
  · intro e
    have same : disk'.encodes path = disk.encodes path := by
      rw [FileSystem.encodes,FileSystem.encodes,gains.strays]
    refine Iff.trans ?_ (same ▸ manifestIssues_eq_error bytes (p.facts s) e)
    refine ⟨fun ended => ?_,fails⟩
    cases compared : manifestIssues disk' (p.facts s) (some path) with
    | error reason =>
      obtain rfl := Except.error.inj ((fails compared).symm.trans ended)
      rfl
    | ok issues => cases (ends compared).symm.trans ended
  · intro r' ran'
    cases compared : manifestIssues disk' (p.facts s) (some path) with
    | error reason => cases (fails compared).symm.trans ran'
    | ok issues =>
      obtain rfl := Except.ok.inj ((ends compared).symm.trans ran')
      exact ⟨rfl,rfl,rfl⟩

def declaredTree (text : String) : FileSystem :=
  Entry.asTop <| .directory [(packageFileName,.file text.toUTF8)]

theorem unclosed_bracket_ends_analysis : ∃ r, run (Entry.directory []).asTop {} true = .ok r ∧
    run (declaredTree ".package(url: \"https://[\")\n") {} true =
      .error (.address .unbalancedBrackets) := by
  have sound : (Entry.directory []).asTop.WellFormed :=
    (Entry.wellFormed_of_check _ (by decide +kernel)).asTop
  have opened : (Entry.directory []).asTop.open? "." = .ok (.directory []) := by
    have names : FilePath.components (FilePath.join "/" ".") = ["","."] := by decide +kernel
    refine FileSystem.open?_eq_ok.mpr ⟨by decide +kernel,by decide,by decide +kernel,?_⟩
    change Entry.follow [] (.directory []) (FilePath.components (FilePath.join "/" ".")) = _
    rw [names]
    rfl
  have place : (Entry.directory []).asTop.place "." = [] := by decide +kernel
  have gains (text : String) : (Entry.directory []).asTop.Gains packageFileName text.toUTF8 "."
      (declaredTree text) :=
    ⟨place ▸ @Entry.Gains.here _ _ [] [] nofun,rfl,rfl⟩
  have decoded : Text.decode? ".package(url: \"https://[\")\n".toUTF8 =
      some ".package(url: \"https://[\")\n" := by decide +kernel
  have unread : PackageManifest.declarations ".package(url: \"https://[\")\n" =
      .error .unbalancedBrackets := by decide +kernel
  obtain ⟨r,ran⟩ : ∃ r, run (Entry.directory []).asTop {} true = .ok r :=
    exists_eq_ok (by decide +kernel)
  obtain ⟨ended,_⟩ := package_text_ends_analysis_iff (Entry.directory []).asTop (declaredTree _) {}
    true r [] _ rfl rfl rfl sound opened (gains _) (by decide +kernel) ran
  exact ⟨r,ran,(ended _).mpr (.inl ⟨_,decoded,.address unread⟩)⟩

end DepAudit.Analysis
