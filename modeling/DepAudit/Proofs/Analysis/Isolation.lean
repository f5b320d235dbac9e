import DepAudit.Proofs.Analysis.Phases
import DepAudit.Proofs.Analysis.Widening

/-! One lock file that cannot be used leaves the rest of an analysis as it is: the analysis with that file ends
as the one without it, with one issue more. But the issue has a digest of the path, and so the analysis comes
to no end where the path is not UTF-8. -/
namespace DepAudit

namespace Entry

theorem Gains.keys {file : String} {content : ByteArray} {names : List String}
    {entries entries' : List (String × Entry)}
    (gains : Gains file content names (.directory entries) (.directory entries')) :
    Table.keys entries' = Table.keys entries ∨ ∃ front back,
      Table.keys entries = front ++ back ∧ Table.keys entries' = front ++ file :: back := by
  cases gains with
  | here new => exact .inr ⟨_,_,List.map_append,List.map_append⟩
  | deeper gains => exact .inl (by simp [Table.keys])

end Entry

namespace Analysis

namespace Widened

variable {disk disk' : FileSystem} {root path : String} {content : ByteArray}

theorem projectType (wide : Widened lockFileName content disk disk' root path) :
    Discovery.projectType disk' root {} = Discovery.projectType disk root {} := by
  obtain ⟨_,_,names,opened,opened',gains,_⟩ := wide.start
  obtain ⟨entries,entries',rfl,rfl⟩ := gains.directories
  rw [Discovery.projectType,Discovery.projectType,FileSystem.list?,FileSystem.list?,opened,opened']
  dsimp only
  rcases gains.keys with same | ⟨front,back,before,behind⟩
  · rw [Table.keys,Table.keys] at same
    rw [same]
  · rw [Table.keys] at before behind
    have manifest : (front ++ lockFileName :: back).contains "Package.swift" =
        (front ++ back).contains "Package.swift" := by simp [lockFileName]
    have other (suffix : String) (differs : lockFileName.endsWith suffix = false) :
        (front ++ lockFileName :: back).any (·.endsWith suffix) =
          (front ++ back).any (·.endsWith suffix) := by simp [differs]
    have workspace := other ".xcworkspace" (by decide +kernel)
    have project := other ".xcodeproj" (by decide +kernel)
    simp only [Discovery.anyEndsWith_text,Discovery.isAmong,before,behind,manifest,workspace,project]

theorem scan (wide : Widened lockFileName content disk disk' root path) {endings patterns : List Value}
    (ends : ({} : DiscoverySettings).sourceEndings.elements = .ok endings)
    (excluded : ({} : DiscoverySettings).excluded.elements = .ok patterns) (names : List String)
    (limits : ScanLimits) : (Imports.scan disk' root names endings patterns limits :
      Except Failure (ImportScan Float)) = Imports.scan disk root names endings patterns limits := by
  obtain ⟨paths,paths',sources,sources',unlisted,same⟩ := wide.sourceFiles ends excluded
  obtain rfl : [.text ".swift"] = endings := Except.ok.inj ends
  rw [unlisted (by decide +kernel)] at sources'
  have counts : ∀ file ∈ paths, Imports.countFile disk' names.eraseDups file =
      Imports.countFile disk names.eraseDups file := by
    intro file member
    rw [Imports.countFile,Imports.countFile,FileSystem.text?,FileSystem.text?,same file member]
  have files : (Imports.scanFiles disk' names paths : ImportScan Float) =
      Imports.scanFiles disk names paths := by
    rw [Imports.scanFiles,Imports.scanFiles,
      List.map_congr_left fun file member => congrArg (Prod.mk file) (counts file member)]
  rw [Imports.scan,Imports.scan,sources,sources']
  simp only [Except.mapError,bind,Except.bind,files]

theorem scanImports {s : Settings} (wide : Widened lockFileName content disk disk' s.root path)
    (standard : s.discovery = {}) (names : List String) (finishes : Bool) :
    scanImports disk' s names finishes = scanImports disk s names finishes := by
  rw [Analysis.scanImports,Analysis.scanImports,standard]
  split
  · have ends : ({} : DiscoverySettings).sourceEndings.elements = .ok [.text ".swift"] := rfl
    have excluded : ({} : DiscoverySettings).excluded.elements =
      .ok [.text ".build",.text "DerivedData",.text "Pods",.text "Carthage"] := rfl
    rw [ends,excluded]
    simp only [Except.mapError,bind,Except.bind,wide.scan ends excluded]
  · rfl

theorem manifestIssues {s : Settings} (wide : Widened lockFileName content disk disk' s.root path)
    {facts : List Fact} {manifest : Option String} (found : Discovery.manifest? disk s.root {} = .ok manifest) :
    Analysis.manifestIssues disk' facts manifest = Analysis.manifestIssues disk facts manifest := by
  cases manifest with
  | none => rfl
  | some file =>
    have there : disk.isFile file = true := by
      have chosen := Except.ok.inj found
      split at chosen
      · rename_i isFile
        exact Option.some.inj chosen ▸ isFile
      · cases chosen
    rw [Analysis.manifestIssues,Analysis.manifestIssues,readManifest,readManifest,
      wide.readManifest_of_isFile there,Reading.keep_congr wide.gains.strays]

end Widened

theorem read_manifest_error {text : String} {e : ManifestError}
    (faulty : LockFile.read text none = .error (.manifest e)) (path : Option String) :
    LockFile.read text path = .error (.manifest ⟨e.fault,path⟩) := by
  rw [LockFile.read] at faulty ⊢
  cases parsed : Json.read text with
  | error reason =>
    rw [parsed] at faulty
    cases reason with
    | tooDeep => cases faulty
    | _ =>
      obtain rfl := Failure.manifest.inj (Except.error.inj faulty)
      rfl
  | ok document =>
    rw [parsed] at faulty
    dsimp only at faulty ⊢
    cases shaped : LockFile.ofJson document with
    | error fault =>
      rw [shaped] at faulty
      obtain rfl := Failure.manifest.inj (Except.error.inj faulty)
      rfl
    | ok file =>
      rw [shaped] at faulty
      cases faulty

/-- The one lock file more cannot be used: its path is too long, its bytes are no text, or its text is no
lock file. -/
theorem readLockFile_unusable {disk disk' : FileSystem} {root path : String} {content : ByteArray}
    (wide : Widened lockFileName content disk disk' root path)
    (unusable : ∀ text, Text.decode? content = some text →
      ∃ e, LockFile.read text none = .error (.manifest e)) :
    ∃ fault, readLockFile disk' (FilePath.join path lockFileName) =
      Reading.ofFault disk ⟨fault,some (FilePath.join path lockFileName)⟩ := by
  simp only [← Reading.ofFault_congr wide.gains.strays]
  rw [readLockFile,FileSystem.readManifest,FileSystem.bytes,wide.open?_join (by decide +kernel)]
  by_cases long : Entry.maxPathSize < (FilePath.join path lockFileName).utf8ByteSize
  · rw [if_pos long]
    exact ⟨_,rfl⟩
  · rw [if_neg long]
    dsimp only
    cases decoded : Text.decode? content with
    | none => exact ⟨_,rfl⟩
    | some text =>
      obtain ⟨e,faulty⟩ := unusable text decoded
      refine ⟨e.fault,?_⟩
      change Reading.keep _ _ (LockFile.read text _) = _
      rw [read_manifest_error faulty]
      rfl

namespace Phases

variable (p : Phases) (s : Settings) (place : Nat) (path : String) (e : ManifestError)

def withFailure : Phases := { p with
  lockPaths := p.lockPaths.take place ++ path :: p.lockPaths.drop place
  locks := p.locks.take place ++ .failed e :: p.locks.drop place }

theorem lockFiles_withFailure : (p.withFailure place path e).lockFiles = p.lockFiles := by
  rw [lockFiles,withFailure,List.filterMap_append,List.filterMap_cons_none rfl,← List.filterMap_append,
    List.take_append_drop]
  rfl

theorem facts_withFailure : (p.withFailure place path e).facts s = p.facts s := by
  rw [facts,facts,lockFiles_withFailure]

theorem unique_withFailure : (p.withFailure place path e).unique s = p.unique s := by
  rw [unique,unique,facts_withFailure]

theorem names_withFailure : (p.withFailure place path e).names s = p.names s := by
  rw [names,names,unique_withFailure]

theorem pinned_withFailure : (p.withFailure place path e).pinned s = p.pinned s := by
  rw [pinned,pinned,unique_withFailure]

/-- A lock file that cannot be used puts its failure among the issues and changes nothing else. -/
theorem result_withFailure : ∃ front back, (p.result s).issues = front ++ back ∧
    (p.withFailure place path e).result s = { p.result s with
      issues := front ++ .ofManifestError e :: back } := by
  let before := (p.locks.take place).flatMap (Reading.issues (duplicateIssues s.root))
  let behind := (p.locks.drop place).flatMap (Reading.issues (duplicateIssues s.root)) ++
    ((Conflict.ofFacts (p.facts s)).map .ofConflict ++ p.manifestIssues ++
    p.projects.flatMap (Reading.issues fun _ => cycleIssues) ++
    (p.scan.map (Issue.unused · (p.names s))).getD [])
  have whole : p.produced s = before ++ behind := by
    rw [produced]
    simp only [before,behind,← List.append_assoc,← List.flatMap_append,List.take_append_drop]
  have failed : (p.withFailure place path e).produced s = before ++ .ofManifestError e :: behind := by
    rw [produced,facts_withFailure,names_withFailure,withFailure,List.flatMap_append,List.flatMap_cons]
    simp only [before,behind,List.append_assoc]
    rfl
  obtain ⟨front,back,sorted,sorted'⟩ := Issue.sort_insert (.ofManifestError e) before behind
  refine ⟨front,back,?_,?_⟩
  · rw [result,whole,sorted]
  · rw [result,result,lockFiles_withFailure,facts_withFailure,pinned_withFailure,failed,sorted']
    rfl

end Phases

/-- A lock file that cannot be used, put into a directory that the walk comes to, adds one issue to what an
analysis reports and changes nothing else, exactly when its path is UTF-8; otherwise it ends the analysis. -/
theorem unusable_lock_file_recorded_iff_encodable (disk disk' : FileSystem) (s : Settings) (finishes : Bool)
    (r : AnalysisResult) (visits : List Visit) (v : Visit) (content : ByteArray)
    (standard : s.discovery = {}) (sound : disk.WellFormed)
    (walked : Discovery.walk disk s.root s.discovery = .ok visits) (member : v ∈ visits)
    (gains : disk.Gains lockFileName content v.path disk')
    (unusable : ∀ text, Text.decode? content = some text →
      ∃ e, LockFile.read text none = .error (.manifest e))
    (ran : run disk s finishes = .ok r) :
    ((∃ fault front back, r.issues = front ++ back ∧ run disk' s finishes = .ok { r with
      issues := front ++ .ofManifestError ⟨fault,some (FilePath.join v.path lockFileName)⟩ :: back }) ↔
      disk.encodes (FilePath.join v.path lockFileName) = true) ∧
    (disk.encodes (FilePath.join v.path lockFileName) = false → run disk' s finishes = .error .unencodable) := by
  obtain ⟨p,done,rfl⟩ := run_eq_ok_iff.mp ran
  rw [standard] at walked
  have wide := widened_of_gains sound walked member gains
  obtain ⟨fault,outcome⟩ := readLockFile_unusable wide unusable
  have lockPaths := done.lockPaths
  have projectPaths := done.projectPaths
  have manifestPath := done.manifestPath
  rw [standard] at lockPaths projectPaths manifestPath
  obtain ⟨sameLocks,_,inserted⟩ := wide.lockFiles lockPaths
  obtain ⟨first,last,split,lockPaths'⟩ := inserted rfl
  obtain ⟨sameProjects,projectPaths'⟩ := wide.projectFiles (by decide) projectPaths
  generalize FilePath.join v.path lockFileName = path at outcome lockPaths' ⊢
  have typed : Discovery.projectType disk' s.root s.discovery = .ok p.projectType := by
    rw [standard,wide.projectType,← standard]
    exact done.projectType
  have locks := forall₂_ok_congr
    (fun file listed => readLockFile_congr gains.strays (sameLocks file listed)) done.locks
  have projects := forall₂_ok_congr
    (fun file listed => readProject_congr gains.strays (sameProjects file listed)) done.projects
  have fails (unencodable : disk.encodes path = false) : run disk' s finishes = .error .unencodable := by
    have before := List.forall₂_take first.length locks
    rw [split,List.take_left] at before
    refine run_eq_error_of_lockFile typed (standard ▸ lockPaths') before (outcome.trans ?_)
    rw [Reading.ofFault_eq,unencodable,if_neg Bool.false_ne_true]
  refine ⟨⟨?_,fun encodes => ?_⟩,fails⟩
  · rintro ⟨_,_,_,_,ran'⟩
    by_contra unencodable
    cases (fails (Bool.not_eq_true _ ▸ unencodable)).symm.trans ran'
  have failed : readLockFile disk' path = .ok (.failed ⟨fault,some path⟩) := by
    rw [outcome,Reading.ofFault_eq,encodes,if_pos rfl]
  -- A failed reading has no facts, so the phases behind it start from what they started from before.
  let p' := p.withFailure first.length path ⟨fault,some path⟩
  have listed : p'.lockPaths = first ++ path :: last := by
    change p.lockPaths.take first.length ++ path :: p.lockPaths.drop first.length = _
    rw [split,List.take_left,List.drop_left]
  have facts : p'.facts s = p.facts s := p.facts_withFailure ..
  have unique : p'.unique s = p.unique s := p.unique_withFailure ..
  have names : p'.names s = p.names s := p.names_withFailure ..
  have pinned : p'.pinned s = p.pinned s := p.pinned_withFailure ..
  have completed : p'.Completed s disk' finishes := by
    refine ⟨typed,?_,?_,?_,?_,?_,?_,projects,?_,?_⟩
    · rw [standard,listed]
      exact lockPaths'
    · exact List.rel_append (List.forall₂_take first.length locks)
        (.cons failed (List.forall₂_drop first.length locks))
    · rw [standard,wide.manifest? (by decide)]
      exact manifestPath
    · rw [facts]
      exact (wide.manifestIssues manifestPath).trans done.manifestIssues
    · rw [pinned]
      exact done.pinnedMetrics
    · rw [standard]
      exact projectPaths'
    · rw [names,wide.scanImports standard]
      exact done.scan
    · rw [pinned,unique]
      exact done.scores
  obtain ⟨front,back,whole,reported⟩ := p.result_withFailure s first.length path ⟨fault,some path⟩
  exact ⟨fault,front,back,whole,run_eq_ok_iff.mpr ⟨p',completed,reported.symm⟩⟩

def lockedDisk (name : String) (entries : List (String × Entry)) : FileSystem where
  top := .directory [
    (lockFileName,.file "\x7b\"pins\":[\x7b\"identity\":\"a\",\"location\":\"b\"\x7d]\x7d".toUTF8),
    (name,.directory entries)]
  here := "/"
  strays := Text.isHalfChar

def strayName : String := String.singleton (Text.codeChar 0xDCFF)

theorem unusable_lock_files_recorded_and_fatal :
    (∃ r fault front back, run (lockedDisk "Sub" []) {} true = .ok r ∧ r.issues = front ++ back ∧
      run (lockedDisk "Sub" [(lockFileName,.file "[]".toUTF8)]) {} true = .ok { r with
        issues := front ++ .ofManifestError ⟨fault,some "./Sub/Package.resolved"⟩ :: back }) ∧
    ∃ r, run (lockedDisk strayName []) {} true = .ok r ∧
      run (lockedDisk strayName [(lockFileName,.file "[]".toUTF8)]) {} true = .error .unencodable := by
  have here : Entry.Gains lockFileName "[]".toUTF8 [] (.directory [])
      (.directory [(lockFileName,.file "[]".toUTF8)]) := @Entry.Gains.here _ _ [] [] List.not_mem_nil
  have gains (name path : String) (place : (lockedDisk name []).place path = [name]) :
      (lockedDisk name []).Gains lockFileName "[]".toUTF8 path
        (lockedDisk name [(lockFileName,.file "[]".toUTF8)]) :=
    ⟨place ▸ @Entry.Gains.deeper _ _ [(lockFileName,_)] [] name _ _ _ here,rfl,rfl⟩
  have unusable : ∀ text, Text.decode? "[]".toUTF8 = some text →
      ∃ e, LockFile.read text none = .error (.manifest e) := by
    have decoded : Text.decode? "[]".toUTF8 = some "[]" := by decide +kernel
    intro text same
    obtain rfl := Option.some.inj (decoded.symm.trans same)
    exact ⟨⟨.notObject,none⟩,by decide +kernel⟩
  constructor
  · have walked : Discovery.walk (lockedDisk "Sub" []) "." {} = .ok [⟨".",[lockFileName]⟩,⟨"./Sub",[]⟩] := by
      decide +kernel
    obtain ⟨r,ran⟩ : ∃ r, run (lockedDisk "Sub" []) {} true = .ok r := exists_eq_ok (by decide +kernel)
    obtain ⟨recorded,_⟩ := unusable_lock_file_recorded_iff_encodable (lockedDisk "Sub" [])
      (lockedDisk "Sub" [(lockFileName,.file "[]".toUTF8)]) {} true r _ ⟨"./Sub",[]⟩ "[]".toUTF8 rfl
      ⟨Entry.wellFormed_of_check _ (by decide +kernel),by decide +kernel⟩ walked
      (.tail _ (List.mem_singleton.mpr rfl)) (gains "Sub" "./Sub" (by decide +kernel)) unusable ran
    obtain ⟨fault,front,back,split,ran'⟩ := recorded.mpr (by decide +kernel)
    have path : FilePath.join "./Sub" lockFileName = "./Sub/Package.resolved" := by decide +kernel
    exact ⟨r,fault,front,back,ran,split,path ▸ ran'⟩
  · have walked : Discovery.walk (lockedDisk strayName []) "." {} =
        .ok [⟨".",[lockFileName]⟩,⟨FilePath.join "." strayName,[]⟩] := by
      decide +kernel
    obtain ⟨r,ran⟩ : ∃ r, run (lockedDisk strayName []) {} true = .ok r := exists_eq_ok (by decide +kernel)
    obtain ⟨_,fatal⟩ := unusable_lock_file_recorded_iff_encodable (lockedDisk strayName [])
      (lockedDisk strayName [(lockFileName,.file "[]".toUTF8)]) {} true r _
      ⟨FilePath.join "." strayName,[]⟩ "[]".toUTF8 rfl
      ⟨Entry.wellFormed_of_check _ (by decide +kernel),by decide +kernel⟩ walked
      (.tail _ (List.mem_singleton.mpr rfl)) (gains strayName _ (by decide +kernel)) unusable ran
    exact ⟨r,ran,fatal (by decide +kernel)⟩

end Analysis

end DepAudit
