import DepAudit.Proofs.Analysis.Phases
import DepAudit.Proofs.FileTree.Growth

/-! An analysis of a file system with one file more, in a directory that its walk comes to: which lists the file
joins, by its name, and that whatever was listed before is read as before. -/
namespace DepAudit

namespace Discovery

theorem anyEndsWith_text (names : List String) (suffix : String) :
    anyEndsWith names (.text suffix) = .ok (names.any (·.endsWith suffix)) := by
  cases names <;> rfl

end Discovery

namespace Analysis

def lockFileName : String := "Package.resolved"

/-- Two file systems that differ by one file, which a walk from the root comes upon. -/
structure Widened (file : String) (content : ByteArray) (disk disk' : FileSystem) (root path : String) :
    Prop where
  gains : disk.Gains file content path disk'
  start : ∃ start start' names, disk.open? root = .ok start ∧ disk'.open? root = .ok start' ∧
    Entry.Gains file content names start start' ∧ start.WellFormed ∧
    (∀ name ∈ names, IsFileName name) ∧ path = FilePath.below root names
  walks : ∃ vs vs', Discovery.walk disk root {} = .ok vs ∧ Discovery.walk disk' root {} = .ok vs' ∧
    Entry.Finds file path vs vs' ∧
    ∀ w ∈ vs, ∀ name ∈ w.files,
      disk'.bytes (FilePath.join w.path name) = disk.bytes (FilePath.join w.path name)

variable {disk disk' : FileSystem} {file root path : String} {content : ByteArray}

theorem widened_of_gains {vs : List Visit} {v : Visit} (sound : disk.WellFormed)
    (walked : Discovery.walk disk root {} = .ok vs) (member : v ∈ vs)
    (gains : disk.Gains file content v.path disk') : Widened file content disk disk' root v.path := by
  obtain ⟨_,checked,gone⟩ := bind_eq_ok.mp walked
  obtain ⟨start,start',vs',opened,opened',⟨names,visit,gainsStart⟩,gone',finds⟩ :=
    FileSystem.walk_gains sound gone member gains
  refine ⟨gains,⟨start,start',names,opened,opened',gainsStart,sound.open? opened,visit.named,visit.path⟩,
    vs,vs',walked,bind_eq_ok.mpr ⟨_,checked,gone'⟩,finds,fun w here name listed => ?_⟩
  rcases FileSystem.walk_eq_ok.mp gone with ⟨_,rfl⟩ | ⟨entries,openedToo,below⟩
  · cases member
  · obtain rfl := Except.ok.inj (opened.symm.trans openedToo)
    obtain ⟨_,visited⟩ := (Entry.visits_places (sound.open? opened) below).1 w here
    exact FileSystem.bytes_eq_of_visit gains opened visited listed

namespace Widened

/-- The file opens where it was put, unless its path is too long. -/
theorem open?_join (wide : Widened file content disk disk' root path) (ok : IsFileName file) :
    disk'.open? (FilePath.join path file) =
      if Entry.maxPathSize < (FilePath.join path file).utf8ByteSize then .error .nameTooLong
      else .ok (.file content) := by
  obtain ⟨start,start',names,_,opened',gains,sound,named,rfl⟩ := wide.start
  have all : ∀ name ∈ names ++ [file], IsFileName name :=
    List.forall_mem_append.mpr ⟨named,List.forall_mem_singleton.mpr ok⟩
  have place : FilePath.join (FilePath.below root names) file =
      FilePath.below root (names ++ [file]) := by
    rw [FilePath.below_append]
    rfl
  rw [place]
  exact FileSystem.open?_below opened' all (gains.inside?_new sound)

theorem manifest? (wide : Widened file content disk disk' root path) (other : file ≠ "Package.swift") :
    Discovery.manifest? disk' root {} = Discovery.manifest? disk root {} := by
  obtain ⟨_,_,names,opened,_⟩ := wide.start
  have same : disk'.isFile (FilePath.join root "Package.swift") =
      disk.isFile (FilePath.join root "Package.swift") :=
    FileSystem.isFile_join_eq wide.gains opened (by decide +kernel) other.symm
  rw [Discovery.manifest?,Discovery.manifest?]
  dsimp only
  rw [same]

/-- A file that is there is read as before. -/
theorem readManifest_of_isFile (wide : Widened file content disk disk' root path) {old : String}
    (there : disk.isFile old = true) : disk'.readManifest old = disk.readManifest old := by
  have bytes : disk'.bytes old = disk.bytes old := by
    rw [FileSystem.isFile] at there
    split at there
    · rename_i text opened
      obtain ⟨found,opened',grown⟩ := wide.gains.open? opened
      obtain rfl := grown.eq_of_file
      rw [FileSystem.bytes,FileSystem.bytes,opened,opened']
    · cases there
  rw [FileSystem.readManifest,FileSystem.readManifest,bytes]

theorem bytes_of_wanted (wide : Widened file content disk disk' root path) {vs : List Visit}
    (walked : Discovery.walk disk root {} = .ok vs) {ε : Type} {wanted : Visit → String → Except ε Bool}
    {paths : List String} (found : Entry.wantedFiles vs wanted = .ok paths) :
    ∀ old ∈ paths, disk'.bytes old = disk.bytes old := by
  obtain ⟨ws,_,walkedToo,_,_,same⟩ := wide.walks
  obtain rfl := Except.ok.inj (walked.symm.trans walkedToo)
  intro old member
  obtain ⟨w,here,name,listed,rfl⟩ := Entry.mem_wantedFiles found member
  exact same w here name listed

theorem lockFiles (wide : Widened file content disk disk' root path) {paths : List String}
    (found : Discovery.lockFiles disk root {} = .ok paths) :
    (∀ old ∈ paths, disk'.bytes old = disk.bytes old) ∧
      (file ≠ lockFileName → Discovery.lockFiles disk' root {} = .ok paths) ∧
      (file = lockFileName → ∃ front back, paths = front ++ back ∧
        Discovery.lockFiles disk' root {} = .ok (front ++ FilePath.join path file :: back)) := by
  obtain ⟨names,set,rest⟩ := bind_eq_ok.mp found
  obtain rfl : [lockFileName] = names := Except.ok.inj set
  obtain ⟨vs,walked,wanted⟩ := bind_eq_ok.mp rest
  obtain ⟨ws,vs',walkedToo,walked',finds,_⟩ := wide.walks
  obtain rfl := Except.ok.inj (walked.symm.trans walkedToo)
  obtain ⟨passed,inserted⟩ := Entry.wantedFiles_finds finds wanted
  refine ⟨wide.bytes_of_wanted walked wanted,fun other => ?_,?_⟩
  · have fails : [lockFileName].contains file = false := by simp [other]
    exact bind_eq_ok.mpr ⟨_,rfl,bind_eq_ok.mpr ⟨_,walked',passed (congrArg Except.ok fails)⟩⟩
  · rintro rfl
    obtain ⟨front,back,split,wanted'⟩ := inserted rfl
    exact ⟨front,back,split,bind_eq_ok.mpr ⟨_,rfl,bind_eq_ok.mpr ⟨_,walked',wanted'⟩⟩⟩

theorem projectFiles (wide : Widened file content disk disk' root path)
    (other : file ≠ Discovery.projectFileName) {paths : List String}
    (found : Discovery.projectFiles disk root {} = .ok paths) :
    (∀ old ∈ paths, disk'.bytes old = disk.bytes old) ∧
      Discovery.projectFiles disk' root {} = .ok paths := by
  obtain ⟨vs,walked,rest⟩ := bind_eq_ok.mp found
  obtain ⟨bundles,kept,wanted⟩ := bind_eq_ok.mp rest
  obtain ⟨ws,vs',walkedToo,walked',finds,same⟩ := wide.walks
  obtain rfl := Except.ok.inj (walked.symm.trans walkedToo)
  obtain ⟨bundles',kept',either⟩ := Entry.filterM_finds finds kept
  constructor
  · intro old member
    obtain ⟨w,here,name,listed,rfl⟩ := Entry.mem_wantedFiles wanted member
    obtain ⟨_,rfl⟩ := filterM_eq_ok.mp kept
    exact same w (List.mem_filter.mp here).1 name listed
  · refine bind_eq_ok.mpr ⟨_,walked',bind_eq_ok.mpr ⟨_,kept',?_⟩⟩
    rcases either with rfl | findsToo
    · exact wanted
    · exact (Entry.wantedFiles_finds findsToo wanted).1 (congrArg Except.ok (decide_eq_false other))

/-- Source files are found with the standard endings whatever the names are. -/
theorem sourceFiles (wide : Widened file content disk disk' root path) {endings patterns : List Value}
    (ends : ({} : DiscoverySettings).sourceEndings.elements = .ok endings)
    (excluded : ({} : DiscoverySettings).excluded.elements = .ok patterns) :
    ∃ paths paths', Imports.sourceFiles disk root endings patterns = .ok paths ∧
      Imports.sourceFiles disk' root endings patterns = .ok paths' ∧
      (Imports.isSource endings file = .ok false → paths' = paths) ∧
      ∀ old ∈ paths, disk'.bytes old = disk.bytes old := by
  obtain ⟨vs,vs',walked,walked',finds,_⟩ := wide.walks
  obtain ⟨_,checked,gone⟩ := bind_eq_ok.mp walked
  obtain ⟨_,_,gone'⟩ := bind_eq_ok.mp walked'
  obtain rfl : [.text ".swift"] = endings := Except.ok.inj ends
  have decided (name : String) : ∃ b, Imports.isSource [.text ".swift"] name = .ok b := by
    rw [Imports.isSource,Imports.hasEnding]
    split
    · exact ⟨_,rfl⟩
    · split <;> exact ⟨_,rfl⟩
  have rejects : Discovery.excludes {} = Imports.isExcluded patterns := by
    funext old
    rw [Discovery.excludes,excluded]
    rfl
  rw [rejects] at gone gone'
  have wanted (visits : List Visit) : ∃ paths, Entry.wantedFiles visits
      (fun _ => Imports.isSource [.text ".swift"]) = .ok paths :=
    ⟨_,Entry.wantedFiles_eq_ok.mpr ⟨fun _ _ name _ => decided name,rfl⟩⟩
  obtain ⟨paths,found⟩ := wanted vs
  obtain ⟨paths',found'⟩ := wanted vs'
  refine ⟨paths,paths',bind_eq_ok.mpr ⟨_,checked,bind_eq_ok.mpr ⟨_,gone,found⟩⟩,
    bind_eq_ok.mpr ⟨_,checked,bind_eq_ok.mpr ⟨_,gone',found'⟩⟩,fun fails => ?_,
    wide.bytes_of_wanted walked found⟩
  exact Except.ok.inj (found'.symm.trans ((Entry.wantedFiles_finds finds found).1 fails))

end Widened

theorem readManifest_congr (same : disk'.bytes file = disk.bytes file) :
    disk'.readManifest file = disk.readManifest file := by
  rw [FileSystem.readManifest,FileSystem.readManifest,same]

theorem readLockFile_congr (strays : disk'.strays = disk.strays) (same : disk'.bytes file = disk.bytes file) :
    readLockFile disk' file = readLockFile disk file := by
  rw [readLockFile,readLockFile,readManifest_congr same,Reading.keep_congr strays]

theorem readProject_congr {s : Settings} (strays : disk'.strays = disk.strays)
    (same : disk'.bytes file = disk.bytes file) : readProject disk' s file = readProject disk s file := by
  rw [readProject,readProject,readManifest_congr same]
  simp only [Reading.ofFault_congr strays]

end Analysis

end DepAudit
