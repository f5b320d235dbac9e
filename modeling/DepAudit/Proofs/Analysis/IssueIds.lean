import DepAudit.Proofs.Analysis.Naming

/-! The ids of issues. Within one kind an id says what the issue is about, so that two issues share an id
where an analysis comes upon the same thing of a kind twice. -/
namespace DepAudit

/-! Lists without repetition. -/

section

variable {α β γ : Type}

theorem nodup_map_congr {f : α → β} {g : α → γ} {xs : List α}
    (same : ∀ x ∈ xs, ∀ y ∈ xs, f x = f y ↔ g x = g y) : (xs.map f).Nodup ↔ (xs.map g).Nodup := by
  rw [List.Nodup,List.Nodup,List.pairwise_map,List.pairwise_map]
  exact List.Pairwise.iff_of_mem fun {x y} first second => (same x first y second).not

/-- Texts differ that begin with words of different beginnings. -/
theorem nodup_marked {size : Nat} {groups : List (String × List String)} {words : List String}
    (named : groups.map Prod.fst = words) (long : ∀ word ∈ words, size ≤ word.toList.length)
    (apart : (words.map fun word => word.toList.take size).Nodup) :
    (groups.flatMap fun g => g.2.map (g.1 ++ ·)).Nodup ↔ ∀ g ∈ groups, g.2.Nodup := by
  have marked : ∀ g ∈ groups, ∀ text ∈ g.2.map (g.1 ++ ·),
      text.toList.take size = g.1.toList.take size := by
    intro g member text inside
    obtain ⟨tail,_,rfl⟩ := List.mem_map.mp inside
    rw [String.toList_append,
      List.take_append_of_le_length (long g.1 (named ▸ List.mem_map_of_mem member))]
  have disjoint : groups.Pairwise (Function.onFun List.Disjoint fun g => g.2.map (g.1 ++ ·)) := by
    rw [← named,List.map_map] at apart
    refine List.Pairwise.imp_of_mem (fun {g h} first second different text one other => ?_)
      (List.pairwise_map.mp apart)
    exact different ((marked g first text one).symm.trans (marked h second text other))
  rw [List.nodup_flatMap,and_iff_left disjoint]
  refine forall₂_congr fun g _ => ?_
  exact List.nodup_map_iff fun a b same => String.append_right_inj _ |>.mp same

end

namespace Conflict

theorem nodup_ofFacts (facts : List Fact) : ((ofFacts facts).map dependency).Nodup :=
  (nodup_eraseDups _).sublist (names_ofFacts_sublist facts)

theorem nodup_ofDeclarations (ds : List Declaration) : ((ofDeclarations ds).map dependency).Nodup := by
  rw [ofDeclarations_eq,List.map_map]
  exact (nodup_eraseDups _).sublist (names_clashes_sublist _)

end Conflict

namespace Issue

theorem id_ofMismatch (m : Mismatch) : (ofMismatch m).id = "requirement-" ++ m.package := by
  rw [ofMismatch]
  split <;> rfl

def words : List String :=
  ["duplicate-","conflict-","parse-","cycle-","requirement-","unused-"]

theorem length_digest (parts : List String) : (digest parts).toList.length = 12 := by
  have long (w : UInt32) : 8 ≤ (Digest.hexWord w).length := by
    rw [Digest.hexWord,List.length_append,List.length_replicate]
    omega
  rw [digest,String.toList_ofList,List.length_take,Digest.ofText,Digest.hex]
  generalize Digest.sha1 _ = state
  have first := long state.a
  have second := long state.b
  simp only [List.flatMap_cons,List.length_append]
  omega

theorem word_injective {k l : ManifestErrorKind} (same : k.word = l.word) : k = l := by
  revert same
  cases k <;> cases l <;> decide

def faultMark (e : ManifestError) : String := e.kind.word ++ "-" ++ digest [e.path.getD ""]

theorem id_ofManifestError (e : ManifestError) : (ofManifestError e).id = "parse-" ++ faultMark e := by
  rw [faultMark,← String.append_assoc,← String.append_assoc]
  rfl

theorem faultMark_eq_iff {e f : ManifestError} : faultMark e = faultMark f ↔
    e.kind = f.kind ∧ digest [e.path.getD ""] = digest [f.path.getD ""] := by
  constructor
  · intro same
    -- Digests are equally long, so the mark is cut before its last twelve characters.
    have chars := congrArg String.toList same
    rw [faultMark,faultMark,String.toList_append,String.toList_append,String.toList_append,
      String.toList_append] at chars
    obtain ⟨front,back⟩ := List.append_inj' chars ((length_digest _).trans (length_digest _).symm)
    obtain ⟨word,-⟩ := List.append_inj' front rfl
    exact ⟨word_injective (String.toList_inj.mp word),String.toList_inj.mp back⟩
  · rintro ⟨kind,path⟩
    rw [faultMark,faultMark,kind,path]

/-- Different ones among the texts have different digests. -/
def DigestsDiffer (texts : List String) : Prop :=
  ∀ t ∈ texts, ∀ u ∈ texts, digest [t] = digest [u] → t = u

def joined (parts : List String) : String := "\x1f".intercalate parts

theorem digest_joined (parts : List String) : digest [joined parts] = digest parts := by
  have single (text : String) : "\x1f".intercalate [text] = text := by
    rw [← String.toList_inj]
    simp
  rw [digest,single,digest,joined]

theorem ids_unused (scan : ImportScan Float) (names : List String) : ∃ kept : List String,
    kept.Sublist names ∧ (unused scan names).map id = kept.map ("unused-" ++ ·) := by
  rw [unused]
  split
  · exact ⟨[],List.nil_sublist _,rfl⟩
  · refine ⟨names.filter (isUnused scan),List.filter_sublist,?_⟩
    rw [List.map_map]
    rfl

end Issue

namespace Analysis

variable {disk : FileSystem} {s : Settings} {p : Phases} {finishes : Bool}

namespace Phases

def duplicates (p : Phases) (s : Settings) : List Conflict :=
  p.lockFiles.flatMap fun l => Conflict.duplicates l.2.facts (reported s.root l.1)

def conflicts (p : Phases) (s : Settings) (disk : FileSystem) : List Conflict :=
  Conflict.ofFacts (p.facts s) ++ Conflict.ofDeclarations (declared disk p.manifestPath)

def cycles (p : Phases) : List (List String) :=
  (p.projects.filterMap Reading.content?).flatMap fun c =>
    c.2.graph.cycles.map (cycleNames c.2.graph)

/-- The issues kind by kind. -/
theorem produced_perm (done : p.Completed s disk finishes) : ∃ ms : List Mismatch,
    (ms.map Mismatch.package).Sublist (p.names s) ∧ (p.produced s).Perm
      ((p.duplicates s).map .ofDuplicate ++ ((p.conflicts s disk).map .ofConflict ++
        ((p.faults disk).map .ofManifestError ++ (p.cycles.map .ofCycle ++ (ms.map .ofMismatch ++
          (p.scan.map (Issue.unused · (p.names s))).getD []))))) := by
  obtain ⟨ms,packages,parts⟩ := manifestIssues_parts done.manifestIssues
  refine ⟨ms,packages,?_⟩
  have locks := Reading.issues_perm (duplicateIssues s.root) p.locks
  have projects := Reading.issues_perm (fun _ => cycleIssues) p.projects
  rw [Reading.filterMap_failure? failure_readLockFile done.locks] at locks
  rw [Reading.filterMap_failure? failure_readProject done.projects] at projects
  have duplicated : (p.locks.filterMap Reading.content?).flatMap (fun c => duplicateIssues s.root c.1 c.2) =
      (p.duplicates s).map .ofDuplicate := by
    rw [duplicates,List.map_flatMap]
    rfl
  have circular : (p.projects.filterMap Reading.content?).flatMap (fun c => cycleIssues c.2) =
      p.cycles.map .ofCycle := by
    rw [cycles,List.map_flatMap]
    simp only [List.map_map]
    rfl
  rw [duplicated] at locks
  rw [circular] at projects
  rw [produced,parts]
  refine ((((locks.append_right _).append_right _).append projects).append_right _).trans ?_
  rw [conflicts,faults,List.map_append,List.map_append,List.map_append,← Multiset.coe_eq_coe]
  simp only [← Multiset.coe_add]
  ac_rfl

def subjects (p : Phases) (s : Settings) (disk : FileSystem) (packages unused : List String) :
    List (String × List String) :=
  [("duplicate-",(p.duplicates s).map Conflict.dependency),
    ("conflict-",(p.conflicts s disk).map Conflict.dependency),
    ("parse-",(p.faults disk).map Issue.faultMark),("cycle-",p.cycles.map Issue.digest),
    ("requirement-",packages),("unused-",unused)]

theorem words_subjects (p : Phases) (s : Settings) (disk : FileSystem) (packages unused : List String) :
    (p.subjects s disk packages unused).map Prod.fst = Issue.words := rfl

theorem ids_perm (done : p.Completed s disk finishes) : ∃ packages unused : List String,
    packages.Nodup ∧ unused.Nodup ∧ ((p.result s).issues.map Issue.id).Perm
      ((p.subjects s disk packages unused).flatMap fun g => g.2.map (g.1 ++ ·)) := by
  obtain ⟨ms,packages,kinds⟩ := produced_perm done
  have distinct : (p.names s).Nodup := names_eq p s ▸ nodup_eraseDups _
  obtain ⟨kept,fewer,unused⟩ : ∃ kept : List String, kept.Sublist (p.names s) ∧
      ((p.scan.map (Issue.unused · (p.names s))).getD []).map Issue.id = kept.map ("unused-" ++ ·) := by
    cases p.scan with
    | none => exact ⟨[],List.nil_sublist _,rfl⟩
    | some scan => exact Issue.ids_unused scan _
  refine ⟨ms.map Mismatch.package,kept,distinct.sublist packages,distinct.sublist fewer,?_⟩
  refine (((List.mergeSort_perm ..).trans kinds).map Issue.id).trans (.of_eq ?_)
  have faulty : Issue.id ∘ Issue.ofManifestError = fun e => "parse-" ++ Issue.faultMark e :=
    funext Issue.id_ofManifestError
  have mismatched : Issue.id ∘ Issue.ofMismatch = fun m => "requirement-" ++ m.package :=
    funext Issue.id_ofMismatch
  simp only [subjects,List.map_append,List.flatMap_cons,List.flatMap_nil,List.append_nil,List.map_map,unused,
    faulty,mismatched]
  rfl

def digested (p : Phases) (disk : FileSystem) : List String :=
  (p.faults disk).map (fun e => e.path.getD "") ++ p.cycles.map Issue.joined

/-- Nothing is come upon twice in one kind: no name is repeated in two lock files, none is in conflict both
among the facts and among the declarations, no file has the same kind of fault in two roles, and no two
cycles bear the same names. -/
structure Apart (p : Phases) (s : Settings) (disk : FileSystem) : Prop where
  duplicates : (p.lockFiles.map fun l => repeatedNames l.2.facts).Pairwise Disjoint
  conflicts : ((Conflict.ofFacts (p.facts s)).map Conflict.dependency).Disjoint
    ((Conflict.ofDeclarations (declared disk p.manifestPath)).map Conflict.dependency)
  faults : ((p.faults disk).map fun e => (e.kind,e.path.getD "")).Nodup
  cycles : (p.cycles.map Issue.joined).Nodup

theorem nodup_duplicates_iff : ((p.duplicates s).map Conflict.dependency).Nodup ↔
    (p.lockFiles.map fun l => repeatedNames l.2.facts).Pairwise Disjoint := by
  rw [duplicates,List.map_flatMap,List.nodup_flatMap,List.pairwise_map,
    and_iff_right fun l _ => Conflict.nodup_duplicates ..]
  refine List.Pairwise.iff fun {l m} => ?_
  rw [Function.onFun,List.disjoint_left,Finset.disjoint_left]
  exact forall_congr' fun name => imp_congr Conflict.mem_duplicates (not_congr Conflict.mem_duplicates)

theorem nodup_conflicts_iff : ((p.conflicts s disk).map Conflict.dependency).Nodup ↔
    ((Conflict.ofFacts (p.facts s)).map Conflict.dependency).Disjoint
      ((Conflict.ofDeclarations (declared disk p.manifestPath)).map Conflict.dependency) := by
  rw [conflicts,List.map_append,List.nodup_append',and_iff_right (Conflict.nodup_ofFacts _),
    and_iff_right (Conflict.nodup_ofDeclarations _)]

theorem nodup_faults_iff (apart : Issue.DigestsDiffer (p.digested disk)) :
    ((p.faults disk).map Issue.faultMark).Nodup ↔
      ((p.faults disk).map fun e => (e.kind,e.path.getD "")).Nodup := by
  have among {e : ManifestError} (member : e ∈ p.faults disk) : e.path.getD "" ∈ p.digested disk :=
    List.mem_append_left _ (List.mem_map_of_mem member)
  refine nodup_map_congr fun e first f second => ?_
  rw [Issue.faultMark_eq_iff,Prod.mk.injEq]
  exact and_congr_right fun _ =>
    ⟨apart _ (among first) _ (among second),congrArg fun t => Issue.digest [t]⟩

theorem nodup_cycles_iff (apart : Issue.DigestsDiffer (p.digested disk)) :
    (p.cycles.map Issue.digest).Nodup ↔ (p.cycles.map Issue.joined).Nodup := by
  have among {c : List String} (member : c ∈ p.cycles) : Issue.joined c ∈ p.digested disk :=
    List.mem_append_right _ (List.mem_map_of_mem member)
  refine nodup_map_congr fun c first d second => ?_
  rw [← Issue.digest_joined c,← Issue.digest_joined d]
  exact ⟨apart _ (among first) _ (among second),congrArg fun t => Issue.digest [t]⟩

end Phases

/-- Two issues of an analysis bear one id just where it comes upon the same thing of a kind twice, as long
as the digests of different texts differ. -/
theorem issue_ids_distinct_iff (disk : FileSystem) (s : Settings) (finishes : Bool) (r : AnalysisResult)
    (ran : run disk s finishes = .ok r) : ∃ p : Phases, p.Completed s disk finishes ∧ r = p.result s ∧
      (Issue.DigestsDiffer (p.digested disk) → ((r.issues.map Issue.id).Nodup ↔ p.Apart s disk)) := by
  obtain ⟨p,done,rfl⟩ := run_eq_ok_iff.mp ran
  refine ⟨p,done,rfl,fun apart => ?_⟩
  obtain ⟨packages,unused,distinct,alsoDistinct,grouped⟩ := Phases.ids_perm done
  -- Ids of different kinds differ in their first two letters; what remains is one question for each kind,
  -- and mismatches and unused names go by the names of the facts, which are distinct.
  rw [grouped.nodup_iff,nodup_marked (p.words_subjects s disk packages unused)
    (by decide : ∀ word ∈ Issue.words, 2 ≤ word.toList.length) (by decide)]
  simp only [Phases.subjects,List.forall_mem_cons,Phases.nodup_duplicates_iff,Phases.nodup_conflicts_iff,
    Phases.nodup_faults_iff apart,Phases.nodup_cycles_iff apart]
  constructor
  · rintro ⟨duplicates,conflicts,faults,cycles,-⟩
    exact ⟨duplicates,conflicts,faults,cycles⟩
  · rintro ⟨duplicates,conflicts,faults,cycles⟩
    exact ⟨duplicates,conflicts,faults,cycles,distinct,alsoDistinct,nofun⟩

def disputedTree : FileSystem :=
  Entry.asTop <| .directory [
    ("Package.resolved",.file "\x7b\"pins\":[
      \x7b\"identity\":\"a\",\"location\":\"b\",\"state\":\x7b\"version\":\"1\"\x7d\x7d,
      \x7b\"identity\":\"a\",\"location\":\"b\"\x7d]\x7d".toUTF8),
    ("Package.swift",.file ".package(url:\"a\",exact:\"1\").package(url:\"a\",exact:\"2\")".toUTF8)]

theorem disputed_name_gives_one_id_twice :
    ∃ r, run disputedTree {} true = .ok r ∧ ¬(r.issues.map Issue.id).Nodup := by
  obtain ⟨r,ran⟩ : ∃ r, run disputedTree {} true = .ok r := exists_eq_ok (by decide +kernel)
  obtain ⟨p,done,same,distinct⟩ := issue_ids_distinct_iff disputedTree {} true r ran
  have lockPaths : p.lockPaths = ["./Package.resolved"] :=
    Except.ok.inj (done.lockPaths.symm.trans (by decide +kernel))
  have manifestPath : p.manifestPath = some "./Package.swift" :=
    Except.ok.inj (done.manifestPath.symm.trans (by decide +kernel))
  have projectPaths : p.projectPaths = [] :=
    Except.ok.inj (done.projectPaths.symm.trans (by decide +kernel))
  have projects : p.projects = [] := by
    have read := done.projects
    rwa [projectPaths,List.forall₂_nil_left_iff] at read
  have texts : p.digested disputedTree = [] := by
    rw [Phases.digested,Phases.faults,Phases.cycles,lockPaths,manifestPath,projectPaths,projects]
    decide +kernel
  have pinned : "a" ∈ (Conflict.ofFacts (p.facts {})).map Conflict.dependency := by
    rw [Phases.facts,lockFiles_eq done,lockPaths]
    decide +kernel
  have declared : "a" ∈ (Conflict.ofDeclarations (declared disputedTree p.manifestPath)).map
      Conflict.dependency := by
    rw [manifestPath]
    decide +kernel
  have digests : Issue.DigestsDiffer (p.digested disputedTree) := by
    rw [texts]
    exact fun t nowhere => absurd nowhere List.not_mem_nil
  exact ⟨r,ran,(distinct digests).not.mpr fun apart => apart.conflicts pinned declared⟩

end Analysis

end DepAudit
