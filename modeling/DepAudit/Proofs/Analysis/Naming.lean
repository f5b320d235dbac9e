import DepAudit.Proofs.Analysis.Accounting
import DepAudit.Proofs.Graph.Edges
import DepAudit.Proofs.Imports.Scan
import DepAudit.Proofs.Ranking.Exact

/-! The names of an analysis: facts of several lock files may share a name, and the graph, the scan, the
scores and the issues all go by the same names, each by the first fact that bears it. -/
namespace DepAudit

/-! Nodes of pinned dependencies. -/

def Fact.Plain (f : Fact) : Prop := (Table.keys f.metadata).Nodup

theorem Fact.version_node (f : Fact) :
    f.node.version = if f.version = "" then none else some f.version := by
  simp [Fact.node,nonEmpty?]

theorem Fact.get?_metadata_node {f : Fact} (plain : f.Plain) {key value : String}
    (known : Table.get? f.metadata key = some value) :
    Table.get? f.node.metadata key = some value := by
  rw [Fact.node,Table.get?_setAll _ plain,known]
  rfl

theorem LockFile.plain_of_pin {pin : Json} {f : Fact} (accepted : pinFact? pin = some f) : f.Plain := by
  obtain ⟨name,_,rest⟩ := Option.bind_eq_some_iff.mp accepted
  obtain ⟨location,_,same⟩ := Option.bind_eq_some_iff.mp rest
  obtain rfl := Option.some.inj same
  have listed (values : List (String × Option String)) :
      ((values.filterMap fun m => m.2.map (m.1,·)).map Prod.fst).Sublist (values.map Prod.fst) := by
    induction values with
    | nil => exact .slnil
    | cons m values ih =>
      obtain ⟨key,value⟩ := m
      cases value with
      | none => exact ih.cons key
      | some text => exact ih.cons_cons key
  exact List.Nodup.sublist (listed _) (by decide +kernel : ["branch","revision","pin_kind"].Nodup)

theorem LockFile.plain_of_read {text : String} {path : Option String} {file : LockFile}
    (read : LockFile.read text path = .ok file) : ∀ f ∈ file.facts, f.Plain := by
  have ofPins (entries : List Json) : ∀ f ∈ (ofPins entries).facts, f.Plain := by
    intro f member
    obtain ⟨pin,_,accepted⟩ := List.mem_filterMap.mp member
    exact plain_of_pin accepted
  rw [LockFile.read] at read
  split at read
  · cases read
  · cases read
  · rename_i document _
    replace read := mapError_eq_ok.mp read
    rw [ofJson] at read
    split at read
    · split at read
      · obtain rfl := Except.ok.inj read
        exact ofPins _
      · cases read
    · cases read

namespace Analysis

theorem names_firstByName (facts : List Fact) :
    (firstByName facts).map Fact.name = (facts.map Fact.name).eraseDups := by
  induction facts with
  | nil => rfl
  | cons f facts ih =>
    have others : ((fun name => !name == f.name) ∘ Fact.name) = fun g => decide (g.name ≠ f.name) := by
      funext g
      rw [Bool.eq_iff_iff]
      simp
    rw [firstByName,List.map_cons,List.map_cons,List.eraseDups_cons,filter_eraseDups,← ih,List.filter_map,
      others]

theorem find?_of_mem_firstByName {facts : List Fact} {f : Fact} (member : f ∈ firstByName facts) :
    facts.find? (fun g => g.name = f.name) = some f := by
  induction facts with
  | nil => cases member
  | cons g facts ih =>
    rcases List.mem_cons.mp member with rfl | later
    · exact List.find?_cons_of_pos (by simp)
    · obtain ⟨later,other⟩ := List.mem_filter.mp later
      have different : g.name ≠ f.name := Ne.symm (of_decide_eq_true other)
      rw [List.find?_cons,decide_eq_false different]
      exact ih later

variable {disk : FileSystem} {s : Settings} {p : Phases} {finishes : Bool}

theorem content_readLockFile {path : String} {lock : Reading LockFile}
    (read : readLockFile disk path = .ok lock) : lock.content? = lockFile? disk path := by
  rcases readLockFile_cases read with ⟨file,rfl,found,_⟩ | ⟨e,rfl,missing,_⟩
  · exact found.symm
  · exact missing.symm

theorem lockFiles_eq (done : p.Completed s disk finishes) :
    p.lockFiles = p.lockPaths.filterMap (lockFile? disk) := by
  have contents {paths : List String} {locks : List (Reading LockFile)}
      (all : List.Forall₂ (fun path lock => readLockFile disk path = .ok lock) paths locks) :
      locks.filterMap Reading.content? = paths.filterMap (lockFile? disk) := by
    induction all with
    | nil => rfl
    | cons first _ ih => rw [List.filterMap_cons,List.filterMap_cons,content_readLockFile first,ih]
  exact contents done.locks

def factsOf (root : String) (lockFiles : List (String × LockFile)) : List Fact :=
  lockFiles.flatMap fun l => l.2.facts.map fun f =>
    { f with metadata := Table.set f.metadata "declared_by" (reported root l.1) }

theorem plain_of_mem_factsOf {paths : List String} {root : String} {f : Fact}
    (member : f ∈ factsOf root (paths.filterMap (lockFile? disk))) : f.Plain := by
  obtain ⟨l,read,inside⟩ := List.mem_flatMap.mp member
  obtain ⟨g,listed,rfl⟩ := List.mem_map.mp inside
  obtain ⟨path,_,known⟩ := List.mem_filterMap.mp read
  rw [lockFile?] at known
  split at known
  · cases known
  · split at known
    · cases known
    · rename_i file parsed
      obtain rfl := Option.some.inj known
      have plain : g.Plain := LockFile.plain_of_read parsed g listed
      exact Table.nodup_keys_set plain _ _

theorem nodes_ofFacts (facts : List Fact) (metadata : Table String String) :
    (Graph.ofFacts (firstByName facts) metadata).nodes = (firstByName facts).map Fact.node := by
  -- A graph keeps the last node of an id, but no id comes twice once the first facts are chosen.
  apply Node.distinct_of_nodup
  have ids : ((firstByName facts).map Fact.node).map Node.id = (firstByName facts).map Fact.name := by
    rw [List.map_map]
    rfl
  rw [ids,names_firstByName]
  exact nodup_eraseDups _

theorem names_scores {g : Graph} {scan : Option (ImportScan Float)} {facts : List Fact}
    {scores : List (Score Float)} (ranked : rank s g scan facts = .ok scores) :
    (scores.map Score.name).Perm (facts.map Fact.name) := by
  rw [rank] at ranked
  obtain ⟨bottlenecks,_,rest⟩ := bind_eq_ok.mp (mapError_eq_ok.mp ranked)
  split at rest
  · rename_i empty
    obtain rfl := Except.ok.inj rest
    rw [List.isEmpty_iff.mp empty]
    exact .nil
  · obtain ⟨weights,_,same⟩ := bind_eq_ok.mp rest
    obtain rfl := Except.ok.inj same
    exact Ranking.names_rank_perm _ facts

theorem keys_scanImports {names : List String} {scan : ImportScan Float}
    (scanned : scanImports disk s names finishes = .ok (some scan)) :
    scan.metrics.keys = names.eraseDups := by
  rw [scanImports] at scanned
  split at scanned
  · obtain ⟨endings,_,rest⟩ := bind_eq_ok.mp scanned
    obtain ⟨patterns,_,rest⟩ := bind_eq_ok.mp rest
    split at rest
    · rename_i found ended
      obtain rfl := Option.some.inj (Except.ok.inj rest)
      obtain ⟨files,_,rfl⟩ := Imports.exists_of_scan ended
      exact Imports.keys_scanFiles ..
    · cases rest
    · cases rest
  · cases scanned

theorem names_eq (p : Phases) (s : Settings) : p.names s = ((p.facts s).map Fact.name).eraseDups :=
  names_firstByName _

/-- An issue about a dependency is about a name of the facts. -/
theorem affected_of_mem_produced (done : p.Completed s disk finishes) {i : Issue}
    (produced : i ∈ p.produced s) (typed : i.type = .unusedDependency ∨ i.type = .requirementMismatch ∨
      i.type = .missingDependency) : ∃ name ∈ (p.facts s).map Fact.name, i.affected = [name] := by
  cases Phases.origin_of_mem_produced done produced with
  | mismatch m named =>
    refine ⟨_,named,?_⟩
    rw [Issue.ofMismatch]
    split <;> rfl
  | unused name files named => exact ⟨name,List.mem_eraseDups.mp (names_eq p s ▸ named),rfl⟩
  | _ => rcases typed with typed | typed | typed <;> cases typed

/-- The parts of a result go by the names of its facts, and the nodes by the first fact of each name. -/
structure Agrees (disk : FileSystem) (s : Settings) (r : AnalysisResult) : Prop where
  facts : ∃ paths, Discovery.lockFiles disk s.root s.discovery = .ok paths ∧ paths.Pairwise (· < ·) ∧
    r.facts = factsOf s.root (paths.filterMap (lockFile? disk))
  pinned : ∃ g metrics, r.pinned = some (g,metrics) ∧
    g.ids = (r.facts.map Fact.name).eraseDups ∧ ∀ n ∈ g.nodes, ∃ f,
      r.facts.find? (fun f => f.name = n.id) = some f ∧
      n.version = (if f.version = "" then none else some f.version) ∧
      ∀ key value, Table.get? f.metadata key = some value → Table.get? n.metadata key = some value
  scores : (r.scores.map Score.name).Perm (r.facts.map Fact.name).eraseDups
  scanned : ∀ scan, r.importScan = some scan → scan.metrics.keys.Nodup ∧
    ∀ name, name ∈ scan.metrics.keys ↔ name ∈ r.facts.map Fact.name
  issues : ∀ i ∈ r.issues, i.type = .unusedDependency ∨ i.type = .requirementMismatch ∨
    i.type = .missingDependency → ∃ name ∈ r.facts.map Fact.name, i.affected = [name]

/-- In an analysis that ends, the facts are those of the lock files in the order of their paths; the pinned
graph, the scores, the scan and the issues about dependencies go by the names of these facts, and a name
that several facts bear stands for the first of them. -/
theorem parts_go_by_fact_names (disk : FileSystem) (s : Settings) (finishes : Bool) (r : AnalysisResult)
    (sound : disk.WellFormed) (ran : run disk s finishes = .ok r) : Agrees disk s r := by
  obtain ⟨p,done,rfl⟩ := run_eq_ok_iff.mp ran
  have facts : p.facts s = factsOf s.root (p.lockPaths.filterMap (lockFile? disk)) := by
    rw [Phases.facts,lockFiles_eq done]
    rfl
  have names := names_eq p s
  have nodes : (p.pinned s).nodes = (p.unique s).map Fact.node := nodes_ofFacts _ _
  refine ⟨⟨p.lockPaths,done.lockPaths,?_,facts⟩,⟨p.pinned s,p.pinnedMetrics,rfl,?_,?_⟩,?_,?_,?_⟩
  · obtain ⟨_,_,rest⟩ := bind_eq_ok.mp done.lockPaths
    obtain ⟨vs,walked,found⟩ := bind_eq_ok.mp rest
    obtain ⟨_,_,gone⟩ := bind_eq_ok.mp walked
    exact FileSystem.pairwise_wantedFiles sound gone (List.Sublist.refl vs) found
  · rw [Graph.ids,nodes,List.map_map]
    exact names
  · intro n member
    rw [nodes] at member
    obtain ⟨f,first,rfl⟩ := List.mem_map.mp member
    have plain : f.Plain := plain_of_mem_factsOf (facts ▸ mem_firstByName first)
    exact ⟨f,find?_of_mem_firstByName first,f.version_node,fun key value => f.get?_metadata_node plain⟩
  · exact names ▸ names_scores done.scores
  · intro scan scanned
    have keys : scan.metrics.keys = (p.names s).eraseDups := by
      have phase := done.scan
      rw [show p.scan = some scan from scanned] at phase
      exact keys_scanImports phase
    refine ⟨keys ▸ nodup_eraseDups _,?_⟩
    intro name
    rw [keys,List.mem_eraseDups,names,List.mem_eraseDups]
    rfl
  · intro i member typed
    exact affected_of_mem_produced done ((List.mergeSort_perm ..).mem_iff.mp member) typed

def sharedPinText (version location : String) : String :=
  "\x7b\"pins\":[\x7b\"identity\":\"a\",\"location\":\"" ++ location ++
    "\",\"state\":\x7b\"version\":\"" ++ version ++ "\"\x7d\x7d]\x7d"

def sharedPinTree : FileSystem :=
  Entry.asTop <| .directory [
    ("Sub",.directory [("Package.resolved",.file (sharedPinText "2.0.0" "b").toUTF8)]),
    ("Package.resolved",.file (sharedPinText "1.0.0" "c").toUTF8),
    ("Main.swift",.file "import a".toUTF8)]

def sharedPins : List (Reading LockFile) := [
  .used "./Package.resolved" ⟨[⟨"a","1.0.0",some "c",.registry,[],none⟩],[],0⟩,
  .used "./Sub/Package.resolved" ⟨[⟨"a","2.0.0",some "b",.registry,[],none⟩],[],0⟩]

def sharedPinFacts : List Fact :=
  firstByName ((sharedPins.filterMap Reading.content?).flatMap fun l => declaredFacts "." l.1 l.2)

def sharedPinGraph : Graph := Graph.ofFacts sharedPinFacts [("root",".")]

theorem lockFiles_sharedPinTree : Discovery.lockFiles sharedPinTree "." {} =
    .ok ["./Package.resolved","./Sub/Package.resolved"] := by
  have walked : Discovery.walk sharedPinTree "." {} =
      .ok [⟨".",["Package.resolved","Main.swift"]⟩,⟨"./Sub",["Package.resolved"]⟩] := by decide +kernel
  have chosen : Entry.chosenFiles [⟨".",["Package.resolved","Main.swift"]⟩,⟨"./Sub",["Package.resolved"]⟩]
      (fun _ name => ["Package.resolved"].contains name) =
        ["./Package.resolved","./Sub/Package.resolved"] := by decide +kernel
  have ordered : ["./Package.resolved","./Sub/Package.resolved"].Pairwise
      (fun a b => decide (a ≤ b) = true) := by decide +kernel
  refine bind_eq_ok.mpr ⟨["Package.resolved"],rfl,bind_eq_ok.mpr ⟨_,walked,
    Entry.wantedFiles_eq_ok.mpr ⟨fun _ _ _ _ => ⟨_,rfl⟩,?_⟩⟩⟩
  exact (List.mergeSort_of_pairwise ordered).symm.trans (congrArg (List.mergeSort · _) chosen.symm)

theorem readLockFile_sharedPinTree :
    List.Forall₂ (fun path lock => readLockFile sharedPinTree path = .ok lock)
    ["./Package.resolved","./Sub/Package.resolved"] sharedPins := by
  have used {path text : String} {file : LockFile} (opened : sharedPinTree.readManifest path = .ok text)
      (parsed : LockFile.read text (some path) = .ok file) :
      readLockFile sharedPinTree path = .ok (.used path file) := by
    rw [readLockFile,opened]
    change Reading.keep sharedPinTree path (LockFile.read text (some path)) = _
    rw [parsed]
    rfl
  have top : sharedPinTree.readManifest "./Package.resolved" = .ok (sharedPinText "1.0.0" "c") := by
    decide +kernel
  have below : sharedPinTree.readManifest "./Sub/Package.resolved" = .ok (sharedPinText "2.0.0" "b") := by
    decide +kernel
  exact .cons (used top (by decide +kernel)) (.cons (used below (by decide +kernel)) .nil)

theorem shared_pin_parts_agree : ∃ r, run sharedPinTree {} true = .ok r ∧ Agrees sharedPinTree {} r := by
  obtain ⟨measured,computed⟩ : ∃ m, metrics {} sharedPinGraph = .ok m := exists_eq_ok (by decide +kernel)
  obtain ⟨scores,ends⟩ : ∃ scores, (scanImports sharedPinTree {} (sharedPinFacts.map Fact.name) true >>=
      fun scan => rank {} sharedPinGraph scan sharedPinFacts) = .ok scores :=
    exists_eq_ok (by decide +kernel)
  obtain ⟨scan,scanned,ranked⟩ := bind_eq_ok.mp ends
  have typed : Discovery.projectType sharedPinTree "." {} = .ok .unknown := by decide +kernel
  have noManifest : Discovery.manifest? sharedPinTree "." {} = .ok none := by decide +kernel
  have noProjects : Discovery.projectFiles sharedPinTree "." {} = .ok [] := by decide +kernel
  let p : Phases := ⟨.unknown,["./Package.resolved","./Sub/Package.resolved"],sharedPins,none,[],measured,
    [],[],scan,scores⟩
  have done : p.Completed {} sharedPinTree true :=
    ⟨typed,lockFiles_sharedPinTree,readLockFile_sharedPinTree,noManifest,rfl,computed,noProjects,.nil,
      scanned,ranked⟩
  have ran : run sharedPinTree {} true = .ok (p.result {}) := run_eq_ok_iff.mpr ⟨p,done,rfl⟩
  exact ⟨_,ran,parts_go_by_fact_names sharedPinTree {} true _
    (Entry.wellFormed_of_check _ (by decide +kernel)).asTop ran⟩

end Analysis

end DepAudit
