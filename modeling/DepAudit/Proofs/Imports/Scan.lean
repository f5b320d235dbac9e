import DepAudit.Issue
import DepAudit.Proofs.Binary64
import DepAudit.Proofs.Discovery
import DepAudit.Proofs.Imports.Counting

/-! What a scan says about its files: which of them import a name, how often, and what share of all files
they are. -/
namespace DepAudit.Imports

def timesIn (disk : FileSystem) (name path : String) : Int :=
  ((disk.text? path).bind fun source => (count source [name]).get? name).getD 0

def importers (disk : FileSystem) (files : List String) (name : String) : List String :=
  files.filter fun path => decide (0 < timesIn disk name path)

def partials (disk : FileSystem) (files names : List String) : List (String × Option (Table String Int)) :=
  files.map fun path => (path,countFile disk names path)

variable {disk : FileSystem} {files names : List String} {name : String}

theorem timesIn_nonneg (disk : FileSystem) (name path : String) : 0 ≤ timesIn disk name path := by
  rw [timesIn]
  cases counted : (disk.text? path).bind fun source => (count source [name]).get? name with
  | none => exact Int.le_refl 0
  | some n =>
    obtain ⟨source,_,counted⟩ := Option.bind_eq_some_iff.mp counted
    exact Int.le_of_lt (pos_of_get?_count counted)

private theorem mentions_file (asked : name ∈ names) (path : String) :
    (mentions [(path,countFile disk names path)]).filter (fun m => m.name = name) =
      (importers disk [path] name).map fun path => ⟨name,path,timesIn disk name path⟩ := by
  rw [mentions,List.flatMap_singleton,List.filter_map,importers]
  cases read : disk.text? path with
  | none => simp [countFile,timesIn,read]
  | some source =>
    -- A name has the same count whatever else is asked for, so that one key of the table is left.
    have one : (count source names).get? name = (count source [name]).get? name :=
      get?_count_congr asked (List.mem_singleton.mpr rfl)
    have found := Table.filter_key (nodup_keys_count source names) name
    rw [one] at found
    have chosen : ((fun m : Mention => decide (m.name = name)) ∘ fun c : String × Int => ⟨c.1,path,c.2⟩) =
        fun c => decide (c.1 = name) := rfl
    rw [countFile,read,Option.map_some,Option.getD_some,chosen,found]
    cases counted : (count source [name]).get? name with
    | none => simp [timesIn,read,counted]
    | some n =>
      have positive := pos_of_get?_count counted
      simp [timesIn,read,counted,positive]

/-- The counts of a name are those of the files that import it. -/
theorem mentions_filter (asked : name ∈ names) (files : List String) :
    (mentions (partials disk files names)).filter (fun m => m.name = name) =
      (importers disk files name).map fun path => ⟨name,path,timesIn disk name path⟩ := by
  induction files with
  | nil => rfl
  | cons path files ih =>
    have split : mentions (partials disk (path :: files) names) =
        mentions [(path,countFile disk names path)] ++ mentions (partials disk files names) := by
      rw [partials,List.map_cons,← List.singleton_append,mentions,List.flatMap_append]
      rfl
    have files_ : importers disk (path :: files) name =
        importers disk [path] name ++ importers disk files name := by
      rw [← List.singleton_append]
      exact List.filter_append ..
    rw [split,List.filter_append,mentions_file asked,ih,files_,List.map_append]

def locations (disk : FileSystem) (files : List String) (name : String) : Table String Int :=
  (importers disk files name).map fun path => (path,timesIn disk name path)

theorem merged_locations (disk : FileSystem) (asked : name ∈ names) (distinct : files.Nodup) :
    ((merge (partials disk files names)).get? name).getD [] = locations disk files name := by
  -- No path is counted twice, so nothing is added up in the merged table.
  have once : (((importers disk files name).map fun path =>
      (⟨name,path,timesIn disk name path⟩ : Mention)).map Mention.path).Nodup := by
    rw [List.map_map]
    have same : (Mention.path ∘ fun path => ⟨name,path,timesIn disk name path⟩) = id := rfl
    rw [same,List.map_id]
    exact distinct.filter _
  rw [getD_get?_merge,mentions_filter asked,byFile,Table.accumulate_of_nodup _ _ _ once,List.map_map]
  apply List.map_congr_left
  intro path _
  exact congrArg (path,·) (Int.zero_add _)

theorem mem_locations {path : String} {n : Int} : (path,n) ∈ locations disk files name ↔
    path ∈ files ∧ 0 < n ∧
      ∃ source, disk.text? path = some source ∧ (count source [name]).get? name = some n := by
  rw [locations,List.mem_map]
  constructor
  · rintro ⟨path,member,same⟩
    obtain ⟨rfl,rfl⟩ := Prod.mk.inj same
    obtain ⟨member,positive⟩ := List.mem_filter.mp member
    have positive := of_decide_eq_true positive
    refine ⟨member,positive,?_⟩
    rw [timesIn] at positive ⊢
    cases counted : (disk.text? path).bind fun source => (count source [name]).get? name with
    | none =>
      rw [counted] at positive
      exact absurd positive (by decide)
    | some n => exact Option.bind_eq_some_iff.mp counted
  · rintro ⟨member,positive,source,read,counted⟩
    have times : timesIn disk name path = n := by
      rw [timesIn,read,Option.bind_some,counted]
      rfl
    refine ⟨path,List.mem_filter.mpr ⟨member,?_⟩,by rw [times]⟩
    rw [times]
    exact decide_eq_true positive

theorem pairwise_locations (sorted : files.Pairwise (· < ·)) (name : String) :
    (locations disk files name).Pairwise fun a b => a.1 < b.1 :=
  List.pairwise_map.mpr (sorted.filter _)

theorem length_locations_le (disk : FileSystem) (files : List String) (name : String) :
    (locations disk files name).length ≤ files.length := by
  rw [locations,List.length_map]
  exact List.length_filter_le ..

theorem locations_eq_nil_iff : locations disk files name = [] ↔
    ∀ path ∈ files, timesIn disk name path = 0 := by
  rw [locations,List.map_eq_nil_iff,importers,List.filter_eq_nil_iff]
  refine forall₂_congr fun path _ => ?_
  have nonneg := timesIn_nonneg disk name path
  rw [decide_eq_true_eq]
  omega

def measure {α : Type} [Scalar α] (disk : FileSystem) (files : List String) (name : String) :
    ImportMetrics α where
  name := name
  total := ((locations disk files name).map Prod.snd).sum
  coverage := Scalar.share (locations disk files name).length files.length
  locations := locations disk files name

theorem metricsOf_merge {α : Type} [Scalar α] (asked : name ∈ names) (sorted : files.Pairwise (· < ·)) :
    (metricsOf (merge (partials disk files names)) files.length name : ImportMetrics α) =
      measure disk files name := by
  have merged := merged_locations disk asked (sorted.imp String.ne_of_lt)
  have ordered : (locations disk files name).mergeSort (fun a b => decide (a.1 ≤ b.1)) =
      locations disk files name := by
    apply List.mergeSort_of_pairwise
    exact (pairwise_locations sorted name).imp fun less => decide_eq_true (Std.le_of_lt less)
  have counted : (locations disk files name).countP (fun p => decide (0 < p.2)) =
      (locations disk files name).length := by
    rw [List.countP_eq_length]
    rintro ⟨path,n⟩ member
    exact decide_eq_true (mem_locations.mp member).2.1
  have total (t : Table String Int) : t.foldl (fun n p => n + p.2) 0 = (t.map Prod.snd).sum := by
    rw [List.sum_eq_foldl,List.foldl_map]
  rw [metricsOf,merged]
  dsimp only [ImportMetrics.importing]
  rw [ordered,counted,total,measure]

structure Measured (disk : FileSystem) (files : List String) (m : ImportMetrics Float) : Prop where
  located : ∀ path n, (path,n) ∈ m.locations ↔ path ∈ files ∧ 0 < n ∧
    ∃ source, disk.text? path = some source ∧ (count source [m.name]).get? m.name = some n
  ordered : m.locations.Pairwise fun a b => a.1 < b.1
  total : m.total = (m.locations.map Prod.snd).sum
  coverage : m.coverage = Scalar.share m.locations.length files.length
  bounds : 0.0 ≤ m.coverage ∧ m.coverage ≤ 1.0

/-- What a scan says about the imports of names in the files that it went through. -/
structure Describes (disk : FileSystem) (files names : List String) (scan : ImportScan Float) : Prop where
  once : scan.metrics.keys.Nodup
  keys : ∀ name, name ∈ scan.metrics.keys ↔ name ∈ names
  known : ∀ name ∈ (merge (partials disk files names.eraseDups)).keys, name ∈ scan.metrics.keys
  filesScanned : scan.filesScanned = files.length
  filesFailed : scan.filesFailed = files.countP fun path => decide (disk.text? path = none)
  measured : ∀ p ∈ scan.metrics, p.2.name = p.1 ∧ Measured disk files p.2
  unused : ∀ given ⊆ names, Issue.unused scan given = if files = [] then [] else
    (given.filter fun name => files.all fun path => decide (timesIn disk name path = 0)).map
      (Issue.ofUnused · files.length)

theorem keys_scanFiles {α : Type} [Scalar α] (disk : FileSystem) (names files : List String) :
    (scanFiles disk names files : ImportScan α).metrics.keys = names.eraseDups := by
  rw [scanFiles,Table.keys,List.map_map]
  exact List.map_id _

theorem exists_of_scan {α : Type} [Scalar α] {root : String} {endings patterns : List Value}
    {limits : ScanLimits} {scan : ImportScan α}
    (scanned : Imports.scan disk root names endings patterns limits = .ok scan) :
    ∃ files, sourceFiles disk root endings patterns = .ok files ∧ scan = scanFiles disk names files := by
  obtain ⟨_,_,rest⟩ := bind_eq_ok.mp scanned
  obtain ⟨files,found,rest⟩ := bind_eq_ok.mp rest
  refine ⟨files,mapError_eq_ok.mp found,?_⟩
  split at rest
  · exact (Except.ok.inj rest).symm
  · obtain ⟨_,_,same⟩ := bind_eq_ok.mp rest
    exact (Except.ok.inj same).symm

theorem total_locations_le_zero_iff : ((locations disk files name).map Prod.snd).sum ≤ 0 ↔
    locations disk files name = [] := by
  constructor
  · intro nothing
    by_contra some_
    have positive : 0 < ((locations disk files name).map Prod.snd).sum := by
      refine List.sum_pos _ ?_ (by simpa using some_)
      intro n member
      obtain ⟨⟨path,n⟩,listed,rfl⟩ := List.mem_map.mp member
      exact (mem_locations.mp listed).2.1
    omega
  · intro none
    rw [none]
    exact Int.le_refl 0

theorem describes_scanFiles (sorted : files.Pairwise (· < ·)) (names : List String) :
    Describes disk files names (scanFiles disk names files) := by
  have metrics : (scanFiles disk names files : ImportScan Float).metrics =
      names.eraseDups.map fun name => (name,measure disk files name) := by
    apply List.map_congr_left
    intro name asked
    exact congrArg (name,·) (metricsOf_merge asked sorted)
  have keys := keys_scanFiles (α := Float) disk names files
  have distinct : (scanFiles disk names files : ImportScan Float).metrics.keys.Nodup :=
    keys ▸ nodup_eraseDups names
  refine ⟨distinct,?_,?_,rfl,?_,?_,?_⟩
  · intro name
    rw [keys,List.mem_eraseDups]
  · intro name merged
    obtain ⟨p,member,counted⟩ := mem_keys_merge.mp merged
    obtain ⟨path,_,rfl⟩ := List.mem_map.mp member
    rw [countFile] at counted
    cases read : disk.text? path with
    | none =>
      rw [read] at counted
      cases counted
    | some source =>
      rw [read] at counted
      obtain ⟨n,counted⟩ := Table.mem_keys_iff.mp counted
      rw [keys]
      exact mem_of_get?_count counted
  · refine (List.countP_map ..).trans (List.countP_congr ?_)
    intro path _
    cases read : disk.text? path <;> simp [countFile,read]
  · rw [metrics]
    refine List.forall_mem_map.mpr fun name _ => ⟨rfl,fun path n => mem_locations,
      pairwise_locations sorted name,rfl,rfl,?_⟩
    exact Binary64.share_bounds (length_locations_le disk files name)
  · intro given requested
    have scanned : (scanFiles disk names files : ImportScan Float).filesScanned = files.length := rfl
    rw [Issue.unused,scanned]
    have empty : files.length = 0 ↔ files = [] := List.length_eq_zero_iff
    simp only [empty]
    split
    · rfl
    · refine congrArg (List.map _) (List.filter_congr fun name asked => ?_)
      have member : (name,measure disk files name) ∈
          (scanFiles disk names files : ImportScan Float).metrics := by
        rw [metrics]
        exact List.mem_map_of_mem (List.mem_eraseDups.mpr (requested asked))
      rw [Issue.isUnused,Table.get?_of_mem distinct member,Option.any_some,Bool.eq_iff_iff,
        decide_eq_true_eq,measure,total_locations_le_zero_iff,locations_eq_nil_iff,List.all_eq_true]
      simp only [decide_eq_true_eq]

/-- A scan without a limit of time comes to its end, and describes the imports in the source files. -/
theorem scan_describes_source_files (disk : FileSystem) (root : String) (names : List String)
    (endings patterns : List Value) (limits : ScanLimits) (workers : Number) (sound : disk.WellFormed)
    (isPath : FilePath.isPath root = true) (textPatterns : ∀ v ∈ patterns, v.isText = true)
    (textEndings : ∀ v ∈ endings, v.isText = true) (numeric : limits.workers.number = .ok workers)
    (unlimited : limits.timeout = .null) :
    ∃ files scan, sourceFiles disk root endings patterns = .ok files ∧
      Imports.scan disk root names endings patterns limits = .ok scan ∧
      Describes disk files names scan := by
  obtain ⟨files,found,lists⟩ := sourceFiles_lists sound isPath textPatterns textEndings
  have inTime : checkTime limits files.length = .ok () := by rw [checkTime,unlimited]
  refine ⟨files,_,found,?_,describes_scanFiles lists.ordered names⟩
  rw [Imports.scan,numeric,found]
  simp only [Except.mapError,bind,Except.bind,inTime]
  split <;> rfl

def importingTree : FileSystem :=
  Entry.asTop <| .directory [
    ("b.swift",.file "import A\nimport A\nimport B".toUTF8),
    ("c.swift",.file ⟨#[0xFF]⟩),
    ("a",.directory [("a.swift",.file "import A".toUTF8),("d.swift",.file "import AB".toUTF8)])]

theorem importing_tree_is_described : ∃ scan,
    Imports.scan importingTree "." ["A","B","C"] [.text ".swift"] [] ⟨.int 8,.null,true⟩ = .ok scan ∧
    Describes importingTree ["./a/a.swift","./a/d.swift","./b.swift","./c.swift"] ["A","B","C"] scan ∧
    Issue.unused scan ["C","B"] = [Issue.ofUnused "C" 4] := by
  obtain ⟨files,scan,found,scanned,describes⟩ := scan_describes_source_files importingTree "."
    ["A","B","C"] [.text ".swift"] [] ⟨.int 8,.null,true⟩ (.int 8)
    (Entry.wellFormed_of_check _ (by decide +kernel)).asTop (by decide +kernel) (List.forall_mem_nil _)
    (List.forall_mem_singleton.mpr rfl) rfl rfl
  have walked : importingTree.walk (isExcluded []) "." =
      .ok [⟨".",["b.swift","c.swift"]⟩,⟨"./a",["a.swift","d.swift"]⟩] := by decide +kernel
  have chosen : Entry.chosenFiles [⟨".",["b.swift","c.swift"]⟩,⟨"./a",["a.swift","d.swift"]⟩]
      (fun _ name => isYes (isSource [.text ".swift"] name)) =
        ["./b.swift","./c.swift","./a/a.swift","./a/d.swift"] := by decide +kernel
  have listed : sourceFiles importingTree "." [.text ".swift"] [] =
      .ok ["./a/a.swift","./a/d.swift","./b.swift","./c.swift"] := by
    refine bind_eq_ok.mpr ⟨_,rfl,bind_eq_ok.mpr ⟨_,walked,Entry.wantedFiles_eq_ok.mpr ⟨?_,?_⟩⟩⟩
    · exact fun _ _ name _ => (isSource_spec (List.forall_mem_singleton.mpr rfl) name).1
    · rw [chosen]
      simp [List.mergeSort,List.MergeSort.Internal.splitInTwo]
  obtain rfl := Except.ok.inj (found.symm.trans listed)
  refine ⟨scan,scanned,describes,(describes.unused ["C","B"] (by decide)).trans ?_⟩
  decide +kernel

end DepAudit.Imports
