import DepAudit.Proofs.FileTree.Likeness
import DepAudit.Proofs.FileTree.Places
import DepAudit.Proofs.StableSort

/-! What a walk sees: it comes to a directory exactly when no directory on the way down is hidden or
rejected and the path can still be opened, and what it lists there does not depend on the order of
entries. -/
namespace DepAudit

namespace FilePath

def way (names : List String) : String := if names = [] then "." else "/".intercalate names

theorem relative_eq_way {names : List String} (ok : ∀ name ∈ names, IsName name) (directory : String) :
    relative "/" (below directory names) directory = way names := by
  by_cases none : names = []
  · subst none
    have same := dropCommon_append (reduced (absolute "/" directory)) []
    rw [List.append_nil] at same
    simp [relative,below,way,same]
  · rw [way,if_neg none,relative_below ok none]

theorem way_ne_dot {names : List String} (ok : ∀ name ∈ names, IsName name) (some_ : names ≠ []) :
    way names ≠ "." := by
  intro dot
  rw [way,if_neg some_] at dot
  have split := components_intercalate ok some_
  have alone : components "." = ["."] := by decide +kernel
  rw [dot,alone] at split
  subst split
  exact (ok "." (List.mem_singleton.mpr rfl)).notHere rfl

theorem childPath_way {names : List String} (ok : ∀ name ∈ names, IsName name) (name : String) :
    Entry.childPath (way names) name = way (names ++ [name]) := by
  by_cases none : names = []
  · subst none
    simp [Entry.childPath,way]
  · rw [Entry.childPath,if_neg (way_ne_dot ok none),way,if_neg none,way,if_neg (by simp),
      String.intercalate_append_of_ne_nil none (by simp),String.intercalate_singleton]

end FilePath

namespace Entry

variable {ε : Type} {rejects : String → Except ε Bool} {root path here : String} {names : List String}
  {entries : List (String × Entry)} {vs : List Visit} {v : Visit}

def Admits (rejects : String → Except ε Bool) (here : String) : List String → Prop
  | [] => True
  | name :: names => isHidden name = false ∧ rejects (FilePath.join here name) = .ok false ∧
      Admits rejects (childPath here name) names

-- `front` is what the walk has behind it; it grows by each name, as the way that is asked about does.
theorem admits_way {front : List String} (ok : ∀ name ∈ front ++ names, FilePath.IsName name) :
    Admits rejects (FilePath.way front) names ↔ ∀ above name, above ++ [name] <+: names →
      isHidden name = false ∧ rejects (FilePath.join (FilePath.way (front ++ above)) name) = .ok false := by
  induction names generalizing front with
  | nil => simp [Admits]
  | cons first names ih =>
    have named : ∀ name ∈ front, FilePath.IsName name := fun name member => ok name (by simp [member])
    rw [Admits,FilePath.childPath_way named,ih (by simpa using ok)]
    constructor
    · rintro ⟨shown,kept,later⟩ above name leads
      cases above with
      | nil =>
        obtain ⟨rfl,_⟩ := List.cons_prefix_cons.mp leads
        simpa using ⟨shown,kept⟩
      | cons other above =>
        rw [List.cons_append,List.cons_prefix_cons] at leads
        obtain ⟨rfl,onward⟩ := leads
        simpa using later above name onward
    · intro each
      have one := each [] first (by simp)
      refine ⟨one.1,by simpa using one.2,?_⟩
      intro above name leads
      simpa using each (first :: above) name (List.cons_prefix_cons.mpr ⟨rfl,leads⟩)

theorem passesBy_eq_false {entry : Entry} {name : String} :
    passesBy rejects here name entry = .ok false ↔ (∃ entries, entry = .directory entries) ∧
      isHidden name = false ∧ rejects (FilePath.join here name) = .ok false := by
  cases entry with
  | file content => simp [passesBy]
  | directory entries => cases hidden : isHidden name <;> simp [passesBy,hidden]

theorem visits_of_mem (gone : visitsBelow rejects path here entries = .ok vs)
    {e : String × Entry} (member : e ∈ entries) (notPassed : passesBy rejects here e.1 e.2 = .ok false) :
    ∃ ws, visits rejects (FilePath.join path e.1) (childPath here e.1) e.2 = .ok ws := by
  induction entries generalizing vs with
  | nil => cases member
  | cons first entries ih =>
    obtain ⟨passed,one,later,asked,begun,others,rfl⟩ := visitsBelow_cons_eq_ok.mp gone
    rcases List.mem_cons.mp member with rfl | member
    · obtain rfl := Except.ok.inj (asked.symm.trans notPassed)
      exact ⟨one,begun⟩
    · exact ih others member

/-- The visits below a directory are those to the entries that are not passed by. -/
theorem mem_visitsBelow (gone : visitsBelow rejects path here entries = .ok vs) :
    v ∈ vs ↔ ∃ e ∈ entries, passesBy rejects here e.1 e.2 = .ok false ∧
      ∃ ws, visits rejects (FilePath.join path e.1) (childPath here e.1) e.2 = .ok ws ∧ v ∈ ws := by
  induction entries generalizing vs with
  | nil =>
    cases gone
    simp
  | cons e entries ih =>
    obtain ⟨passed,first,later,asked,begun,others,rfl⟩ := visitsBelow_cons_eq_ok.mp gone
    rw [List.mem_append,ih others]
    simp only [List.mem_cons,exists_eq_or_imp,asked]
    cases passed with
    | true =>
      obtain rfl : first = [] := begun
      simp
    | false =>
      have begun : visits rejects (FilePath.join path e.1) (childPath here e.1) e.2 = .ok first := begun
      simp [begun]

theorem WellFormed.inside? {start found : Entry} (sound : start.WellFormed)
    (lies : start.inside? names = some found) :
    (∀ name ∈ names, IsFileName name) ∧ found.WellFormed := by
  induction names generalizing start with
  | nil => exact ⟨by simp,Option.some.inj lies ▸ sound⟩
  | cons name names ih =>
    cases start with
    | file content => cases lies
    | directory entries =>
      obtain ⟨inner,inside,lies⟩ := Option.bind_eq_some_iff.mp lies
      obtain ⟨later,soundFound⟩ := ih (sound.get? inside) lies
      cases sound with
      | directory named _ _ =>
        exact ⟨List.forall_mem_cons.mpr ⟨named _ (Table.mem_of_get? inside),later⟩,soundFound⟩

theorem mem_visits {start : Entry} (sound : start.WellFormed)
    (gone : visits rejects path here start = .ok vs) :
    v ∈ vs ↔ ∃ names entries, start.inside? names = some (.directory entries) ∧
      Admits rejects here names ∧ (FilePath.below path names).utf8ByteSize ≤ maxPathSize ∧
      v = ⟨FilePath.below path names,fileNames entries⟩ := by
  -- On the tree: each visit is to the directory itself or one name further down.
  induction sound generalizing path here vs with
  | file content =>
    cases gone
    simp only [List.not_mem_nil,false_iff]
    rintro ⟨names,entries,lies,_⟩
    cases names <;> cases lies
  | @directory entries named distinct sound ih =>
    have whole := WellFormed.directory named distinct sound
    rcases visits_directory_eq_ok.mp gone with ⟨long,rfl⟩ | ⟨short,later,below,rfl⟩
    · simp only [List.not_mem_nil,false_iff]
      rintro ⟨names,found,lies,_,short,_⟩
      have grows := size_le_below path (whole.inside? lies).1
      omega
    · rw [List.mem_cons,mem_visitsBelow below]
      constructor
      · rintro (rfl | ⟨e,member,notPassed,ws,begun,inside⟩)
        · exact ⟨[],entries,rfl,trivial,short,rfl⟩
        · obtain ⟨names,found,lies,admitted,fits,rfl⟩ := (ih e member begun).mp inside
          obtain ⟨_,shown,kept⟩ := passesBy_eq_false.mp notPassed
          refine ⟨e.1 :: names,found,?_,⟨shown,kept,admitted⟩,fits,rfl⟩
          rw [inside?,Table.get?_of_mem distinct member]
          exact lies
      · rintro ⟨names,found,lies,admitted,fits,rfl⟩
        cases names with
        | nil =>
          obtain rfl := Entry.directory.inj (Option.some.inj lies)
          exact .inl rfl
        | cons name names =>
          obtain ⟨inner,inside,lies⟩ := Option.bind_eq_some_iff.mp lies
          obtain ⟨shown,kept,admitted⟩ := admitted
          have member := Table.mem_of_get? inside
          have isDirectory : ∃ entries, inner = .directory entries := by
            cases inner with
            | file content => cases names <;> cases lies
            | directory entries => exact ⟨entries,rfl⟩
          have notPassed := passesBy_eq_false.mpr ⟨isDirectory,shown,kept⟩
          obtain ⟨ws,begun⟩ := visits_of_mem below member notPassed
          exact .inr ⟨_,member,notPassed,ws,begun,
            (ih _ member begun).mpr ⟨names,found,lies,admitted,fits,rfl⟩⟩

private theorem visitsBelow_end (decided : ∀ way, ∃ b, rejects way = .ok b)
    (each : ∀ e ∈ entries, ∀ path here, ∃ vs, visits rejects path here e.2 = .ok vs)
    (path here : String) : ∃ vs, visitsBelow rejects path here entries = .ok vs := by
  induction entries with
  | nil => exact ⟨[],rfl⟩
  | cons e entries ih =>
    obtain ⟨first_,each⟩ := List.forall_mem_cons.mp each
    obtain ⟨later,gone⟩ := ih each
    have asked : ∃ b, passesBy rejects here e.1 e.2 = .ok b := by
      cases e.2 with
      | file content => exact ⟨true,rfl⟩
      | directory entries =>
        rw [passesBy]
        split
        · exact ⟨true,rfl⟩
        · exact decided _
    obtain ⟨passed,known⟩ := asked
    cases passed with
    | true => exact ⟨_,visitsBelow_cons_eq_ok.mpr ⟨true,[],later,known,rfl,gone,rfl⟩⟩
    | false =>
      obtain ⟨first,begun⟩ := first_ (FilePath.join path e.1) (childPath here e.1)
      exact ⟨_,visitsBelow_cons_eq_ok.mpr ⟨false,first,later,known,begun,gone,rfl⟩⟩

theorem visits_end (decided : ∀ way, ∃ b, rejects way = .ok b) {start : Entry}
    (sound : start.WellFormed) (path here : String) : ∃ vs, visits rejects path here start = .ok vs := by
  induction sound generalizing path here with
  | file content => exact ⟨[],rfl⟩
  | directory _ _ _ ih =>
    obtain ⟨later,gone⟩ := visitsBelow_end decided ih path here
    by_cases short : path.utf8ByteSize ≤ maxPathSize
    · exact ⟨_,visits_directory_eq_ok.mpr (.inr ⟨short,later,gone,rfl⟩)⟩
    · exact ⟨_,visits_directory_eq_ok.mpr (.inl ⟨Nat.lt_of_not_le short,rfl⟩)⟩

theorem mem_wantedFiles_iff {wanted : Visit → String → Except ε Bool} {paths : List String}
    (found : wantedFiles vs wanted = .ok paths) {file : String} : file ∈ paths ↔
      ∃ v ∈ vs, ∃ name ∈ v.files, wanted v name = .ok true ∧ file = FilePath.join v.path name := by
  obtain ⟨decided,rfl⟩ := wantedFiles_eq_ok.mp found
  have yes {v : Visit} {name : String} : isYes (wanted v name) = true ↔ wanted v name = .ok true := by
    cases wanted v name <;> simp [isYes]
  simp only [(List.mergeSort_perm ..).mem_iff,chosenFiles,List.mem_flatMap,List.mem_map,
    List.mem_filter,yes,and_assoc,eq_comm]

end Entry

namespace FileSystem
open Entry

variable {ε : Type} {rejects : String → Except ε Bool} {root path : String} {names : List String}
  {entries : List (String × Entry)} {vs : List Visit} {v : Visit}

/-- The directory at these names below a root, where neither it nor a directory on the way down to it is
hidden or rejected. What is asked about a directory is the way to it from the root. -/
structure Visible (rejects : String → Except ε Bool) (disk : FileSystem) (root : String)
    (names : List String) (entries : List (String × Entry)) : Prop where
  directory : ∃ start, disk.open? root = .ok start ∧ start.inside? names = some (.directory entries)
  shown : ∀ above name, above ++ [name] <+: names → isHidden name = false ∧
    rejects (FilePath.join (FilePath.relative "/" (FilePath.below root above) root) name) = .ok false

variable {disk disk' : FileSystem}

theorem Visible.wellFormed (visible : Visible rejects disk root names entries) (sound : disk.WellFormed) :
    (∀ name ∈ names, IsFileName name) ∧ (Entry.directory entries).WellFormed := by
  obtain ⟨start,opened,lies⟩ := visible.directory
  exact (sound.open? opened).inside? lies

/-- A walk comes to the visible directories, except where their paths are too long to be opened. -/
theorem mem_walk (sound : disk.WellFormed) (gone : disk.walk rejects root = .ok vs) :
    v ∈ vs ↔ ∃ names entries, Visible rejects disk root names entries ∧
      (FilePath.below root names).utf8ByteSize ≤ maxPathSize ∧
      v = ⟨FilePath.below root names,fileNames entries⟩ := by
  -- A walk builds its ways name by name; they are the paths from the root that visibility asks about.
  have ways {start : Entry} (opened : disk.open? root = .ok start) {names : List String}
      {entries : List (String × Entry)} (lies : start.inside? names = some (.directory entries)) :
      Admits rejects "." names ↔ Visible rejects disk root names entries := by
    have named : ∀ name ∈ names, FilePath.IsName name := fun name member =>
      (((sound.open? opened).inside? lies).1 name member).toIsName
    have asked (above : List String) (name : String) (leads : above ++ [name] <+: names) :
        FilePath.relative "/" (FilePath.below root above) root = FilePath.way above :=
      FilePath.relative_eq_way
        (fun n member => named n (leads.subset (List.mem_append_left _ member))) root
    have dot : ("." : String) = FilePath.way [] := rfl
    rw [dot,admits_way (by simpa using named)]
    constructor
    · intro shown
      refine ⟨⟨start,opened,lies⟩,?_⟩
      intro above name leads
      rw [asked above name leads]
      simpa using shown above name leads
    · intro visible above name leads
      have shown := visible.shown above name leads
      rw [asked above name leads] at shown
      simpa using shown
  rcases walk_eq_ok.mp gone with ⟨nothing,rfl⟩ | ⟨below,opened,gone⟩
  · simp only [List.not_mem_nil,false_iff]
    rintro ⟨names,entries,⟨⟨start,opened,lies⟩,_⟩,_⟩
    rw [list?,opened] at nothing
    cases start with
    | file content => cases names <;> cases lies
    | directory entries => cases nothing
  · rw [mem_visits (sound.open? opened) gone]
    constructor
    · rintro ⟨names,entries,lies,admitted,short,same⟩
      exact ⟨names,entries,(ways opened lies).mp admitted,short,same⟩
    · rintro ⟨names,entries,visible,short,same⟩
      obtain ⟨start,openedToo,lies⟩ := visible.directory
      obtain rfl := Except.ok.inj (opened.symm.trans openedToo)
      exact ⟨names,entries,lies,(ways opened lies).mpr visible,short,same⟩

theorem walk_ends (decided : ∀ way, ∃ b, rejects way = .ok b) (sound : disk.WellFormed) (root : String) :
    ∃ vs, disk.walk rejects root = .ok vs := by
  cases listed : disk.list? root with
  | none => exact ⟨[],walk_eq_ok.mpr (.inl ⟨listed,rfl⟩)⟩
  | some entries =>
    have opened : disk.open? root = .ok (.directory entries) := by
      rw [list?] at listed
      split at listed
      · obtain rfl := Option.some.inj listed
        assumption
      · cases listed
    obtain ⟨vs,gone⟩ := visits_end decided (sound.open? opened) root "."
    exact ⟨vs,walk_eq_ok.mpr (.inr ⟨entries,opened,gone⟩)⟩

theorem Visible.reordered (reordered : Reordered disk disk')
    (visible : Visible rejects disk root names entries) : ∃ entries',
      Visible rejects disk' root names entries' ∧
      Entry.Reordered (.directory entries) (.directory entries') := by
  obtain ⟨start,opened,lies⟩ := visible.directory
  obtain ⟨start',opened',like⟩ := Entry.Reordered.carries.open? reordered.top reordered.here opened
  obtain ⟨found,lies',like⟩ := Entry.Reordered.carries.inside? like lies
  obtain ⟨entries',rfl,_⟩ := Entry.Reordered.carries.directory like
  exact ⟨entries',⟨⟨start',opened',lies'⟩,visible.shown⟩,like⟩

/-! Files that are listed. -/

/-- The wanted files of visible directories, as far as these can be opened: in order, none of them twice. -/
structure Lists (rejects : String → Except ε Bool) (wanted : String → String → Prop) (disk : FileSystem)
    (root : String) (paths : List String) : Prop where
  exactly : ∀ path, path ∈ paths ↔ ∃ names entries name content,
    Visible rejects disk root names entries ∧
    (FilePath.below root names).utf8ByteSize ≤ maxPathSize ∧ (name,Entry.file content) ∈ entries ∧
    wanted (FilePath.below root names) name ∧ path = FilePath.join (FilePath.below root names) name
  ordered : paths.Pairwise (· < ·)

variable {wanted : String → String → Prop} {paths paths' : List String}

theorem Lists.mono (lists : Lists rejects wanted disk root paths) (sound : disk.WellFormed)
    (reordered : Reordered disk disk') {file : String} (member : file ∈ paths)
    (listsToo : Lists rejects wanted disk' root paths') : file ∈ paths' := by
  obtain ⟨names,entries,name,content,visible,short,inside,chosen,same⟩ := (lists.exactly file).mp member
  obtain ⟨entries',visible',like⟩ := visible.reordered reordered
  obtain ⟨_,soundHere⟩ := visible.wellFormed sound
  cases soundHere with
  | directory _ distinct _ =>
    exact (listsToo.exactly file).mpr
      ⟨names,entries',name,content,visible',short,like.file_mem distinct inside,chosen,same⟩

theorem pairwise_wantedFiles {asked : Visit → String → Except ε Bool} (sound : disk.WellFormed)
    (gone : disk.walk rejects root = .ok vs) {visited : List Visit} (fewer : visited.Sublist vs)
    (found : wantedFiles visited asked = .ok paths) : paths.Pairwise (· < ·) := by
  -- Sorting leaves equal paths side by side; that there are none comes from the places of the visits.
  obtain ⟨start,placed,once⟩ := walk_places sound gone
  obtain ⟨_,rfl⟩ := wantedFiles_eq_ok.mp found
  have apart := nodup_relative_chosenFiles (fun v member => placed v (fewer.subset member))
    (once.sublist (fewer.map Visit.path)) fun v name => isYes (asked v name)
  have distinct := (List.mergeSort_perm _ fun a b => decide (a ≤ b)).nodup_iff.mpr apart.of_map
  have sorted := List.pairwise_mergeSort text_le_trans text_le_total
    (chosenFiles visited fun v name => isYes (asked v name))
  apply (sorted.and distinct).imp
  rintro a b ⟨before,different⟩
  exact String.not_le.mp fun after =>
    different (String.le_antisymm (of_decide_eq_true before) after)

/-- What a walk finds among the files of its visits is what visible directories list. -/
theorem lists_wantedFiles {asked : Visit → String → Except ε Bool} (sound : disk.WellFormed)
    (gone : disk.walk rejects root = .ok vs) {visited : List Visit} (fewer : visited.Sublist vs)
    (found : wantedFiles visited asked = .ok paths)
    (wants : ∀ v ∈ vs, ∀ name, (v ∈ visited ∧ asked v name = .ok true) ↔ wanted v.path name) :
    Lists rejects wanted disk root paths := by
  constructor
  · intro file
    rw [mem_wantedFiles_iff found]
    constructor
    · rintro ⟨v,here,name,listed,chosen,rfl⟩
      obtain ⟨names,entries,visible,short,rfl⟩ := (mem_walk sound gone).mp (fewer.subset here)
      obtain ⟨content,inside⟩ := mem_fileNames.mp listed
      have fits := (wants _ (fewer.subset here) name).mp ⟨here,chosen⟩
      exact ⟨names,entries,name,content,visible,short,inside,fits,rfl⟩
    · rintro ⟨names,entries,name,content,visible,short,inside,fits,rfl⟩
      have here := (mem_walk sound gone).mpr ⟨names,entries,visible,short,rfl⟩
      obtain ⟨kept,chosen⟩ := (wants _ here name).mpr fits
      exact ⟨_,kept,name,mem_fileNames.mpr ⟨content,inside⟩,chosen,rfl⟩
  · exact pairwise_wantedFiles sound gone fewer found

end FileSystem

end DepAudit
