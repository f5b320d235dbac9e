import DepAudit.FileTree.Walk
import DepAudit.Proofs.FileTree.Opening
import DepAudit.Proofs.Outcome
import Mathlib.Data.List.Nodup

/-! Where a walk comes to in a tree: to directories at names below its start, and to none of them twice. -/
namespace DepAudit

namespace Entry

/-- A visit to the directory that lies at the names below the start of a walk. -/
structure IsVisit (start : Entry) (path : String) (names : List String) (v : Visit) : Prop where
  named : ∀ name ∈ names, IsFileName name
  path : v.path = FilePath.below path names
  directory : ∃ entries, start.inside? names = some (.directory entries) ∧
    WellFormed (.directory entries) ∧ v.files = fileNames entries

section

variable {ε : Type} {rejects : String → Except ε Bool} {path here : String}
  {entries : List (String × Entry)} {vs : List Visit}

theorem visits_directory_eq_ok : visits rejects path here (.directory entries) = .ok vs ↔
    (maxPathSize < path.utf8ByteSize ∧ vs = []) ∨ (path.utf8ByteSize ≤ maxPathSize ∧
      ∃ later, visitsBelow rejects path here entries = .ok later ∧
        vs = ⟨path,fileNames entries⟩ :: later) := by
  rw [visits]
  split
  · rename_i long
    have notShort := Nat.not_le.mpr long
    simp [long,notShort,eq_comm]
  · rename_i fits
    simp only [fits,false_and,false_or,Nat.not_lt.mp fits,true_and]
    rw [bind_eq_ok]
    exact exists_congr fun later => and_congr_right fun _ =>
      ⟨fun same => (Except.ok.inj same).symm,fun same => same ▸ rfl⟩

theorem visitsBelow_cons_eq_ok {name : String} {entry : Entry} :
    visitsBelow rejects path here ((name,entry) :: entries) = .ok vs ↔
      ∃ passed first later, passesBy rejects here name entry = .ok passed ∧
        (if passed then first = [] else
          visits rejects (FilePath.join path name) (childPath here name) entry = .ok first) ∧
        visitsBelow rejects path here entries = .ok later ∧ vs = first ++ later := by
  rw [visitsBelow,bind_eq_ok]
  constructor
  · rintro ⟨passed,asked,rest⟩
    cases passed with
    | true =>
      obtain ⟨first,none,rest⟩ := bind_eq_ok.mp rest
      obtain ⟨later,others,same⟩ := bind_eq_ok.mp rest
      exact ⟨true,first,later,asked,(Except.ok.inj none).symm,others,(Except.ok.inj same).symm⟩
    | false =>
      obtain ⟨first,gone,rest⟩ := bind_eq_ok.mp rest
      obtain ⟨later,others,same⟩ := bind_eq_ok.mp rest
      exact ⟨false,first,later,asked,gone,others,(Except.ok.inj same).symm⟩
  · rintro ⟨passed,first,later,asked,gone,others,rfl⟩
    refine ⟨passed,asked,?_⟩
    cases passed with
    | true =>
      obtain rfl : first = [] := gone
      exact bind_eq_ok.mpr ⟨[],rfl,bind_eq_ok.mpr ⟨later,others,rfl⟩⟩
    | false => exact bind_eq_ok.mpr ⟨first,gone,bind_eq_ok.mpr ⟨later,others,rfl⟩⟩

theorem IsVisit.reduced_eq {start : Entry} {names : List String} {v : Visit}
    (visit : IsVisit start path names v) :
    FilePath.reduced v.path = FilePath.reduced path ++ names := by
  rw [visit.path,FilePath.reduced_below fun name member => (visit.named name member).toIsName]

/-- A visit below an entry of a directory is a visit below the directory. -/
theorem IsVisit.up {name : String} {entry : Entry} {names : List String} {v : Visit}
    (sound : WellFormed (.directory entries)) (member : (name,entry) ∈ entries)
    (visit : IsVisit entry (FilePath.join path name) names v) :
    IsVisit (.directory entries) path (name :: names) v := by
  cases sound with
  | directory named distinct inner =>
    refine ⟨List.forall_mem_cons.mpr ⟨named _ member,visit.named⟩,visit.path,?_⟩
    obtain ⟨below,lies,rest⟩ := visit.directory
    refine ⟨below,?_,rest⟩
    rw [inside?,Table.get?_of_mem distinct member]
    exact lies

private theorem visitsBelow_places {start : List (String × Entry)} (sound : WellFormed (.directory start))
    (inner : ∀ e ∈ entries, ∀ path here vs, visits rejects path here e.2 = .ok vs →
      (∀ v ∈ vs, ∃ names, IsVisit e.2 path names v) ∧ (vs.map Visit.path).Nodup)
    (within : entries ⊆ start) (distinct : (Table.keys entries).Nodup)
    (gone : visitsBelow rejects path here entries = .ok vs) :
    (∀ v ∈ vs, ∃ e ∈ entries, ∃ names, IsVisit (.directory start) path (e.1 :: names) v) ∧
      (vs.map Visit.path).Nodup := by
  induction entries generalizing vs with
  | nil =>
    cases gone
    exact ⟨nofun,List.nodup_nil⟩
  | cons e entries ih =>
    obtain ⟨name,entry⟩ := e
    obtain ⟨new,distinct⟩ := List.nodup_cons.mp distinct
    obtain ⟨here_,within⟩ := List.cons_subset.mp within
    obtain ⟨passed,first,later,_,begun,others,rfl⟩ := visitsBelow_cons_eq_ok.mp gone
    obtain ⟨placed,once⟩ := ih (fun e member => inner e (.tail _ member)) within distinct others
    have placedToo : ∀ v ∈ later, ∃ e ∈ (name,entry) :: entries, ∃ names,
        IsVisit (.directory start) path (e.1 :: names) v := fun v member =>
      have ⟨e,old,at_⟩ := placed v member
      ⟨e,.tail _ old,at_⟩
    cases passed with
    | true =>
      obtain rfl : first = [] := begun
      exact ⟨placedToo,once⟩
    | false =>
      obtain ⟨placedFirst,onceFirst⟩ := inner _ (List.mem_cons_self ..) _ _ _ begun
      have lifted : ∀ v ∈ first, ∃ names, IsVisit (.directory start) path (name :: names) v :=
        fun v member => (placedFirst v member).imp fun _ visit => visit.up sound here_
      refine ⟨fun v member => ?_,?_⟩
      · rcases List.mem_append.mp member with member | member
        · exact ⟨_,List.mem_cons_self ..,lifted v member⟩
        · exact placedToo v member
      · rw [List.map_append]
        refine List.nodup_append.mpr ⟨onceFirst,once,?_⟩
        rintro _ one _ other rfl
        obtain ⟨v,memberFirst,same⟩ := List.mem_map.mp one
        obtain ⟨w,memberLater,sameToo⟩ := List.mem_map.mp other
        obtain ⟨names,visit⟩ := lifted v memberFirst
        obtain ⟨e,old,others,visitToo⟩ := placed w memberLater
        have split := visit.reduced_eq.symm.trans
          ((congrArg FilePath.reduced (same.trans sameToo.symm)).trans visitToo.reduced_eq)
        -- Two visits at one path lie below entries of one name, and names do not repeat.
        have heads := (List.cons.inj (List.append_cancel_left split)).1
        exact new (List.mem_map.mpr ⟨e,old,heads.symm⟩)

/-- A walk comes to directories below its start, and to each of them once. -/
theorem visits_places {start : Entry} (sound : start.WellFormed)
    (gone : visits rejects path here start = .ok vs) :
    (∀ v ∈ vs, ∃ names, IsVisit start path names v) ∧ (vs.map Visit.path).Nodup := by
  induction sound generalizing path here vs with
  | file content =>
    cases gone
    exact ⟨nofun,List.nodup_nil⟩
  | @directory entries named distinct sound ih =>
    have whole := WellFormed.directory named distinct sound
    rcases visits_directory_eq_ok.mp gone with ⟨_,rfl⟩ | ⟨_,later,below,rfl⟩
    · exact ⟨nofun,List.nodup_nil⟩
    · obtain ⟨placed,once⟩ := visitsBelow_places whole (fun e member path here vs => ih e member)
        (List.Subset.refl _) distinct below
      have top : IsVisit (.directory entries) path [] ⟨path,fileNames entries⟩ :=
        ⟨nofun,rfl,entries,rfl,whole,rfl⟩
      constructor
      · refine List.forall_mem_cons.mpr ⟨⟨[],top⟩,fun v member => ?_⟩
        obtain ⟨e,_,names,visit⟩ := placed v member
        exact ⟨_,visit⟩
      · refine List.nodup_cons.mpr ⟨fun again => ?_,once⟩
        obtain ⟨v,member,same⟩ := List.mem_map.mp again
        obtain ⟨e,_,names,visit⟩ := placed v member
        have split := (congrArg FilePath.reduced same).symm.trans visit.reduced_eq
        exact List.cons_ne_nil _ _ (List.self_eq_append_right.mp split)

end

section

variable {ε : Type} {rejects : String → Except ε Bool} {path here : String}
  {entries others : List (String × Entry)} {vs : List Visit}

theorem visitsBelow_placed {start : List (String × Entry)} (sound : WellFormed (.directory start))
    (within : entries.Sublist start) (gone : visitsBelow rejects path here entries = .ok vs) :
    ∀ v ∈ vs, ∃ e ∈ entries, ∃ names, IsVisit (.directory start) path (e.1 :: names) v := by
  have whole := sound
  cases whole with
  | directory named distinct inner =>
    have below : ∀ e ∈ entries, ∀ path here vs, visits rejects path here e.2 = .ok vs →
        (∀ v ∈ vs, ∃ names, IsVisit e.2 path names v) ∧ (vs.map Visit.path).Nodup :=
      fun e member path here vs => visits_places (inner e (within.subset member))
    exact (visitsBelow_places sound below within.subset (distinct.sublist (within.map Prod.fst)) gone).1

theorem visitsBelow_append_eq_ok : visitsBelow rejects path here (entries ++ others) = .ok vs ↔
    ∃ first later, visitsBelow rejects path here entries = .ok first ∧
      visitsBelow rejects path here others = .ok later ∧ vs = first ++ later := by
  induction entries generalizing vs with
  | nil =>
    constructor
    · exact fun gone => ⟨[],vs,rfl,gone,rfl⟩
    · rintro ⟨first,later,none,gone,rfl⟩
      exact Except.ok.inj none ▸ gone
  | cons e entries ih =>
    obtain ⟨name,entry⟩ := e
    rw [List.cons_append,visitsBelow_cons_eq_ok]
    constructor
    · rintro ⟨passed,head,rest,asked,begun,gone,rfl⟩
      obtain ⟨first,later,one,other,rfl⟩ := ih.mp gone
      exact ⟨head ++ first,later,visitsBelow_cons_eq_ok.mpr ⟨passed,head,first,asked,begun,one,rfl⟩,other,
        (List.append_assoc ..).symm⟩
    · rintro ⟨both,later,one,other,rfl⟩
      obtain ⟨passed,head,first,asked,begun,rest,rfl⟩ := visitsBelow_cons_eq_ok.mp one
      exact ⟨passed,head,first ++ later,asked,begun,ih.mpr ⟨first,later,rest,other,rfl⟩,
        List.append_assoc ..⟩

end

/-! Files that a walk finds. -/

theorem nodup_fileNames {entries : List (String × Entry)} (distinct : (Table.keys entries).Nodup) :
    (fileNames entries).Nodup := by
  refine distinct.sublist ?_
  induction entries with
  | nil => exact .slnil
  | cons e entries ih =>
    obtain ⟨name,entry⟩ := e
    have later := ih (List.nodup_cons.mp distinct).2
    cases entry with
    | file content => exact later.cons_cons name
    | directory inner => exact later.cons name

theorem mem_fileNames {entries : List (String × Entry)} {name : String} :
    name ∈ fileNames entries ↔ ∃ content, (name,Entry.file content) ∈ entries := by
  rw [fileNames,List.mem_filterMap]
  constructor
  · rintro ⟨⟨k,entry⟩,member,same⟩
    cases entry with
    | file content =>
      obtain rfl := Option.some.inj same
      exact ⟨content,member⟩
    | directory inner => cases same
  · rintro ⟨content,member⟩
    exact ⟨_,member,rfl⟩

theorem isFileName_of_mem_files {start : Entry} {path : String} {names : List String} {v : Visit}
    (visit : IsVisit start path names v) {name : String} (member : name ∈ v.files) : IsFileName name := by
  obtain ⟨entries,_,sound,files⟩ := visit.directory
  obtain ⟨content,inside⟩ := mem_fileNames.mp (files ▸ member)
  cases sound with
  | directory named _ _ => exact named _ inside

def chosenFiles (vs : List Visit) (chosen : Visit → String → Bool) : List String :=
  vs.flatMap fun v => (v.files.filter (chosen v)).map (FilePath.join v.path)

theorem wantedFiles_eq_ok {ε : Type} {vs : List Visit} {wanted : Visit → String → Except ε Bool}
    {paths : List String} : wantedFiles vs wanted = .ok paths ↔
      (∀ v ∈ vs, ∀ name ∈ v.files, ∃ b, wanted v name = .ok b) ∧
        paths = (chosenFiles vs fun v name => isYes (wanted v name)).mergeSort
          fun a b => decide (a ≤ b) := by
  have each (v : Visit) (found : List String) :
      (do return (← v.files.filterM (wanted v)).map (FilePath.join v.path)) = Except.ok (ε := ε) found ↔
        (∀ name ∈ v.files, ∃ b, wanted v name = .ok b) ∧
          found = (v.files.filter fun name => isYes (wanted v name)).map (FilePath.join v.path) := by
    rw [bind_eq_ok]
    constructor
    · rintro ⟨names,kept,same⟩
      obtain ⟨decided,rfl⟩ := filterM_eq_ok.mp kept
      exact ⟨decided,(Except.ok.inj same).symm⟩
    · rintro ⟨decided,rfl⟩
      exact ⟨_,filterM_eq_ok.mpr ⟨decided,rfl⟩,rfl⟩
  rw [wantedFiles,bind_eq_ok,chosenFiles,List.flatMap_def]
  constructor
  · rintro ⟨found,searched,same⟩
    obtain ⟨decided,rfl⟩ := (mapM_eq_ok_map each).mp searched
    exact ⟨decided,(Except.ok.inj same).symm⟩
  · rintro ⟨decided,rfl⟩
    exact ⟨_,(mapM_eq_ok_map each).mpr ⟨decided,rfl⟩,rfl⟩

theorem mem_wantedFiles {ε : Type} {vs : List Visit} {wanted : Visit → String → Except ε Bool}
    {paths : List String} (found : wantedFiles vs wanted = .ok paths) {file : String}
    (member : file ∈ paths) : ∃ v ∈ vs, ∃ name ∈ v.files, file = FilePath.join v.path name := by
  obtain ⟨_,rfl⟩ := wantedFiles_eq_ok.mp found
  obtain ⟨v,here,inside⟩ := List.mem_flatMap.mp ((List.mergeSort_perm ..).mem_iff.mp member)
  obtain ⟨name,kept,rfl⟩ := List.mem_map.mp inside
  exact ⟨v,here,name,(List.mem_filter.mp kept).1,rfl⟩

/-- The way to a file of a visit names the directories that lead to it. -/
theorem IsVisit.relative_file {start : Entry} {path : String} {names : List String} {v : Visit}
    (visit : IsVisit start path names v) {name : String} (member : name ∈ v.files) :
    (∀ n ∈ names ++ [name], FilePath.IsName n) ∧
      FilePath.relative "/" (FilePath.join v.path name) path = "/".intercalate (names ++ [name]) := by
  have ok : ∀ n ∈ names ++ [name], FilePath.IsName n := by
    intro n inside
    rcases List.mem_append.mp inside with inside | inside
    · exact (visit.named n inside).toIsName
    · exact List.mem_singleton.mp inside ▸ (isFileName_of_mem_files visit member).toIsName
  refine ⟨ok,?_⟩
  rw [← FilePath.relative_below ok (by simp),FilePath.below_append,visit.path]
  rfl

private theorem same_of_relative_eq {start : Entry} {path : String} {vs : List Visit}
    (placed : ∀ v ∈ vs, ∃ names, IsVisit start path names v) {v w : Visit} (here : v ∈ vs)
    (there : w ∈ vs) {name other : String} (member : name ∈ v.files) (memberToo : other ∈ w.files)
    (same : FilePath.relative "/" (FilePath.join v.path name) path =
      FilePath.relative "/" (FilePath.join w.path other) path) : v.path = w.path ∧ name = other := by
  obtain ⟨names,visit⟩ := placed v here
  obtain ⟨others,visitToo⟩ := placed w there
  obtain ⟨ok,way⟩ := visit.relative_file member
  obtain ⟨okToo,wayToo⟩ := visitToo.relative_file memberToo
  have split := FilePath.intercalate_injective ok okToo (by simp) (by simp)
    (way.symm.trans (same.trans wayToo))
  obtain ⟨rfl,last⟩ := List.append_inj' split rfl
  exact ⟨visit.path.trans visitToo.path.symm,(List.cons.inj last).1⟩

private theorem mem_ways {path way : String} {v : Visit} {chosen : String → Bool}
    (member : way ∈ ((v.files.filter chosen).map (FilePath.join v.path)).map
      fun file => FilePath.relative "/" file path) :
    ∃ name ∈ v.files, way = FilePath.relative "/" (FilePath.join v.path name) path := by
  obtain ⟨file,inside,rfl⟩ := List.mem_map.mp member
  obtain ⟨name,kept,rfl⟩ := List.mem_map.mp inside
  exact ⟨name,(List.mem_filter.mp kept).1,rfl⟩

/-- No two of the files that a walk finds are reported alike. -/
theorem nodup_relative_chosenFiles {start : Entry} {path : String} {vs : List Visit}
    (placed : ∀ v ∈ vs, ∃ names, IsVisit start path names v) (once : (vs.map Visit.path).Nodup)
    (chosen : Visit → String → Bool) :
    ((chosenFiles vs chosen).map fun file => FilePath.relative "/" file path).Nodup := by
  rw [chosenFiles,List.map_flatMap,List.nodup_flatMap]
  constructor
  · intro v here
    obtain ⟨names,visit⟩ := placed v here
    obtain ⟨entries,_,sound,files⟩ := visit.directory
    cases sound with
    | directory _ distinct _ =>
      have filesOnce : v.files.Nodup := files ▸ nodup_fileNames distinct
      rw [List.map_map]
      refine List.Nodup.map_on ?_ (filesOnce.filter (chosen v))
      intro name member other memberToo same
      rw [Function.comp_apply,Function.comp_apply] at same
      have listed := (List.mem_filter.mp member).1
      have listedToo := (List.mem_filter.mp memberToo).1
      exact (same_of_relative_eq placed here here listed listedToo same).2
  · refine (List.pairwise_map.mp once).imp_of_mem fun {v w} here there different => ?_
    intro way one other
    obtain ⟨name,member,same⟩ := mem_ways one
    obtain ⟨other,memberToo,sameToo⟩ := mem_ways other
    exact different (same_of_relative_eq placed here there member memberToo (same.symm.trans sameToo)).1

end Entry

namespace FileSystem

theorem walk_eq_ok {ε : Type} {disk : FileSystem} {rejects : String → Except ε Bool} {root : String}
    {vs : List Visit} : disk.walk rejects root = .ok vs ↔
      (disk.list? root = none ∧ vs = []) ∨ ∃ entries, disk.open? root = .ok (.directory entries) ∧
        Entry.visits rejects root "." (.directory entries) = .ok vs := by
  rw [walk,list?]
  cases disk.open? root with
  | error reason => simp [eq_comm]
  | ok found =>
    cases found with
    | file content => simp [eq_comm]
    | directory entries => simp

theorem walk_places {ε : Type} {disk : FileSystem} {rejects : String → Except ε Bool} {root : String}
    {vs : List Visit} (sound : disk.WellFormed) (gone : disk.walk rejects root = .ok vs) :
    ∃ start, (∀ v ∈ vs, ∃ names, Entry.IsVisit start root names v) ∧ (vs.map Visit.path).Nodup := by
  rcases walk_eq_ok.mp gone with ⟨_,rfl⟩ | ⟨entries,opened,gone⟩
  · exact ⟨disk.top,nofun,List.nodup_nil⟩
  · exact ⟨_,Entry.visits_places (sound.open? opened) gone⟩

end FileSystem

end DepAudit
