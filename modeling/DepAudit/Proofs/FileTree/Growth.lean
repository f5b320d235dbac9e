import DepAudit.Proofs.FileTree.Likeness
import DepAudit.Proofs.FileTree.Places
import DepAudit.Proofs.StableSort

/-! One file more in a tree: what opened before opens as it did, and a walk comes to the same directories,
in one of which it now finds the file. -/
namespace DepAudit

namespace Entry

inductive Gains (file : String) (content : ByteArray) : List String → Entry → Entry → Prop
  | here {front back : List (String × Entry)} (new : file ∉ Table.keys (front ++ back)) :
      Gains file content [] (.directory (front ++ back))
        (.directory (front ++ (file,.file content) :: back))
  | deeper {front back : List (String × Entry)} {name : String} {names : List String} {inner inner' : Entry}
      (gains : Gains file content names inner inner') :
      Gains file content (name :: names) (.directory (front ++ (name,inner) :: back))
        (.directory (front ++ (name,inner') :: back))

def Grown (file : String) (content : ByteArray) (entry entry' : Entry) : Prop :=
  entry' = entry ∨ ∃ names, Gains file content names entry entry'

variable {file : String} {content : ByteArray} {names : List String} {entry entry' found : Entry}

theorem Grown.eq_of_file {bytes : ByteArray} (grown : Grown file content (.file bytes) entry') :
    entry' = .file bytes := by
  rcases grown with same | ⟨names,gains⟩
  · exact same
  · cases gains

theorem Gains.directories (gains : Gains file content names entry entry') :
    ∃ entries entries', entry = .directory entries ∧ entry' = .directory entries' := by
  cases gains with
  | here new => exact ⟨_,_,rfl,rfl⟩
  | deeper gains => exact ⟨_,_,rfl,rfl⟩

/-- A directory that has grown has what it had, grown, and under no other name than the file's anything
more. -/
theorem Grown.directory {entries : List (String × Entry)}
    (grown : Grown file content (.directory entries) entry') : ∃ entries', entry' = .directory entries' ∧
      (∀ name inner, Table.get? entries name = some inner →
        ∃ inner', Table.get? entries' name = some inner' ∧ Grown file content inner inner') ∧
      ∀ name, name ≠ file → Table.get? entries name = none → Table.get? entries' name = none := by
  rcases grown with rfl | ⟨names,gains⟩
  · exact ⟨entries,rfl,fun name inner found => ⟨inner,found,.inl rfl⟩,fun _ _ none => none⟩
  · cases gains with
    | @here front back new =>
      have other {name : String} (different : name ≠ file) :
          Table.get? (front ++ (file,.file content) :: back) name = Table.get? (front ++ back) name := by
        rw [Table.get?_append,Table.get?_append,Table.get?,if_neg (Ne.symm different)]
      refine ⟨_,rfl,fun name inner found => ⟨inner,?_,.inl rfl⟩,fun name different none => ?_⟩
      · have different : name ≠ file := by
          rintro rfl
          exact new (Table.mem_keys_iff.mpr ⟨inner,found⟩)
        exact (other different).trans found
      · exact (other different).trans none
    | @deeper front back key names inner inner' gains =>
      refine ⟨_,rfl,fun name found lies => ?_,fun name different none => ?_⟩
      · rw [Table.get?_append,Table.get?] at lies ⊢
        cases first : Table.get? front name with
        | some e =>
          rw [first] at lies
          exact ⟨e,rfl,.inl (Option.some.inj lies)⟩
        | none =>
          rw [first] at lies
          by_cases same : key = name
          · rw [if_pos same] at lies ⊢
            exact ⟨inner',rfl,.inr ⟨names,Option.some.inj lies ▸ gains⟩⟩
          · rw [if_neg same] at lies ⊢
            exact ⟨found,lies,.inl rfl⟩
      · rw [Table.get?_append,Table.get?] at none ⊢
        by_cases same : key = name
        · simp [same] at none
        · rwa [if_neg same] at none ⊢

theorem Grown.carries : Carries (Grown file content) where
  directory := by
    intro entries entry' grown
    obtain ⟨entries',same,old,_⟩ := grown.directory
    exact ⟨entries',same,old⟩

/-- What a tree gains below a place, the entry at that place gains. -/
theorem Gains.inside? {top top' : Entry} {front back : List String} (sound : top.WellFormed)
    (gains : Gains file content (front ++ back) top top') (lies : top.inside? front = some entry) :
    ∃ entry', top'.inside? front = some entry' ∧ Gains file content back entry entry' := by
  induction front generalizing top top' with
  | nil => exact ⟨top',rfl,Option.some.inj lies ▸ gains⟩
  | cons name front ih =>
    cases gains with
    | @deeper first last _ _ inner inner' gains =>
      cases sound with
      | directory named distinct sound =>
        rw [Entry.inside?,Table.get?_middle (Table.not_mem_front distinct)] at lies ⊢
        exact ih (sound (name,inner) (by simp)) gains lies

theorem Gains.named (sound : entry.WellFormed) (gains : Gains file content names entry entry') :
    ∀ name ∈ names, IsFileName name := by
  induction gains with
  | here new => exact nofun
  | @deeper front back name names inner inner' gains ih =>
    cases sound with
    | directory named _ sound =>
      exact List.forall_mem_cons.mpr ⟨named (name,inner) (by simp),ih (sound (name,inner) (by simp))⟩

/-- The file lies where it was gained. -/
theorem Gains.inside?_new (sound : entry.WellFormed) (gains : Gains file content names entry entry') :
    entry'.inside? (names ++ [file]) = some (.file content) := by
  induction gains with
  | @here front back new =>
    rw [Table.keys,List.map_append,List.mem_append,not_or] at new
    rw [List.nil_append,Entry.inside?,Table.get?_middle new.1]
    rfl
  | @deeper front back name names inner inner' gains ih =>
    cases sound with
    | directory named distinct sound =>
      rw [List.cons_append,Entry.inside?,Table.get?_middle (Table.not_mem_front distinct)]
      exact ih (sound (name,inner) (by simp))

/-! Walking. -/

inductive Finds (file path : String) : List Visit → List Visit → Prop
  | intro (front back : List Visit) (early late : List String) :
      Finds file path (front ++ ⟨path,early ++ late⟩ :: back)
        (front ++ ⟨path,early ++ file :: late⟩ :: back)

theorem Finds.append {path : String} {vs vs' : List Visit} (finds : Finds file path vs vs')
    (first last : List Visit) : Finds file path (first ++ (vs ++ last)) (first ++ (vs' ++ last)) := by
  cases finds with
  | intro front back early late =>
    have shifted : Finds file path ((first ++ front) ++ ⟨path,early ++ late⟩ :: (back ++ last))
        ((first ++ front) ++ ⟨path,early ++ file :: late⟩ :: (back ++ last)) := .intro ..
    simpa only [List.append_assoc,List.cons_append] using shifted

private theorem head_eq_of_visit {start : Entry} {path key name : String} {keys : List String} {v : Visit}
    (visit : IsVisit start path (key :: keys) v) (named : ∀ n ∈ name :: names, IsFileName n)
    (place : v.path = FilePath.below path (name :: names)) : key = name := by
  have split := visit.reduced_eq
  rw [place,FilePath.reduced_below fun n member => (named n member).toIsName] at split
  exact (List.cons.inj (List.append_cancel_left split)).1.symm

/-- Of the visits to a directory, those below one of its entries are where that entry is. -/
private theorem mem_middle {ε : Type} {rejects : String → Except ε Bool} {path here name : String}
    {front back : List (String × Entry)} {inner : Entry} {files : List String}
    {first middle last : List Visit} {v : Visit}
    (sound : (Entry.directory (front ++ (name,inner) :: back)).WellFormed)
    (named : ∀ n ∈ name :: names, IsFileName n)
    (one : visitsBelow rejects path here front = .ok first)
    (other : visitsBelow rejects path here back = .ok last)
    (member : v ∈ ⟨path,files⟩ :: (first ++ (middle ++ last)))
    (place : v.path = FilePath.below path (name :: names)) : v ∈ middle := by
  have distinct : (Table.keys (front ++ (name,inner) :: back)).Nodup := by
    cases sound with
    | directory _ distinct _ => exact distinct
  rw [Table.keys,List.map_append,List.nodup_append] at distinct
  obtain ⟨_,distinctLast,apart⟩ := distinct
  rcases List.mem_cons.mp member with rfl | member
  · have split := congrArg FilePath.reduced place
    rw [FilePath.reduced_below fun n inside => (named n inside).toIsName] at split
    exact absurd (List.self_eq_append_right.mp split) (List.cons_ne_nil name names)
  rcases List.mem_append.mp member with member | member
  · obtain ⟨e,listed,keys,visit⟩ := visitsBelow_placed sound (List.sublist_append_left ..) one v member
    have same := head_eq_of_visit visit named place
    exact absurd same (apart _ (List.mem_map_of_mem listed) _ (List.mem_cons_self ..))
  rcases List.mem_append.mp member with member | member
  · exact member
  · have fewer : back.Sublist (front ++ (name,inner) :: back) :=
      (List.sublist_cons_self ..).trans (List.sublist_append_right ..)
    obtain ⟨e,listed,keys,visit⟩ := visitsBelow_placed sound fewer other v member
    have same := head_eq_of_visit visit named place
    exact absurd (List.mem_map.mpr ⟨e,listed,same⟩) (List.nodup_cons.mp distinctLast).1

section

variable {ε : Type} {rejects : String → Except ε Bool}

/-- The walk that comes to the directory that gains a file finds that file there, and nothing else. -/
theorem visits_gains {path here : String} {vs : List Visit} {v : Visit} (sound : entry.WellFormed)
    (gains : Gains file content names entry entry') (gone : visits rejects path here entry = .ok vs)
    (member : v ∈ vs) (place : v.path = FilePath.below path names) :
    ∃ vs', visits rejects path here entry' = .ok vs' ∧ Finds file v.path vs vs' := by
  induction gains generalizing path here vs with
  | @here front back new =>
    rcases visits_directory_eq_ok.mp gone with ⟨_,rfl⟩ | ⟨short,later,below,rfl⟩
    · cases member
    · obtain ⟨first,last,one,other,rfl⟩ := visitsBelow_append_eq_ok.mp below
      have passed : visitsBelow rejects path here ((file,.file content) :: back) = .ok last :=
        visitsBelow_cons_eq_ok.mpr ⟨true,[],last,rfl,rfl,other,rfl⟩
      refine ⟨_,visits_directory_eq_ok.mpr (.inr ⟨short,_,
        visitsBelow_append_eq_ok.mpr ⟨first,last,one,passed,rfl⟩,rfl⟩),?_⟩
      rw [place]
      change Finds file path _ _
      have found : Finds file path ([] ++ ⟨path,fileNames front ++ fileNames back⟩ :: (first ++ last))
          ([] ++ ⟨path,fileNames front ++ file :: fileNames back⟩ :: (first ++ last)) := .intro ..
      simpa [fileNames] using found
  | @deeper front back name names inner inner' gains ih =>
    rcases visits_directory_eq_ok.mp gone with ⟨_,rfl⟩ | ⟨short,later,below,rfl⟩
    · cases member
    obtain ⟨first,rest,one,others,rfl⟩ := visitsBelow_append_eq_ok.mp below
    obtain ⟨passed,middle,last,asked,begun,other,rfl⟩ := visitsBelow_cons_eq_ok.mp others
    have named := (Gains.deeper gains).named sound
    have soundInner : inner.WellFormed := by
      cases sound with
      | directory _ _ inside => exact inside (name,inner) (by simp)
    have within := mem_middle sound named one other member place
    -- The walk went into the entry that grows: a visit comes from there.
    cases passed with
    | true =>
      obtain rfl : middle = [] := begun
      cases within
    | false =>
      obtain ⟨middle',begun',found⟩ := ih soundInner begun within place
      obtain ⟨entries,entries',rfl,rfl⟩ := gains.directories
      have onward : visitsBelow rejects path here ((name,.directory entries') :: back) =
          .ok (middle' ++ last) :=
        visitsBelow_cons_eq_ok.mpr ⟨false,middle',last,asked,begun',other,rfl⟩
      refine ⟨_,visits_directory_eq_ok.mpr (.inr ⟨short,_,
        visitsBelow_append_eq_ok.mpr ⟨first,_,one,onward,rfl⟩,rfl⟩),?_⟩
      have around := found.append (⟨path,fileNames (front ++ (name,.directory entries) :: back)⟩ :: first)
        last
      simpa [fileNames] using around

/-- Among the files that a test of names wants, the one more stands where its path belongs; when it is not
wanted, nothing changes. -/
theorem wantedFiles_finds {path : String} {vs vs' : List Visit} (finds : Finds file path vs vs')
    {test : String → Except ε Bool} {paths : List String}
    (found : wantedFiles vs (fun _ => test) = .ok paths) :
    (test file = .ok false → wantedFiles vs' (fun _ => test) = .ok paths) ∧
      (test file = .ok true → ∃ front back, paths = front ++ back ∧
        wantedFiles vs' (fun _ => test) = .ok (front ++ FilePath.join path file :: back)) := by
  obtain ⟨decided,rfl⟩ := wantedFiles_eq_ok.mp found
  cases finds with
  | intro first last early late =>
    simp only [List.forall_mem_append,List.forall_mem_cons] at decided
    obtain ⟨one,⟨front,back⟩,other⟩ := decided
    have all (b : Bool) (asked : test file = .ok b) :
        ∀ v ∈ first ++ ⟨path,early ++ file :: late⟩ :: last, ∀ name ∈ v.files, ∃ b, test name = .ok b := by
      simp only [List.forall_mem_append,List.forall_mem_cons]
      exact ⟨one,⟨front,⟨b,asked⟩,back⟩,other⟩
    constructor
    · intro asked
      refine wantedFiles_eq_ok.mpr ⟨all false asked,?_⟩
      simp [chosenFiles,asked,isYes]
    · intro asked
      let chosen : Visit → String → Bool := fun _ name => isYes (test name)
      let before := chosenFiles first chosen ++
        (early.filter fun name => isYes (test name)).map (FilePath.join path)
      let behind := (late.filter fun name => isYes (test name)).map (FilePath.join path) ++
        chosenFiles last chosen
      have without : chosenFiles (first ++ ⟨path,early ++ late⟩ :: last) chosen = before ++ behind := by
        simp [chosenFiles,before,behind,chosen]
      have inserted : chosenFiles (first ++ ⟨path,early ++ file :: late⟩ :: last) chosen =
          before ++ FilePath.join path file :: behind := by
        simp [chosenFiles,before,behind,chosen,asked,isYes]
      obtain ⟨front,back,sorted,sortedToo⟩ :=
        mergeSort_insert text_le_trans text_le_total (FilePath.join path file) before behind
      refine ⟨front,back,?_,wantedFiles_eq_ok.mpr ⟨all true asked,?_⟩⟩
      · rw [← sorted,← without]
      · rw [← sortedToo,← inserted]

theorem filterM_finds {path : String} {vs vs' ws : List Visit} (finds : Finds file path vs vs')
    {test : String → Except ε Bool} (kept : vs.filterM (fun v => test v.path) = .ok ws) :
    ∃ ws', vs'.filterM (fun v => test v.path) = .ok ws' ∧ (ws' = ws ∨ Finds file path ws ws') := by
  obtain ⟨decided,rfl⟩ := filterM_eq_ok.mp kept
  cases finds with
  | intro first last early late =>
    refine ⟨_,filterM_eq_ok.mpr ⟨?_,rfl⟩,?_⟩
    · simpa only [List.forall_mem_append,List.forall_mem_cons] using decided
    · simp only [List.filter_append,List.filter_cons]
      split
      · exact .inr (.intro ..)
      · exact .inl rfl

end

end Entry

namespace FileSystem
open Entry (child)

structure Gains (file : String) (content : ByteArray) (path : String) (disk disk' : FileSystem) : Prop where
  top : Entry.Gains file content (disk.place path) disk.top disk'.top
  here : disk'.here = disk.here
  strays : disk'.strays = disk.strays

variable {file : String} {content : ByteArray} {disk disk' : FileSystem} {path : String} {found : Entry}

theorem Gains.grown (gains : disk.Gains file content path disk') :
    Entry.Grown file content disk.top disk'.top := .inr ⟨_,gains.top⟩

theorem Gains.open? (gains : disk.Gains file content path disk') {at_ : String}
    (opened : disk.open? at_ = .ok found) :
    ∃ found', disk'.open? at_ = .ok found' ∧ Entry.Grown file content found found' :=
  Entry.Grown.carries.open? gains.grown gains.here opened

/-! Reading what was there. -/

theorem bytes_eq_of_visit {start : Entry} {root name : String} {v : Visit}
    (gains : disk.Gains file content path disk') (opened : disk.open? root = .ok start)
    (visit : Entry.IsVisit start root names v) (member : name ∈ v.files) :
    disk'.bytes (FilePath.join v.path name) = disk.bytes (FilePath.join v.path name) := by
  obtain ⟨entries,lies,sound,files⟩ := visit.directory
  obtain ⟨text,inside⟩ := Entry.mem_fileNames.mp (files ▸ member)
  have named : ∀ n ∈ names ++ [name], IsFileName n := fun n within =>
    (List.mem_append.mp within).elim (visit.named n) fun last =>
      List.mem_singleton.mp last ▸ Entry.isFileName_of_mem_files visit member
  have here : start.inside? (names ++ [name]) = some (.file text) := by
    cases sound with
    | directory _ distinct _ =>
      rw [Entry.inside?_append,lies,Option.bind_some,Entry.inside?,Table.get?_of_mem distinct inside]
      rfl
  have way : FilePath.join v.path name = FilePath.below root (names ++ [name]) := by
    rw [FilePath.below_append,visit.path]
    rfl
  obtain ⟨start',opened',grownStart⟩ := gains.open? opened
  obtain ⟨found,here',grownFile⟩ := Entry.Grown.carries.inside? grownStart here
  obtain rfl := Entry.Grown.eq_of_file grownFile
  rw [way,bytes,bytes,open?_below opened named here,open?_below opened' named here']

theorem isFile_join_eq {start : Entry} {root name : String}
    (gains : disk.Gains file content path disk') (opened : disk.open? root = .ok start)
    (ok : IsFileName name) (different : name ≠ file) :
    disk'.isFile (FilePath.join root name) = disk.isFile (FilePath.join root name) := by
  obtain ⟨start',opened',grownStart⟩ := gains.open? opened
  rw [isFile,isFile,open?_join opened ok,open?_join opened' ok]
  by_cases long : Entry.maxPathSize < (FilePath.join root name).utf8ByteSize
  · rw [if_pos long,if_pos long]
  · rw [if_neg long,if_neg long]
    cases start with
    | file text =>
      obtain rfl := Entry.Grown.eq_of_file grownStart
      rfl
    | directory entries =>
      obtain ⟨entries',rfl,old,new⟩ := Entry.Grown.directory grownStart
      cases under : Table.get? entries name with
      | none => simp only [child,under,new name different under]
      | some inner =>
        obtain ⟨inner',under',grownInner⟩ := old name inner under
        simp only [child,under,under']
        rcases grownInner with rfl | ⟨names,gains⟩
        · rfl
        · obtain ⟨_,_,rfl,rfl⟩ := gains.directories
          rfl

/-! Walking it. -/

theorem walk_gains {ε : Type} {rejects : String → Except ε Bool} {root : String} {vs : List Visit}
    {v : Visit} (sound : disk.WellFormed) (gone : disk.walk rejects root = .ok vs) (member : v ∈ vs)
    (gains : disk.Gains file content v.path disk') :
    ∃ start start' vs', disk.open? root = .ok start ∧ disk'.open? root = .ok start' ∧
      (∃ names, Entry.IsVisit start root names v ∧ Entry.Gains file content names start start') ∧
      disk'.walk rejects root = .ok vs' ∧ Entry.Finds file v.path vs vs' := by
  rcases walk_eq_ok.mp gone with ⟨_,rfl⟩ | ⟨entries,opened,gone⟩
  · cases member
  · have soundStart := sound.open? opened
    obtain ⟨names,visit⟩ := (Entry.visits_places soundStart gone).1 v member
    obtain ⟨start',opened',_⟩ := gains.open? opened
    have below := gains.top
    rw [visit.path,place_below fun name member => (visit.named name member).toIsName] at below
    have lies := inside?_of_open? (gains.here ▸ sound.here) opened'
    rw [place,gains.here] at lies
    obtain ⟨other,liesToo,gainsStart⟩ := below.inside? sound.top (inside?_of_open? sound.here opened)
    obtain rfl := Option.some.inj (liesToo.symm.trans lies)
    obtain ⟨vs',gone',finds⟩ := Entry.visits_gains soundStart gainsStart gone member visit.path
    obtain ⟨_,entries',_,rfl⟩ := gainsStart.directories
    exact ⟨_,_,vs',opened,opened',⟨names,visit,gainsStart⟩,
      walk_eq_ok.mpr (.inr ⟨entries',opened',gone'⟩),finds⟩

end FileSystem

end DepAudit
