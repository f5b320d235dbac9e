import DepAudit.Proofs.FileTree.Opening

/-! Trees that are alike: what opens at a path in one opens at that path in the other, whether the other
holds more files or holds the same ones in another order. -/
namespace DepAudit

namespace Entry

structure Carries (Like : Entry → Entry → Prop) : Prop where
  directory : ∀ {entries entry'}, Like (.directory entries) entry' → ∃ entries',
    entry' = .directory entries' ∧ ∀ name inner, Table.get? entries name = some inner →
      ∃ inner', Table.get? entries' name = some inner' ∧ Like inner inner'

section

variable {Like : Entry → Entry → Prop} {above above' higher : List Entry} {entry entry' found : Entry}
  {name : String}

theorem Carries.step (carries : Carries Like) (like : Like entry entry')
    (stack : List.Forall₂ Like above above') (step : Step above entry name higher found) :
    ∃ higher' found', Step above' entry' name higher' found' ∧ Like found found' ∧
      List.Forall₂ Like higher higher' := by
  cases step with
  | stay blank =>
    obtain ⟨entries',rfl,_⟩ := carries.directory like
    exact ⟨_,_,.stay blank,like,stack⟩
  | top =>
    obtain ⟨entries',rfl,_⟩ := carries.directory like
    cases stack with
    | nil => exact ⟨_,_,.top,like,.nil⟩
  | up =>
    obtain ⟨entries',rfl,_⟩ := carries.directory like
    cases stack with
    | cons first rest => exact ⟨_,_,.up,first,rest⟩
  | down visible short inside =>
    obtain ⟨entries',rfl,held⟩ := carries.directory like
    obtain ⟨inner',inside',likeInner⟩ := held _ _ inside
    exact ⟨_,_,.down visible short inside',likeInner,.cons like stack⟩

theorem Carries.follow (carries : Carries Like) {path : List String} (like : Like entry entry')
    (stack : List.Forall₂ Like above above') (led : Entry.follow above entry path = .ok found) :
    ∃ found', Entry.follow above' entry' path = .ok found' ∧ Like found found' := by
  induction path generalizing above above' entry entry' with
  | nil => exact ⟨entry',rfl,Except.ok.inj led ▸ like⟩
  | cons name path ih =>
    obtain ⟨higher,next,step,led⟩ := follow_cons_eq_ok.mp led
    obtain ⟨higher',next',step',like,stack⟩ := carries.step like stack step
    obtain ⟨found',led',like⟩ := ih like stack led
    exact ⟨found',follow_cons_eq_ok.mpr ⟨_,_,step',led'⟩,like⟩

theorem Carries.open? (carries : Carries Like) {disk disk' : FileSystem} {path : String}
    (like : Like disk.top disk'.top) (here : disk'.here = disk.here)
    (opened : disk.open? path = .ok found) : ∃ found', disk'.open? path = .ok found' ∧ Like found found' := by
  obtain ⟨isPath,full,short,led⟩ := FileSystem.open?_eq_ok.mp opened
  obtain ⟨found',led',like⟩ := carries.follow like .nil led
  exact ⟨found',FileSystem.open?_eq_ok.mpr ⟨isPath,full,short,here ▸ led'⟩,like⟩

theorem Carries.inside? (carries : Carries Like) {names : List String} (like : Like entry entry')
    (lies : entry.inside? names = some found) :
    ∃ found', entry'.inside? names = some found' ∧ Like found found' := by
  induction names generalizing entry entry' with
  | nil => exact ⟨entry',rfl,Option.some.inj lies ▸ like⟩
  | cons name names ih =>
    cases entry with
    | file bytes => cases lies
    | directory entries =>
      obtain ⟨inner,under,lies⟩ := Option.bind_eq_some_iff.mp lies
      obtain ⟨entries',rfl,held⟩ := carries.directory like
      obtain ⟨inner',under',like⟩ := held name inner under
      obtain ⟨found',lies',like⟩ := ih like lies
      exact ⟨found',Option.bind_eq_some_iff.mpr ⟨inner',under',lies'⟩,like⟩

end

/-! Trees that hold the same in another order. -/

/-- The same files under the same names; how the entries of a directory follow one another may differ. -/
inductive Reordered : Entry → Entry → Prop
  | file (content : ByteArray) : Reordered (.file content) (.file content)
  | directory {entries entries' : List (String × Entry)}
      (names : (Table.keys entries).Perm (Table.keys entries'))
      (inner : ∀ name entry entry', Table.get? entries name = some entry →
        Table.get? entries' name = some entry' → Reordered entry entry') :
      Reordered (.directory entries) (.directory entries')

namespace Reordered

variable {entry entry' : Entry} {entries entries' : List (String × Entry)}

theorem symm (reordered : Reordered entry entry') : Reordered entry' entry := by
  induction reordered with
  | file content => exact .file content
  | directory names inner ih =>
    refine .directory names.symm ?_
    intro name one other found foundToo
    exact ih name other one foundToo found

theorem get? (reordered : Reordered (.directory entries) (.directory entries')) {name : String}
    (found : Table.get? entries name = some entry) :
    ∃ entry', Table.get? entries' name = some entry' ∧ Reordered entry entry' := by
  cases reordered with
  | directory names inner =>
    have listed : name ∈ Table.keys entries' := names.mem_iff.mp (Table.mem_keys_iff.mpr ⟨entry,found⟩)
    obtain ⟨entry',foundToo⟩ := Table.mem_keys_iff.mp listed
    exact ⟨entry',foundToo,inner name entry entry' found foundToo⟩

theorem carries : Carries Reordered where
  directory := by
    intro entries entry' reordered
    cases reordered with
    | directory names inner =>
      exact ⟨_,rfl,fun name entry found => (Reordered.directory names inner).get? found⟩

theorem wellFormed (reordered : Reordered entry entry') (sound : entry.WellFormed) :
    entry'.WellFormed := by
  induction reordered with
  | file content => exact .file content
  | @directory entries entries' names inner ih =>
    cases sound with
    | directory named distinct sound =>
      have distinct' : (Table.keys entries').Nodup := names.nodup_iff.mp distinct
      have back : Reordered (.directory entries') (.directory entries) := (directory names inner).symm
      refine .directory ?_ distinct' ?_
      · intro e member
        have listed : e.1 ∈ Table.keys entries := names.mem_iff.mpr (List.mem_map_of_mem member)
        obtain ⟨old,member,same⟩ := List.mem_map.mp listed
        exact same ▸ named old member
      · intro e member
        have found := Table.get?_of_mem distinct' member
        obtain ⟨old,foundToo,_⟩ := back.get? found
        exact ih e.1 old e.2 foundToo found (sound _ (Table.mem_of_get? foundToo))

theorem file_mem (reordered : Reordered (.directory entries) (.directory entries'))
    (distinct : (Table.keys entries).Nodup) {name : String} {content : ByteArray}
    (member : (name,Entry.file content) ∈ entries) : (name,Entry.file content) ∈ entries' := by
  obtain ⟨entry',found,like⟩ := reordered.get? (Table.get?_of_mem distinct member)
  cases like with
  | file => exact Table.mem_of_get? found

end Reordered

end Entry

structure FileSystem.Reordered (disk disk' : FileSystem) : Prop where
  top : Entry.Reordered disk.top disk'.top
  here : disk'.here = disk.here

namespace FileSystem.Reordered

variable {disk disk' : FileSystem}

theorem symm (reordered : Reordered disk disk') : Reordered disk' disk :=
  ⟨reordered.top.symm,reordered.here.symm⟩

theorem wellFormed (reordered : Reordered disk disk') (sound : disk.WellFormed) : disk'.WellFormed :=
  ⟨reordered.top.wellFormed sound.top,reordered.here ▸ sound.here⟩

end FileSystem.Reordered

end DepAudit
