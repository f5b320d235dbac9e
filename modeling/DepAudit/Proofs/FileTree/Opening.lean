import DepAudit.FileTree.Basic
import DepAudit.Proofs.FilePath
import DepAudit.Proofs.Table

/-! Trees as a disk holds them, and opening paths in them: what one name of a path can do, what lies below a
directory that opens, and the place below the top that a path stands for. -/
namespace DepAudit

structure IsFileName (name : String) : Prop extends FilePath.IsName name where
  isPath : FilePath.isPath name = true
  short : name.utf8ByteSize ≤ Entry.maxNameSize

instance (name : String) : Decidable (IsFileName name) :=
  decidable_of_iff (name ≠ "" ∧ name ≠ "." ∧ name ≠ ".." ∧ '/' ∉ name.toList ∧
      FilePath.isPath name = true ∧ name.utf8ByteSize ≤ Entry.maxNameSize)
    ⟨fun ⟨notEmpty,notHere,notUp,noSlash,isPath,short⟩ => ⟨⟨notEmpty,notHere,notUp,noSlash⟩,isPath,short⟩,
      fun ok => ⟨ok.notEmpty,ok.notHere,ok.notUp,ok.noSlash,ok.isPath,ok.short⟩⟩

namespace Entry

inductive WellFormed : Entry → Prop
  | file (content : ByteArray) : WellFormed (.file content)
  | directory {entries : List (String × Entry)} (named : ∀ e ∈ entries, IsFileName e.1)
      (distinct : (Table.keys entries).Nodup) (inner : ∀ e ∈ entries, WellFormed e.2) :
      WellFormed (.directory entries)

theorem WellFormed.get? {entries : List (String × Entry)} (sound : WellFormed (.directory entries))
    {name : String} {entry : Entry} (found : Table.get? entries name = some entry) : entry.WellFormed := by
  cases sound with
  | directory _ _ inner => exact inner _ (Table.mem_of_get? found)

/-! Whether a tree is as a disk holds it can be computed. -/

mutual

def isWellFormed : Entry → Bool
  | .file _ => true
  | .directory entries => decide (Table.keys entries).Nodup && areWellFormed entries

def areWellFormed : List (String × Entry) → Bool
  | [] => true
  | (name,entry) :: rest => decide (IsFileName name) && isWellFormed entry && areWellFormed rest

end

mutual

theorem wellFormed_of_check : (entry : Entry) → isWellFormed entry = true → WellFormed entry
  | .file content,_ => .file content
  | .directory entries,checked => by
    simp only [isWellFormed,Bool.and_eq_true,decide_eq_true_eq] at checked
    have each := each_of_check entries checked.2
    exact .directory (fun e member => (each e member).1) checked.1 fun e member => (each e member).2

private theorem each_of_check : (entries : List (String × Entry)) → areWellFormed entries = true →
    ∀ e ∈ entries, IsFileName e.1 ∧ WellFormed e.2
  | [],_ => List.forall_mem_nil _
  | (name,entry) :: rest,checked => by
    simp only [areWellFormed,Bool.and_eq_true,decide_eq_true_eq] at checked
    obtain ⟨⟨named,inner⟩,later⟩ := checked
    exact List.forall_mem_cons.mpr ⟨⟨named,wellFormed_of_check entry inner⟩,each_of_check rest later⟩

end

def inside? (entry : Entry) : List String → Option Entry
  | [] => some entry
  | name :: rest =>
    match entry with
    | .file _ => none
    | .directory entries => (Table.get? entries name).bind (inside? · rest)

/-! Following a path. -/

/-- What one name of a path does: it stays, it goes up, but not above the top, or it goes down. -/
inductive Step : List Entry → Entry → String → List Entry → Entry → Prop
  | stay {above entries name} (blank : name = "" ∨ name = ".") :
      Step above (.directory entries) name above (.directory entries)
  | top {entries} : Step [] (.directory entries) ".." [] (.directory entries)
  | up {above entries entry} : Step (entry :: above) (.directory entries) ".." above entry
  | down {above entries name inner} (visible : name ≠ "" ∧ name ≠ "." ∧ name ≠ "..")
      (short : name.utf8ByteSize ≤ maxNameSize) (found : Table.get? entries name = some inner) :
      Step above (.directory entries) name (.directory entries :: above) inner

variable {above above' : List Entry} {entry entry' found : Entry} {name : String} {rest : List String}

private theorem follow_directory (entries : List (String × Entry)) :
    follow above (.directory entries) (name :: rest) =
      if name = "" || name = "." then follow above (.directory entries) rest
      else if name = ".." then
        match above with
        | [] => follow [] (.directory entries) rest
        | up :: above => follow above up rest
      else if name.utf8ByteSize > maxNameSize then .error .nameTooLong
      else match Table.get? entries name with
        | some inner => follow (.directory entries :: above) inner rest
        | none => .error .notFound := rfl

theorem Step.follow_eq (step : Step above entry name above' entry') :
    follow above entry (name :: rest) = follow above' entry' rest := by
  cases step with
  | stay blank => rw [follow_directory,if_pos (by simpa using blank)]
  | top => rfl
  | up => rfl
  | down visible short found =>
    obtain ⟨notEmpty,notHere,notUp⟩ := visible
    rw [follow_directory,if_neg (by simp [notEmpty,notHere]),if_neg notUp,if_neg (Nat.not_lt.mpr short),found]

theorem follow_cons_eq_ok : follow above entry (name :: rest) = .ok found ↔
    ∃ above' entry', Step above entry name above' entry' ∧ follow above' entry' rest = .ok found := by
  constructor
  · intro led
    cases entry with
    | file content => cases led
    | directory entries =>
      rw [follow_directory] at led
      split at led
      · rename_i blank
        exact ⟨_,_,.stay (by simpa using blank),led⟩
      · rename_i seen
        split at led
        · rename_i same
          subst same
          cases above with
          | nil => exact ⟨_,_,.top,led⟩
          | cons up above => exact ⟨_,_,.up,led⟩
        · rename_i notUp
          split at led
          · cases led
          · rename_i short
            split at led
            · rename_i inner inside
              have visible : name ≠ "" ∧ name ≠ "." := by simpa using seen
              exact ⟨_,_,.down ⟨visible.1,visible.2,notUp⟩ (Nat.not_lt.mp short) inside,led⟩
            · cases led
  · rintro ⟨above',entry',step,led⟩
    exact step.follow_eq.trans led

/-- Following a path goes on as it began, whatever comes behind. -/
theorem follow_append {front : List String} (led : follow above entry front = .ok found) :
    ∃ higher, ∀ back, follow above entry (front ++ back) = follow higher found back := by
  induction front generalizing above entry with
  | nil => exact ⟨above,fun back => Except.ok.inj led ▸ rfl⟩
  | cons name front ih =>
    obtain ⟨above',entry',step,led⟩ := follow_cons_eq_ok.mp led
    obtain ⟨higher,onward⟩ := ih led
    exact ⟨higher,fun back => step.follow_eq.trans (onward back)⟩

theorem Step.of_blank (step : Step above entry name above' entry') (blank : name = "") :
    above' = above ∧ entry' = entry := by
  cases step with
  | stay _ => exact ⟨rfl,rfl⟩
  | top => exact absurd blank (by decide)
  | up => exact absurd blank (by decide)
  | down visible _ _ => exact absurd blank visible.1

theorem follow_of_append_blank {front : List String}
    (led : follow above entry (front ++ [""]) = .ok found) : follow above entry front = .ok found := by
  induction front generalizing above entry with
  | nil =>
    obtain ⟨above',entry',step,rest⟩ := follow_cons_eq_ok.mp led
    obtain ⟨_,same⟩ := step.of_blank rfl
    exact same ▸ rest
  | cons name front ih =>
    obtain ⟨above',entry',step,led⟩ := follow_cons_eq_ok.mp led
    exact step.follow_eq.trans (ih led)

theorem WellFormed.step (sound : entry.WellFormed) (soundAbove : ∀ e ∈ above, e.WellFormed)
    (step : Step above entry name above' entry') :
    entry'.WellFormed ∧ ∀ e ∈ above', e.WellFormed := by
  cases step with
  | stay blank => exact ⟨sound,soundAbove⟩
  | top => exact ⟨sound,nofun⟩
  | up => exact List.forall_mem_cons.mp soundAbove
  | down visible short inside =>
    exact ⟨sound.get? inside,List.forall_mem_cons.mpr ⟨sound,soundAbove⟩⟩

theorem WellFormed.follow {names : List String} (sound : entry.WellFormed)
    (soundAbove : ∀ e ∈ above, e.WellFormed) (led : Entry.follow above entry names = .ok found) :
    found.WellFormed := by
  induction names generalizing entry above with
  | nil => exact Except.ok.inj led ▸ sound
  | cons name names ih =>
    obtain ⟨above',entry',step,led⟩ := follow_cons_eq_ok.mp led
    obtain ⟨sound,soundAbove⟩ := sound.step soundAbove step
    exact ih sound soundAbove led

/-! Opening a path. -/

end Entry

/-- No two entries of a directory have one name, and a program knows where it works. -/
structure FileSystem.WellFormed (disk : FileSystem) : Prop where
  top : disk.top.WellFormed
  here : FilePath.isAbsolute disk.here = true

theorem Entry.WellFormed.asTop {tree : Entry} (sound : tree.WellFormed) : tree.asTop.WellFormed :=
  ⟨sound,(by decide +kernel : FilePath.isAbsolute "/" = true)⟩

namespace FileSystem
open Entry (follow maxPathSize)

variable {disk : FileSystem} {path : String} {found : Entry}

theorem open?_eq (isPath : FilePath.isPath path = true) (full : path ≠ "") : disk.open? path =
    if maxPathSize < path.utf8ByteSize then .error .nameTooLong
    else follow [] disk.top (FilePath.components (FilePath.join disk.here path)) := by
  rw [open?,isPath,if_neg (by simp),if_neg (by simpa using full)]

theorem open?_eq_ok : disk.open? path = .ok found ↔
    FilePath.isPath path = true ∧ path ≠ "" ∧ path.utf8ByteSize ≤ maxPathSize ∧
      follow [] disk.top (FilePath.components (FilePath.join disk.here path)) = .ok found := by
  by_cases isPath : FilePath.isPath path = true
  · by_cases full : path ≠ ""
    · rw [open?_eq isPath full]
      split
      · rename_i long
        simp [Nat.not_le.mpr long]
      · rename_i short
        exact ⟨fun led => ⟨isPath,full,Nat.not_lt.mp short,led⟩,fun opened => opened.2.2.2⟩
    · simp_all [open?]
  · simp_all [open?]

theorem open?_long (isPath : FilePath.isPath path = true) (long : maxPathSize < path.utf8ByteSize) :
    disk.open? path = .error .nameTooLong := by
  have full : path ≠ "" := by
    rintro rfl
    exact absurd long (by decide)
  rw [open?_eq isPath full,if_pos long]

theorem WellFormed.open? (sound : disk.WellFormed) (opened : disk.open? path = .ok found) :
    found.WellFormed := by
  obtain ⟨_,_,_,led⟩ := open?_eq_ok.mp opened
  exact sound.top.follow (List.forall_mem_nil _) led

end FileSystem

namespace Entry

variable {above : List Entry} {entry found : Entry} {name : String}

def child (name : String) : Entry → Except OpenFault Entry
  | .file _ => .error .notDirectory
  | .directory entries =>
    match Table.get? entries name with
    | some inner => .ok inner
    | none => .error .notFound

theorem follow_name (ok : IsFileName name) : follow above entry [name] = child name entry := by
  cases entry with
  | file content => rfl
  | directory entries =>
    rw [follow_directory,if_neg (by simp [ok.notEmpty,ok.notHere]),if_neg ok.notUp,
      if_neg (Nat.not_lt.mpr ok.short)]
    rfl

theorem isPath_join {directory : String} (isPath : FilePath.isPath directory = true)
    (ok : IsFileName name) : FilePath.isPath (FilePath.join directory name) = true := by
  have both := ok.isPath
  rw [FilePath.join,ok.toIsName.not_isAbsolute,if_neg Bool.false_ne_true]
  split <;> simp_all [FilePath.isPath]

theorem isPath_below {directory : String} {names : List String}
    (isPath : FilePath.isPath directory = true) (named : ∀ n ∈ names, IsFileName n) :
    FilePath.isPath (FilePath.below directory names) = true := by
  induction names generalizing directory with
  | nil => exact isPath
  | cons n names ih =>
    obtain ⟨ok,named⟩ := List.forall_mem_cons.mp named
    exact ih (isPath_join isPath ok) named

theorem join_ne_empty (directory : String) (ok : IsFileName name) : FilePath.join directory name ≠ "" := by
  obtain ⟨front,split,_⟩ := FilePath.components_join ok.toIsName directory
  intro empty
  rw [empty] at split
  have last := congrArg List.getLast? split
  rw [List.getLast?_concat] at last
  exact ok.notEmpty (Option.some.inj last).symm

theorem size_le_join (directory name : String) (ok : IsFileName name) :
    directory.utf8ByteSize ≤ (FilePath.join directory name).utf8ByteSize := by
  rw [FilePath.join,ok.toIsName.not_isAbsolute,if_neg Bool.false_ne_true]
  split <;> simp only [String.utf8ByteSize_append] <;> omega

theorem size_le_below {names : List String} (directory : String) (named : ∀ n ∈ names, IsFileName n) :
    directory.utf8ByteSize ≤ (FilePath.below directory names).utf8ByteSize := by
  induction names generalizing directory with
  | nil => exact Nat.le_refl _
  | cons n names ih =>
    obtain ⟨ok,named⟩ := List.forall_mem_cons.mp named
    exact Nat.le_trans (size_le_join directory n ok) (ih _ named)

end Entry

namespace FileSystem
open Entry (child follow follow_append follow_name follow_of_append_blank maxPathSize)

variable {disk : FileSystem} {path name : String} {entry found : Entry}

/-- A name below an opened path, unless the path gets too long. -/
theorem open?_join (opened : disk.open? path = .ok entry) (ok : IsFileName name) :
    disk.open? (FilePath.join path name) =
      if maxPathSize < (FilePath.join path name).utf8ByteSize then .error .nameTooLong
      else child name entry := by
  obtain ⟨isPath,_,_,led⟩ := open?_eq_ok.mp opened
  obtain ⟨front,joined,alone⟩ := FilePath.components_join ok.toIsName (FilePath.join disk.here path)
  have front_led : follow [] disk.top front = .ok entry := by
    rcases alone with same | same
    · exact same ▸ led
    · exact follow_of_append_blank (same ▸ led)
  obtain ⟨higher,onward⟩ := follow_append front_led
  rw [open?_eq (Entry.isPath_join isPath ok) (Entry.join_ne_empty path ok),
    FilePath.join_join ok.not_isAbsolute,joined,onward,follow_name ok]

/-- What lies below an opened path opens there, unless its path gets too long. -/
theorem open?_below {start : Entry} {names : List String}
    (opened : disk.open? path = .ok start) (named : ∀ n ∈ names, IsFileName n)
    (lies : start.inside? names = some found) : disk.open? (FilePath.below path names) =
      if maxPathSize < (FilePath.below path names).utf8ByteSize then .error .nameTooLong
      else .ok found := by
  induction names generalizing path start with
  | nil =>
    obtain ⟨_,_,short,_⟩ := open?_eq_ok.mp opened
    obtain rfl := Option.some.inj lies
    exact opened.trans (if_neg (Nat.not_lt.mpr short)).symm
  | cons n names ih =>
    obtain ⟨ok,named⟩ := List.forall_mem_cons.mp named
    cases start with
    | file content => cases lies
    | directory entries =>
      obtain ⟨inner,inside,lies⟩ := Option.bind_eq_some_iff.mp lies
      have joined := open?_join opened ok
      rw [child,inside] at joined
      by_cases long : maxPathSize < (FilePath.join path n).utf8ByteSize
      · obtain ⟨isPath,_⟩ := open?_eq_ok.mp opened
        have longer : maxPathSize < (FilePath.below path (n :: names)).utf8ByteSize :=
          Nat.lt_of_lt_of_le long (Entry.size_le_below (FilePath.join path n) named)
        rw [if_pos longer]
        exact open?_long (Entry.isPath_below isPath (List.forall_mem_cons.mpr ⟨ok,named⟩)) longer
      · rw [if_neg long] at joined
        exact ih joined named lies

end FileSystem

/-! The place that a path stands for. -/

namespace Entry

variable {above above' : List Entry} {entry entry' found : Entry} {name : String}

theorem inside?_append (entry : Entry) (front back : List String) :
    entry.inside? (front ++ back) = (entry.inside? front).bind (inside? · back) := by
  induction front generalizing entry with
  | nil => rfl
  | cons name front ih =>
    cases entry with
    | file content => rfl
    | directory entries =>
      rw [List.cons_append,inside?,inside?,Option.bind_assoc]
      exact congrArg _ (funext fun inner => ih inner)

/-- The way from the top of a tree to an entry, backwards, with the directories that lie above it. -/
inductive Along (top : Entry) : List String → List Entry → Entry → Prop
  | top : Along top [] [] top
  | down {before above entries name inner} (way : Along top before above (.directory entries))
      (notUp : name ≠ "..") (found : Table.get? entries name = some inner) :
      Along top (name :: before) (.directory entries :: above) inner

theorem Along.inside?_eq {top : Entry} {before : List String} (way : Along top before above entry) :
    top.inside? before.reverse = some entry := by
  induction way with
  | top => rfl
  | @down before above entries name inner way notUp found ih =>
    rw [List.reverse_cons,inside?_append,ih,Option.bind_some,inside?,found]
    rfl

/-- A name of a path moves on the way as it moves in the tree. -/
theorem Along.step {top : Entry} {before : List String} (way : Along top before above entry)
    (step : Step above entry name above' entry') :
    Along top (FilePath.addComponent true before name) above' entry' := by
  cases step with
  | stay blank =>
    have same : FilePath.addComponent true before name = before := by
      simp [FilePath.addComponent,blank]
    rw [same]
    exact way
  | top =>
    cases way with
    | top => exact .top
  | up =>
    cases way with
    | @down before _ entries name _ way notUp found =>
      have back : FilePath.addComponent true (name :: before) ".." = before := by
        simp [FilePath.addComponent,notUp]
      rw [back]
      exact way
  | down visible short found =>
    obtain ⟨notEmpty,notHere,notUp⟩ := visible
    have onward : FilePath.addComponent true before name = name :: before := by
      simp [FilePath.addComponent,notEmpty,notHere,notUp]
    rw [onward]
    exact way.down notUp found

theorem Along.follow {top : Entry} {before names : List String} (way : Along top before above entry)
    (led : Entry.follow above entry names = .ok found) :
    top.inside? (names.foldl (FilePath.addComponent true) before).reverse = some found := by
  induction names generalizing before above entry with
  | nil => exact Except.ok.inj led ▸ way.inside?_eq
  | cons name names ih =>
    obtain ⟨above',entry',step,led⟩ := follow_cons_eq_ok.mp led
    exact ih (way.step step) led

end Entry

namespace FileSystem

variable {disk : FileSystem} {path : String} {found : Entry}

def place (disk : FileSystem) (path : String) : List String :=
  FilePath.reduced (FilePath.join disk.here path)

theorem place_below {names : List String} (ok : ∀ name ∈ names, FilePath.IsName name) :
    disk.place (FilePath.below path names) = disk.place path ++ names := by
  rw [place,FilePath.join_below ok,FilePath.reduced_below ok,place]

theorem inside?_of_open? (here : FilePath.isAbsolute disk.here = true)
    (opened : disk.open? path = .ok found) : disk.top.inside? (disk.place path) = some found := by
  obtain ⟨_,_,_,led⟩ := open?_eq_ok.mp opened
  rw [place,FilePath.reduced,FilePath.isAbsolute_join_absolute here]
  exact Entry.Along.top.follow led

end FileSystem

end DepAudit
