import DepAudit.Proofs.FilePath
import DepAudit.Proofs.Text.Runs

/-! The directory and the last name of an absolute path in its shortest form, and where a relative path
leads from such a directory. -/
namespace DepAudit.FilePath

def slashRun (path : String) : List Char := path.toList.takeWhile (· = '/')

theorem startsWith_iff_slashRun {mark : String} (slashes : ∀ c ∈ mark.toList, c = '/') (path : String) :
    path.startsWith mark = true ↔ mark.toList <+: slashRun path := by
  rw [String.startsWith_string_iff,slashRun]
  constructor
  · rintro ⟨rest,split⟩
    rw [← split,List.takeWhile_append_of_pos fun c member => decide_eq_true (slashes c member)]
    exact List.prefix_append ..
  · exact fun start => start.trans (List.takeWhile_prefix _)

theorem leadingSlashes_congr {path other : String} (same : slashRun path = slashRun other) :
    leadingSlashes path = leadingSlashes other := by
  have alike {mark : String} (slashes : ∀ c ∈ mark.toList, c = '/') :
      path.startsWith mark = other.startsWith mark := by
    rw [Bool.eq_iff_iff,startsWith_iff_slashRun slashes,startsWith_iff_slashRun slashes,same]
  have one : path.startsWith "/" = other.startsWith "/" := alike (by simp)
  have two : path.startsWith "//" = other.startsWith "//" := alike (by simp)
  have three : path.startsWith "///" = other.startsWith "///" := alike (by simp)
  rw [leadingSlashes,leadingSlashes,isAbsolute,isAbsolute,one,two,three]

theorem slashRun_append {path rest : String}
    (apart : (∀ c ∈ path.toList, c = '/') → isAbsolute rest = false) :
    slashRun (path ++ rest) = slashRun path := by
  rw [slashRun,String.toList_append,slashRun]
  by_cases all : ∀ c ∈ path.toList, c = '/'
  · have whole : ∀ c ∈ path.toList, decide (c = '/') = true := fun c member => decide_eq_true (all c member)
    have stops : Text.Stops (· = '/') rest.toList := fun c first => decide_eq_false fun same =>
      ne_true_of_eq_false (apart all) (isAbsolute_iff.mpr (same ▸ first))
    rw [Text.takeWhile_run whole stops,List.takeWhile_eq_self_iff.mpr whole]
  · rw [List.takeWhile_append,if_neg]
    intro size
    have same := (List.takeWhile_prefix (· = '/')).eq_of_length size
    exact all fun c member => of_decide_eq_true (List.takeWhile_eq_self_iff.mp same c member)

theorem slashRun_join {path : String} (relative : isAbsolute path = false) (directory : String) :
    slashRun (join directory path) = slashRun directory := by
  rw [join_relative relative,String.append_assoc]
  refine slashRun_append fun all => ?_
  rw [gap_of_slashes all,String.empty_append,relative]

theorem leadingSlashes_join {path : String} (relative : isAbsolute path = false) (directory : String) :
    leadingSlashes (join directory path) = leadingSlashes directory :=
  leadingSlashes_congr (slashRun_join relative directory)

theorem leadingSlashes_below {names : List String} (ok : ∀ name ∈ names, IsName name) (directory : String) :
    leadingSlashes (below directory names) = leadingSlashes directory :=
  below_induction (P := fun path => leadingSlashes path = leadingSlashes directory)
    (fun _ _ first same => (leadingSlashes_join first.not_isAbsolute _).trans same) ok rfl

/-! The last name of a path, and what stands in front of it. -/

theorem gap_ends (directory : String) :
    directory ++ gap directory = "" ∨ ∃ front, (directory ++ gap directory).toList = front ++ ['/'] := by
  have none := gap_append_gap directory
  rw [gap,ite_eq_left_iff] at none
  have ends := Decidable.not_not.mp fun fails => absurd (none fails) (by decide)
  rw [Bool.or_eq_true,String.isEmpty_iff,endsWith_iff] at ends
  rcases ends with empty | ⟨front,same⟩
  · exact .inl empty
  · exact .inr ⟨front,same.symm⟩

theorem exists_last_of_gap {directory : String} (slash : gap directory = "/") :
    ∃ front last, directory.toList = front ++ [last] ∧ last ≠ '/' := by
  have bare : ¬(directory.isEmpty || directory.endsWith "/") = true := by
    intro ends
    rw [gap,if_pos ends] at slash
    exact absurd slash (by decide)
  rw [Bool.or_eq_true,not_or,String.isEmpty_iff,endsWith_slash_iff] at bare
  obtain ⟨front,last,text⟩ := (List.eq_nil_or_concat directory.toList).resolve_left
    (mt String.toList_eq_nil_iff.mp bare.1)
  rw [List.concat_eq_append] at text
  rw [text,List.getLast?_concat] at bare
  exact ⟨front,last,text,fun same => bare.2 (congrArg some same)⟩

theorem afterLast_join {name : String} (ok : IsName name) (directory : String) :
    Text.afterLast '/' (join directory name).toList = name.toList := by
  rw [join_relative ok.not_isAbsolute,String.toList_append]
  rcases gap_ends directory with empty | ⟨front,same⟩
  · rw [empty]
    exact Text.afterLast_of_foreign ok.noSlash
  · rw [same,List.append_assoc]
    exact Text.afterLast_append ok.noSlash front

theorem nameOf_join {name : String} (ok : IsName name) (directory : String) :
    nameOf (join directory name) = name := by
  rw [nameOf,afterLast_join ok,String.ofList_toList]

/-- The directory of a name is what the name was joined to, unless that has a slash at its end which does
not stand for the top. -/
theorem directoryOf_join {name : String} (ok : IsName name) {directory : String}
    (whole : gap directory = "/" ∨ ∀ c ∈ directory.toList, c = '/') :
    directoryOf (join directory name) = directory := by
  have head : (join directory name).toList.take ((join directory name).toList.length -
      (Text.afterLast '/' (join directory name).toList).length) = (directory ++ gap directory).toList := by
    have text : (join directory name).toList = (directory ++ gap directory).toList ++ name.toList := by
      rw [join_relative ok.not_isAbsolute,String.toList_append]
    rw [afterLast_join ok,text,List.length_append,Nat.add_sub_cancel,List.take_left]
  simp only [directoryOf,head]
  rcases whole with slash | all
  · obtain ⟨front,last,text,other⟩ := exists_last_of_gap slash
    have kept : Text.dropEndWhile (· = '/') directory.toList = directory.toList := by
      rw [text]
      exact Text.dropEndWhile_append_of_none (by simp) (by simpa using other) front
    have slashes : ∀ c ∈ "/".toList, decide (c = '/') = true := by simp
    rw [slash,String.toList_append,Text.dropEndWhile_append slashes,kept,String.ofList_toList,if_neg]
    simp [text,other]
  · rw [gap_of_slashes all,String.append_empty,if_pos,String.ofList_toList]
    exact List.all_eq_true.mpr fun c member => decide_eq_true (all c member)

theorem directoryOf_below {slashes name : String} {names : List String} (all : ∀ c ∈ slashes.toList, c = '/')
    (ok : ∀ other ∈ names ++ [name], IsName other) :
    directoryOf (below slashes (names ++ [name])) = below slashes names := by
  rw [below_append]
  refine directoryOf_join (ok name (by simp)) ?_
  rcases List.eq_nil_or_concat names with rfl | ⟨front,last,rfl⟩
  · exact .inr all
  · rw [List.concat_eq_append,below_append]
    exact .inl (gap_join (ok last (by simp)) _)

/-! The shortest form of an absolute path, as the names below one slash or two. -/

theorem normalize_congr {path other : String} (slashes : leadingSlashes path = leadingSlashes other)
    (names : reduced path = reduced other) : normalize path = normalize other := by
  rw [normalize,normalize,slashes,names]

section

variable {path : String} (absolute : isAbsolute path = true)

include absolute

theorem isName_of_mem_dropLast : ∀ name ∈ (reduced path).dropLast, IsName name := fun name member =>
  isName_of_mem_reduced absolute name (List.dropLast_subset _ member)

theorem isAbsolute_normalize : isAbsolute (normalize path) = true := by
  rw [normalize_eq_below absolute,isAbsolute_below (isName_of_mem_reduced absolute),
    (isTop_leadingSlashes absolute).absolute]

theorem leadingSlashes_normalize : leadingSlashes (normalize path) = leadingSlashes path := by
  rw [normalize_eq_below absolute,leadingSlashes_below (isName_of_mem_reduced absolute),
    (isTop_leadingSlashes absolute).leading]

theorem directoryOf_normalize :
    directoryOf (normalize path) = below (leadingSlashes path) (reduced path).dropLast := by
  have top := isTop_leadingSlashes absolute
  have ok := isName_of_mem_reduced absolute
  rw [normalize_eq_below absolute]
  rcases List.eq_nil_or_concat (reduced path) with none | ⟨names,name,split⟩
  · rw [none]
    exact top.above
  · rw [List.concat_eq_append] at split
    rw [split] at ok
    rw [split,List.dropLast_concat,directoryOf_below top.slashes ok]

theorem isAbsolute_directoryOf : isAbsolute (directoryOf (normalize path)) = true := by
  rw [directoryOf_normalize absolute,isAbsolute_below (isName_of_mem_dropLast absolute),
    (isTop_leadingSlashes absolute).absolute]

theorem reduced_directoryOf : reduced (directoryOf (normalize path)) = (reduced path).dropLast := by
  rw [directoryOf_normalize absolute,reduced_below (isName_of_mem_dropLast absolute),
    (isTop_leadingSlashes absolute).noNames,List.nil_append]

theorem leadingSlashes_directoryOf :
    leadingSlashes (directoryOf (normalize path)) = leadingSlashes path := by
  rw [directoryOf_normalize absolute,leadingSlashes_below (isName_of_mem_dropLast absolute),
    (isTop_leadingSlashes absolute).leading]

theorem normalize_directoryOf : normalize (directoryOf (normalize path)) = directoryOf (normalize path) := by
  rw [normalize_eq_below (isAbsolute_directoryOf absolute),reduced_directoryOf absolute,
    leadingSlashes_directoryOf absolute,directoryOf_normalize absolute]

/-- The directory of what lies in a directory is that directory, in its shortest form. -/
theorem directoryOf_normalize_join {name : String} (ok : IsName name) :
    directoryOf (normalize (join path name)) = normalize path := by
  rw [directoryOf_normalize ((isAbsolute_join ok.not_isAbsolute path).trans absolute),reduced_join ok,
    List.dropLast_concat,leadingSlashes_join ok.not_isAbsolute,normalize_eq_below absolute]

theorem nameOf_normalize_join {name : String} (ok : IsName name) :
    nameOf (normalize (join path name)) = name := by
  rw [normalize_eq_below ((isAbsolute_join ok.not_isAbsolute path).trans absolute),reduced_join ok,
    below_append]
  exact nameOf_join ok _

end

/-! Where a relative path leads. -/

def climbs (path : String) : Nat := (reduced path).count ".."

theorem addComponent_up {before : List String} (plain : ".." ∉ before) :
    addComponent true before ".." = before.tail := by
  cases before with
  | nil => rfl
  | cons last rest =>
    have other : last ≠ ".." := fun same => plain (same ▸ List.mem_cons_self ..)
    simp [addComponent,other]

/-- Where a relative path would go up, the same components take away names of an absolute one, last first. -/
theorem addComponent_climbs {base downs : List String} (plain : ".." ∉ base) (down : ".." ∉ downs) (k : Nat)
    (component : String) : ∃ downs' k', ".." ∉ downs' ∧
      addComponent false (downs ++ List.replicate k "..") component = downs' ++ List.replicate k' ".." ∧
      addComponent true (downs ++ base.drop k) component = downs' ++ base.drop k' := by
  by_cases skipped : component = "" ∨ component = "."
  · exact ⟨downs,k,down,by simp [addComponent,skipped],by simp [addComponent,skipped]⟩
  by_cases up : component = ".."
  · subst up
    cases downs with
    | cons last rest =>
      have other : last ≠ ".." := fun same => down (same ▸ List.mem_cons_self ..)
      exact ⟨rest,k,fun later => down (.tail _ later),by simp [addComponent,other],
        by simp [addComponent,other]⟩
    | nil =>
      refine ⟨[],k + 1,List.not_mem_nil,?_,?_⟩
      · cases k with
        | zero => rfl
        | succ k => rfl
      · exact (addComponent_up fun inside => plain (List.mem_of_mem_drop inside)).trans List.tail_drop
  · refine ⟨component :: downs,k,?_,by simp [addComponent,skipped,up],by simp [addComponent,skipped,up]⟩
    exact fun inside => (List.mem_cons.mp inside).elim (fun same => up same.symm) down

theorem foldl_addComponent_climbs {base : List String} (plain : ".." ∉ base) (comps : List String)
    {downs : List String} (down : ".." ∉ downs) (k : Nat) : ∃ downs' k', ".." ∉ downs' ∧
      comps.foldl (addComponent false) (downs ++ List.replicate k "..") = downs' ++ List.replicate k' ".." ∧
      comps.foldl (addComponent true) (downs ++ base.drop k) = downs' ++ base.drop k' := by
  induction comps generalizing downs k with
  | nil => exact ⟨downs,k,down,rfl,rfl⟩
  | cons component comps ih =>
    obtain ⟨downs',k',down',first,second⟩ := addComponent_climbs plain down k component
    rw [List.foldl_cons,List.foldl_cons,first,second]
    exact ih down' k'

/-- A relative path goes up from a directory as often as it climbs, and no further than to the top, and then
down by its other names. -/
theorem reduced_join_relative {directory path : String} (absolute : isAbsolute directory = true)
    (relative : isAbsolute path = false) : reduced (join directory path) =
      (reduced directory).take ((reduced directory).length - climbs path) ++
        (reduced path).drop (climbs path) := by
  have plain : ".." ∉ (reduced directory).reverse := fun inside =>
    (isName_of_mem_reduced absolute _ (List.mem_reverse.mp inside)).notUp rfl
  obtain ⟨downs,k,down,fromHere,fromTop⟩ :=
    foldl_addComponent_climbs plain (components path) List.not_mem_nil 0
  have alone : reduced path = List.replicate k ".." ++ downs.reverse := by
    rw [reduced,relative]
    exact (congrArg List.reverse fromHere).trans (by simp)
  have climbed : climbs path = k := by
    rw [climbs,alone,List.count_append,List.count_replicate_self,List.count_reverse,
      List.count_eq_zero_of_not_mem down,Nat.add_zero]
  obtain ⟨front,joined,split⟩ := components_join_relative relative directory
  have start : front.foldl (addComponent true) [] = (reduced directory).reverse := by
    rw [reduced_of_front split,absolute,List.reverse_reverse]
  have whole : (components (join directory path)).foldl (addComponent true) [] =
      downs ++ (reduced directory).reverse.drop k := by
    rw [joined,List.foldl_append,start]
    exact fromTop
  rw [reduced,isAbsolute_join relative,absolute,whole,climbed,alone,List.reverse_append,
    List.drop_left' (by simp),List.drop_reverse,List.reverse_reverse]

/-- From a directory and from the one above it, a path leads to the same place just if it goes up to the
top. -/
theorem normalize_join_directoryOf_iff {directory path : String} (absolute : isAbsolute directory = true)
    (relative : isAbsolute path = false) :
    normalize (join (directoryOf (normalize directory)) path) = normalize (join (normalize directory) path) ↔
      (reduced directory).length ≤ climbs path := by
  have here := isAbsolute_normalize absolute
  have above := isAbsolute_directoryOf absolute
  have fromHere := reduced_join_relative here relative
  have fromAbove := reduced_join_relative above relative
  rw [reduced_normalize absolute] at fromHere
  rw [reduced_directoryOf absolute] at fromAbove
  constructor
  · intro same
    have names := congrArg reduced same
    rw [reduced_normalize ((isAbsolute_join relative _).trans above),
      reduced_normalize ((isAbsolute_join relative _).trans here),fromHere,fromAbove] at names
    have sizes := congrArg List.length names
    simp only [List.length_append,List.length_take,List.length_dropLast] at sizes
    omega
  · intro top
    have none : (reduced directory).length - climbs path = 0 := Nat.sub_eq_zero_of_le top
    have noneAbove : (reduced directory).dropLast.length - climbs path = 0 := by
      rw [List.length_dropLast]
      omega
    refine normalize_congr ?_ ?_
    · rw [leadingSlashes_join relative,leadingSlashes_join relative,leadingSlashes_directoryOf absolute,
        leadingSlashes_normalize absolute]
    · rw [fromHere,fromAbove,none,noneAbove]
      rfl

end DepAudit.FilePath
