import DepAudit.FilePath
import Mathlib.Data.List.Basic

/-! Paths below a directory. Going down by the names of directories adds these names to the shortest form
of a path, and the way back to where one went down from is those names again. -/
namespace DepAudit.FilePath

structure IsName (name : String) : Prop where
  notEmpty : name ≠ ""
  notHere : name ≠ "."
  notUp : name ≠ ".."
  noSlash : '/' ∉ name.toList

def below (directory : String) (names : List String) : String := names.foldl join directory

theorem endsWith_iff {text ending : String} : text.endsWith ending = true ↔ ending.toList <:+ text.toList := by
  rw [String.endsWith_eq_endsWith_toSlice,String.Slice.endsWith_string_iff,String.copy_toSlice]

theorem endsWith_slash_iff {text : String} : text.endsWith "/" = true ↔ text.toList.getLast? = some '/' := by
  rw [endsWith_iff]
  constructor
  · rintro ⟨front,same⟩
    rw [← same]
    exact List.getLast?_concat ..
  · intro last
    exact ⟨_,List.dropLast_append_getLast? _ last⟩

theorem isAbsolute_iff {path : String} : isAbsolute path = true ↔ path.toList.head? = some '/' := by
  rw [isAbsolute,String.startsWith_string_iff]
  cases path.toList with
  | nil => simp
  | cons c cs => simp [eq_comm]

theorem IsName.not_isAbsolute {name : String} (ok : IsName name) : isAbsolute name = false := by
  rw [← Bool.not_eq_true,isAbsolute_iff]
  exact fun slash => ok.noSlash (List.mem_of_head? slash)

theorem IsName.components_eq {name : String} (ok : IsName name) : components name = [name] := by
  rw [components,List.splitOn_eq_singleton ok.noSlash,List.map_singleton,String.ofList_toList]

theorem components_append_slash (directory rest : String) :
    components (directory ++ "/" ++ rest) = components directory ++ components rest := by
  have text : (directory ++ "/" ++ rest).toList = directory.toList ++ '/' :: rest.toList := by simp
  rw [components,text,List.splitOn_append_cons_self,List.map_append]
  rfl

def gap (directory : String) : String :=
  if directory.isEmpty || directory.endsWith "/" then "" else "/"

theorem join_relative {path : String} (relative : isAbsolute path = false) (directory : String) :
    join directory path = directory ++ gap directory ++ path := by
  rw [join,relative,if_neg Bool.false_ne_true,gap]
  split
  · rw [String.append_empty]
  · rfl

/-- Joining puts the components of a relative path behind those of the directory, in which an empty one at
the end falls away. -/
theorem components_join_relative {path : String} (relative : isAbsolute path = false) (directory : String) :
    ∃ front, components (join directory path) = front ++ components path ∧
      (components directory = front ∨ components directory = front ++ [""]) := by
  rw [join_relative relative,gap]
  by_cases empty : directory = ""
  · refine ⟨[],?_,.inr ?_⟩
    · simp [empty]
    · rw [empty]
      rfl
  · by_cases slash : directory.endsWith "/"
    · obtain ⟨front,split⟩ := endsWith_iff.mp slash
      have same : directory = String.ofList front ++ "/" ++ "" := by
        rw [← String.toList_inj,← split]
        simp
      refine ⟨components (String.ofList front),?_,.inr ?_⟩
      · rw [if_pos (by simp [slash]),String.append_empty,same,String.append_empty,components_append_slash]
      · rw [same,components_append_slash]
        rfl
    · rw [if_neg (by simpa [empty] using slash),components_append_slash]
      exact ⟨_,rfl,.inl rfl⟩

theorem components_join {name : String} (ok : IsName name) (directory : String) :
    ∃ front, components (join directory name) = front ++ [name] ∧
      (components directory = front ∨ components directory = front ++ [""]) := by
  have joined := components_join_relative ok.not_isAbsolute directory
  rwa [ok.components_eq] at joined

theorem isAbsolute_append {text : String} (some_ : text ≠ "") (rest : String) :
    isAbsolute (text ++ rest) = isAbsolute text := by
  obtain ⟨c,cs,split⟩ := List.exists_cons_of_ne_nil (mt String.toList_eq_nil_iff.mp some_)
  rw [Bool.eq_iff_iff]
  simp only [isAbsolute_iff,String.toList_append,split,List.cons_append,List.head?_cons]

theorem isAbsolute_join {path : String} (relative : isAbsolute path = false) (directory : String) :
    isAbsolute (join directory path) = isAbsolute directory := by
  by_cases empty : directory = ""
  · have start : isAbsolute "" = false := by decide +kernel
    rw [empty,join_relative relative,start,← relative]
    rfl
  · rw [join_relative relative,String.append_assoc,isAbsolute_append empty]

theorem addComponent_name {name : String} (ok : IsName name) (absolute : Bool) (before : List String) :
    addComponent absolute before name = name :: before := by
  simp [addComponent,ok.notEmpty,ok.notHere,ok.notUp]

/-- An empty component at the end of a directory does not count. -/
theorem reduced_of_front {directory : String} {front : List String}
    (alone : components directory = front ∨ components directory = front ++ [""]) :
    reduced directory = (front.foldl (addComponent (isAbsolute directory)) []).reverse := by
  rcases alone with same | same
  · rw [reduced,same]
  · rw [reduced,same,List.foldl_append]
    simp [addComponent]

theorem reduced_join {name : String} (ok : IsName name) (directory : String) :
    reduced (join directory name) = reduced directory ++ [name] := by
  obtain ⟨front,joined,alone⟩ := components_join ok directory
  rw [reduced_of_front alone,reduced,isAbsolute_join ok.not_isAbsolute,joined,List.foldl_append,
    List.foldl_cons,List.foldl_nil,addComponent_name ok,List.reverse_cons]

theorem reduced_below {names : List String} (ok : ∀ name ∈ names, IsName name) (directory : String) :
    reduced (below directory names) = reduced directory ++ names := by
  induction names generalizing directory with
  | nil => simp [below]
  | cons name names ih =>
    have later := ih (fun other member => ok other (.tail name member)) (join directory name)
    rw [reduced_join (ok name (List.mem_cons_self ..)),List.append_assoc] at later
    exact later

/-- What holds of a directory and of every name in a directory of which it holds, holds further down. -/
theorem below_induction {P : String → Prop}
    (step : ∀ directory name, IsName name → P directory → P (join directory name)) {names : List String}
    (ok : ∀ name ∈ names, IsName name) {directory : String} (start : P directory) :
    P (below directory names) := by
  induction names generalizing directory with
  | nil => exact start
  | cons name names ih =>
    obtain ⟨first,others⟩ := List.forall_mem_cons.mp ok
    exact ih others (step directory name first start)

theorem isAbsolute_below {names : List String} (ok : ∀ name ∈ names, IsName name) (directory : String) :
    isAbsolute (below directory names) = isAbsolute directory :=
  below_induction (P := fun path => isAbsolute path = isAbsolute directory)
    (fun _ _ first same => (isAbsolute_join first.not_isAbsolute _).trans same) ok rfl

theorem below_append (directory : String) (names others : List String) :
    below directory (names ++ others) = below (below directory names) others := List.foldl_append ..

/-! Paths seen from another directory. -/

theorem isAbsolute_join_absolute {here : String} (top : isAbsolute here = true) (path : String) :
    isAbsolute (join here path) = true := by
  cases relative : isAbsolute path with
  | false => rw [isAbsolute_join relative,top]
  | true => rw [join,relative,if_pos rfl,relative]

theorem gap_of_slashes {directory : String} (all : ∀ c ∈ directory.toList, c = '/') : gap directory = "" := by
  rw [gap,if_pos]
  rw [Bool.or_eq_true,String.isEmpty_iff,endsWith_slash_iff]
  cases last : directory.toList.getLast? with
  | none => exact .inl (String.toList_eq_nil_iff.mp (List.getLast?_eq_none_iff.mp last))
  | some c => exact .inr (congrArg some (all c (List.mem_of_getLast? last)))

theorem gap_append_gap (here : String) : gap (here ++ gap here) = "" := by
  rw [gap,if_pos]
  by_cases ends : (here.isEmpty || here.endsWith "/") = true
  · rw [gap,if_pos ends,String.append_empty,ends]
  · rw [gap,if_neg ends,Bool.or_eq_true,endsWith_iff,String.toList_append]
    exact .inr (List.suffix_append ..)

theorem gap_append {text : String} (some_ : text ≠ "") (front : String) : gap (front ++ text) = gap text := by
  have last : (front ++ text).endsWith "/" = text.endsWith "/" := by
    have full := mt String.toList_eq_nil_iff.mp some_
    rw [Bool.eq_iff_iff,endsWith_slash_iff,endsWith_slash_iff,String.toList_append,
      List.getLast?_append_of_ne_nil _ full]
  have none : text.isEmpty = false := by simpa [← Bool.not_eq_true] using some_
  have noneToo : (front ++ text).isEmpty = false := by simp [← Bool.not_eq_true,some_]
  rw [gap,gap,last,none,noneToo]

/-- From elsewhere, a relative path in a directory is the same path in that directory seen from there. -/
theorem join_join {path : String} (relative : isAbsolute path = false) (here directory : String) :
    join here (join directory path) = join (join here directory) path := by
  cases top : isAbsolute directory with
  | true => rw [join,isAbsolute_join relative,top,if_pos rfl,join.eq_1 here directory,top,if_pos rfl]
  | false =>
    have same : gap (here ++ gap here ++ directory) = gap directory := by
      by_cases empty : directory = ""
      · rw [empty,String.append_empty,gap_append_gap]
        rfl
      · exact gap_append empty _
    rw [join_relative ((isAbsolute_join relative directory).trans top),join_relative relative directory,
      join_relative top here,join_relative relative,same]
    simp only [String.append_assoc]

theorem join_below {names : List String} (ok : ∀ name ∈ names, IsName name) (here directory : String) :
    join here (below directory names) = below (join here directory) names := by
  induction names generalizing directory with
  | nil => rfl
  | cons name names ih =>
    have later := ih (fun other member => ok other (.tail name member)) (join directory name)
    rw [join_join (ok name (List.mem_cons_self ..)).not_isAbsolute] at later
    exact later

private theorem not_mem_piece {sep : Char} {text piece : List Char} (member : piece ∈ text.splitOn sep) :
    sep ∉ piece := by
  induction text generalizing piece with
  | nil =>
    rw [List.splitOn_nil,List.mem_singleton] at member
    simp [member]
  | cons c cs ih =>
    rw [List.splitOn_cons_eq_if_modifyHead] at member
    split at member
    · rcases List.mem_cons.mp member with rfl | later
      · exact List.not_mem_nil
      · exact ih later
    · rename_i different
      obtain ⟨first,rest,split⟩ := List.exists_cons_of_ne_nil (List.splitOn_ne_nil sep cs)
      rw [split,List.modifyHead_cons,List.mem_cons] at member
      rcases member with rfl | later
      · have inside : sep ∉ first := ih (by rw [split]; exact List.mem_cons_self ..)
        exact fun here => (List.mem_cons.mp here).elim (fun same => different (by simp [same])) inside
      · refine ih ?_
        rw [split]
        exact .tail _ later

theorem noSlash_of_mem_components {path name : String} (member : name ∈ components path) :
    '/' ∉ name.toList := by
  obtain ⟨piece,inside,rfl⟩ := List.mem_map.mp member
  rw [String.toList_ofList]
  exact not_mem_piece inside

theorem isName_of_mem_reduced {path : String} (absolute : isAbsolute path = true) :
    ∀ name ∈ reduced path, IsName name := by
  have kept (comps : List String) (plain : ∀ c ∈ comps, '/' ∉ c.toList) (before : List String)
      (ok : ∀ name ∈ before, IsName name) : ∀ name ∈ comps.foldl (addComponent true) before, IsName name := by
    induction comps generalizing before with
    | nil => exact ok
    | cons c comps ih =>
      refine ih (fun d member => plain d (.tail c member)) _ ?_
      unfold addComponent
      split
      · exact ok
      · rename_i visible
        split
        · split
          · exact ok
          · rename_i last rest
            split
            · rename_i up
              exact absurd up (ok last (List.mem_cons_self ..)).notUp
            · exact fun name member => ok name (.tail last member)
        · rename_i down
          obtain ⟨notEmpty,notHere⟩ : ¬c = "" ∧ ¬c = "." := by simpa using visible
          intro name member
          rcases List.mem_cons.mp member with rfl | old
          · exact ⟨notEmpty,notHere,down,plain _ (List.mem_cons_self ..)⟩
          · exact ok name old
  intro name member
  rw [reduced,absolute,List.mem_reverse] at member
  exact kept _ (fun c => noSlash_of_mem_components) [] (by simp) name member

theorem components_intercalate {names : List String} (ok : ∀ name ∈ names, IsName name)
    (some_ : names ≠ []) : components ("/".intercalate names) = names := by
  have split : (['/'].intercalate (names.map String.toList)).splitOn '/' = names.map String.toList := by
    refine List.splitOn_intercalate '/' ?_ (by simpa using some_)
    intro piece member
    obtain ⟨name,listed,rfl⟩ := List.mem_map.mp member
    exact (ok name listed).noSlash
  rw [components,String.toList_intercalate]
  change (List.splitOn '/' (['/'].intercalate (names.map String.toList))).map String.ofList = names
  rw [split,List.map_map]
  simp [Function.comp_def]

theorem gap_join {name : String} (ok : IsName name) (directory : String) : gap (join directory name) = "/" := by
  have last : name.endsWith "/" = false := by
    rw [← Bool.not_eq_true,endsWith_slash_iff]
    exact fun ends => ok.noSlash (List.mem_of_getLast? ends)
  have full : name.isEmpty = false := by simpa [← Bool.not_eq_true] using ok.notEmpty
  rw [join_relative ok.not_isAbsolute,gap_append ok.notEmpty,gap,full,last]
  rfl

theorem below_eq {names : List String} (ok : ∀ name ∈ names, IsName name) (some_ : names ≠ [])
    (directory : String) : below directory names = directory ++ gap directory ++ "/".intercalate names := by
  induction names generalizing directory with
  | nil => exact absurd rfl some_
  | cons name names ih =>
    obtain ⟨first,others⟩ := List.forall_mem_cons.mp ok
    cases names with
    | nil =>
      rw [String.intercalate_singleton]
      exact join_relative first.not_isAbsolute directory
    | cons next names =>
      calc below directory (name :: next :: names)
        _ = join directory name ++ gap (join directory name) ++ "/".intercalate (next :: names) :=
          ih others (by simp) (join directory name)
        _ = directory ++ gap directory ++ "/".intercalate (name :: next :: names) := by
          rw [gap_join first,join_relative first.not_isAbsolute,String.intercalate_cons_cons]
          simp only [String.append_assoc]

structure IsTop (path : String) : Prop where
  notEmpty : path ≠ ""
  slashes : ∀ c ∈ path.toList, c = '/'
  absolute : isAbsolute path = true
  noNames : reduced path = []
  leading : leadingSlashes path = path
  above : directoryOf path = path

theorem isTop_leadingSlashes {path : String} (absolute : isAbsolute path = true) :
    IsTop (leadingSlashes path) := by
  have either : leadingSlashes path = "/" ∨ leadingSlashes path = "//" := by
    rw [leadingSlashes,absolute,if_pos rfl]
    split
    · exact .inr rfl
    · exact .inl rfl
  rcases either with same | same
  all_goals
    rw [same]
    refine ⟨by decide,by simp,?_,?_,?_,?_⟩ <;> decide +kernel

/-- The shortest form of an absolute path is what its names lead to from the top. -/
theorem normalize_eq_below {path : String} (absolute : isAbsolute path = true) :
    normalize path = below (leadingSlashes path) (reduced path) := by
  have top := isTop_leadingSlashes absolute
  have text : normalize path = leadingSlashes path ++ "/".intercalate (reduced path) := by
    rw [normalize,if_neg]
    simp [top.notEmpty]
  by_cases stays : reduced path = []
  · rw [text,stays]
    exact String.append_empty
  · rw [text,below_eq (isName_of_mem_reduced absolute) stays,gap_of_slashes top.slashes,String.append_empty]

theorem reduced_normalize {path : String} (absolute : isAbsolute path = true) :
    reduced (normalize path) = reduced path := by
  rw [normalize_eq_below absolute,reduced_below (isName_of_mem_reduced absolute),
    (isTop_leadingSlashes absolute).noNames,List.nil_append]

theorem dropCommon_append (front back : List String) : dropCommon front (front ++ back) = ([],back) := by
  induction front with
  | nil =>
    cases back with
    | nil => rfl
    | cons b back => rfl
  | cons a front ih => rw [List.cons_append,dropCommon,if_pos rfl,ih]

/-- From a directory one comes to what lies below it by the names of the way down. -/
theorem relative_below {names : List String} (ok : ∀ name ∈ names, IsName name) (some_ : names ≠ [])
    (directory : String) : relative "/" (below directory names) directory = "/".intercalate names := by
  have top : isAbsolute "/" = true := by decide +kernel
  have start : reduced (absolute "/" directory) = reduced (join "/" directory) :=
    reduced_normalize (isAbsolute_join_absolute top directory)
  have goal : reduced (absolute "/" (below directory names)) = reduced (join "/" directory) ++ names := by
    rw [absolute,reduced_normalize (isAbsolute_join_absolute top _),join_below ok,reduced_below ok]
  have text : ("/".intercalate names).isEmpty = false := by
    rw [← Bool.not_eq_true,String.isEmpty_iff]
    intro empty
    have split := components_intercalate ok some_
    rw [empty] at split
    exact (ok "" (split ▸ List.mem_singleton.mpr rfl)).notEmpty rfl
  rw [relative,start,goal,dropCommon_append]
  simp only [List.map_nil,List.nil_append,text,Bool.false_eq_true,if_false]

theorem intercalate_injective {names others : List String} (ok : ∀ name ∈ names, IsName name)
    (also : ∀ name ∈ others, IsName name) (some_ : names ≠ []) (someToo : others ≠ [])
    (same : "/".intercalate names = "/".intercalate others) : names = others := by
  rw [← components_intercalate ok some_,same,components_intercalate also someToo]

end DepAudit.FilePath
