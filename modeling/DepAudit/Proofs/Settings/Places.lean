import DepAudit.Proofs.FilePath.Directories
import DepAudit.Proofs.Settings.Load

/-! The two places in which a project may have its settings, and the directory that a relative root is seen
from in each of them. -/
namespace DepAudit.Settings

open FilePath Yaml

theorem isName_file : IsName "depscope.yaml" := ⟨by decide,by decide,by decide,by decide⟩

theorem isName_directoryName : IsName directoryName := ⟨by decide,by decide,by decide,by decide⟩

theorem isName_inner : IsName "config.yaml" := ⟨by decide,by decide,by decide,by decide⟩

/-! The root that a document gives. -/

def rootGiven (d : Document) : Except SettingError String :=
  match d.find? "root" with
  | some id => rootText (d.value shownRounds id)
  | none => .ok ({} : Settings).root

theorem overlaySections_root {s s' : Settings} {pairs : List (Value × Value)}
    (laid : s.overlaySections pairs = .ok s') : s'.root = s.root := by
  obtain ⟨_,_,rest⟩ := bind_eq_ok.mp laid
  obtain ⟨_,_,rest⟩ := bind_eq_ok.mp rest
  obtain ⟨_,_,rest⟩ := bind_eq_ok.mp rest
  obtain ⟨_,_,rest⟩ := bind_eq_ok.mp rest
  cases rest
  rfl

theorem ofDocument_root {d : Document} {s : Settings} (ended : ofDocument d = .ok s) :
    rootGiven d = .ok s.root := by
  rw [ofDocument_eq] at ended
  obtain ⟨version,_,rest⟩ := bind_eq_ok.mp ended
  obtain ⟨s',laid,rooted⟩ := bind_eq_ok.mp rest
  have kept := overlaySections_root (mapError_eq_ok.mp laid)
  rw [withRoot] at rooted
  rw [rootGiven]
  cases named : d.find? "root" with
  | none =>
    rw [named] at rooted
    cases rooted
    rw [kept]
  | some id =>
    rw [named] at rooted
    obtain ⟨root,text,rfl⟩ := map_eq_ok.mp rooted
    exact mapError_eq_ok.mp text

theorem find?_of_not_isMap {d : Document} (noMap : d.isMap = false) (name : String) : d.find? name = none := by
  rw [Document.isMap] at noMap
  rw [Document.find?]
  split
  · rename_i pairs map
    rw [map] at noMap
    cases noMap
  · rfl

/-- The content of a file is read the same wherever the file lies; only a failure names the place. -/
theorem ofBytes_eq_ok {path : String} {content : ByteArray} {s : Settings} :
    ofBytes path content = .ok s ↔ ∃ d, Yaml.read content = .ok d ∧
      if d.isMap then ofDocument d = .ok s else (d.value shownRounds d.root).isOn = false ∧ {} = s := by
  rw [ofBytes,bind_eq_ok]
  simp only [mapError_eq_ok]
  refine exists_congr fun d => and_congr_right fun _ => ?_
  cases d.isMap with
  | true => exact Iff.rfl
  | false =>
    rw [if_neg Bool.false_ne_true,if_neg Bool.false_ne_true]
    cases (d.value shownRounds d.root).isOn with
    | true => simp
    | false =>
      rw [and_iff_right rfl]
      constructor
      · exact Except.ok.inj
      · exact congrArg Except.ok

theorem ofBytes_toOption (path other : String) (content : ByteArray) :
    (ofBytes path content).toOption = (ofBytes other content).toOption := by
  refine Option.ext fun s => ?_
  simp only [toOption_eq_some,ofBytes_eq_ok]

theorem ofBytes_root {path : String} {content : ByteArray} {d : Document} {s : Settings}
    (read : Yaml.read content = .ok d) (loaded : ofBytes path content = .ok s) :
    rootGiven d = .ok s.root := by
  obtain ⟨d',read',ended⟩ := ofBytes_eq_ok.mp loaded
  obtain rfl := Except.ok.inj (read'.symm.trans read)
  cases isMap : d'.isMap with
  | true =>
    rw [if_pos isMap] at ended
    exact ofDocument_root ended
  | false =>
    rw [if_neg (ne_true_of_eq_false isMap)] at ended
    rw [rootGiven,find?_of_not_isMap isMap,← ended.2]

/-! The directory that a settings file speaks of. -/

section

variable {here : String} (top : isAbsolute here = true)

include top

theorem directoryOf_absolute {name : String} (ok : IsName name) (directory : String) :
    directoryOf (absolute here (join directory name)) = absolute here directory := by
  rw [absolute,join_join ok.not_isAbsolute]
  exact directoryOf_normalize_join (isAbsolute_join_absolute top directory) ok

theorem subject_join {name : String} (ok : IsName name) (project : String) :
    subject here (join project name) = if nameOf (absolute here project) = directoryName
      then directoryOf (absolute here project) else absolute here project := by
  rw [subject,directoryOf_absolute top ok]

theorem subject_join_directoryName {name : String} (ok : IsName name) (project : String) :
    subject here (join (join project directoryName) name) = absolute here project := by
  have named : nameOf (absolute here (join project directoryName)) = directoryName := by
    rw [absolute,join_join isName_directoryName.not_isAbsolute]
    exact nameOf_normalize_join (isAbsolute_join_absolute top project) isName_directoryName
  rw [subject_join top ok,if_pos named,directoryOf_absolute top isName_directoryName]

theorem isAbsolute_subject (path : String) : isAbsolute (subject here path) = true := by
  have whole := isAbsolute_join_absolute top path
  have directory := isAbsolute_directoryOf whole
  rw [subject]
  split
  · rw [absolute,← normalize_directoryOf whole]
    exact isAbsolute_directoryOf directory
  · exact directory

end

theorem isAbsolute_settle {base : String} (absolute : isAbsolute base = true) (s : Settings) :
    isAbsolute (settle base s).root = true := by
  rw [settle]
  split
  · assumption
  · exact isAbsolute_normalize (isAbsolute_join_absolute absolute s.root)

/-! Loads of either file. -/

theorem load_found {content? : String → Option ByteArray} {here project path : String}
    (found : (candidates project).find? (fun p => (content? p).isSome) = some path) :
    load content? here none (some project) = load content? here (some path) (some project) := by
  have named : file? content? (some path) project = .ok (some path) := if_pos (List.find?_some found)
  have first : file? content? none project = .ok (some path) := congrArg Except.ok found
  rw [load,load,Option.getD_some,first,named]

section

variable {content? : String → Option ByteArray} {here project r : String} {content : ByteArray} {d : Document}
  (top : isAbsolute here = true) (read : Yaml.read content = .ok d) (given : rootGiven d = .ok r)
  (relative : isAbsolute r = false)

include read given relative

theorem load_relative {path : String} (there : content? path = some content) :
    load content? here (some path) (some project) = (ofBytes path content).map
      fun s => { s with root := normalize (join (subject here path) r) } := by
  rw [load_eq there]
  cases loaded : ofBytes path content with
  | error e => rfl
  | ok s =>
    have root : s.root = r := Except.ok.inj ((ofBytes_root read loaded).symm.trans given)
    rw [← root] at relative ⊢
    exact congrArg Except.ok (if_neg (ne_true_of_eq_false relative))

include top

theorem load_file (there : content? (join project "depscope.yaml") = some content) :
    load content? here none (some project) = (ofBytes (join project "depscope.yaml") content).map
      fun s => { s with root := normalize (join (if nameOf (absolute here project) = directoryName
        then directoryOf (absolute here project) else absolute here project) r) } := by
  have found : (candidates project).find? (fun p => (content? p).isSome) = some (join project "depscope.yaml") :=
    List.find?_cons_of_pos (by rw [there]; rfl)
  rw [load_found found,load_relative read given relative there,subject_join top isName_file]

theorem load_inner (missing : content? (join project "depscope.yaml") = none)
    (there : content? (join (join project directoryName) "config.yaml") = some content) :
    load content? here none (some project) =
      (ofBytes (join (join project directoryName) "config.yaml") content).map
        fun s => { s with root := normalize (join (absolute here project) r) } := by
  have found : (candidates project).find? (fun p => (content? p).isSome) =
      some (join (join project directoryName) "config.yaml") := by
    rw [candidates,List.find?_cons_of_neg (by rw [missing]; exact Bool.false_ne_true)]
    exact List.find?_cons_of_pos (by rw [there]; rfl)
  rw [load_found found,load_relative read given relative there,subject_join_directoryName top isName_inner]

omit read given in
theorem normalize_join_subject_iff : normalize (join (if nameOf (absolute here project) = directoryName
        then directoryOf (absolute here project) else absolute here project) r) =
      normalize (join (absolute here project) r) ↔
    nameOf (absolute here project) ≠ directoryName ∨ (reduced (absolute here project)).length ≤ climbs r := by
  have whole := isAbsolute_join_absolute top project
  by_cases named : nameOf (absolute here project) = directoryName
  · rw [if_pos named,or_iff_right (not_not.mpr named),absolute,normalize_join_directoryOf_iff whole relative,
      reduced_normalize whole]
  · rw [if_neg named,or_iff_left_of_imp fun _ => named]
    exact ⟨fun _ => named,fun _ => rfl⟩

end

theorem map_root_eq_iff {s? : Option Settings} {root other : String} :
    s?.map (fun s => { s with root }) = s?.map (fun s => { s with root := other }) ↔
      s? = none ∨ root = other := by
  cases s? with
  | none => exact ⟨fun _ => .inl rfl,fun _ => rfl⟩
  | some s =>
    constructor
    · exact fun same => .inr (congrArg Settings.root (Option.some.inj same))
    · rintro (none | rfl)
      · cases none
      · rfl

/-- Whatever file there is, settings that are loaded speak of an absolute place. -/
theorem isAbsolute_load {content? : String → Option ByteArray} {here : String} {path project : Option String}
    {s : Settings} (top : isAbsolute here = true) (loaded : load content? here path project = .ok s) :
    isAbsolute s.root = true := by
  rw [load] at loaded
  obtain ⟨file,-,rest⟩ := bind_eq_ok.mp loaded
  cases file with
  | none =>
    cases rest
    exact isAbsolute_settle (isAbsolute_join_absolute top _) _
  | some p =>
    obtain ⟨s',-,last⟩ := bind_eq_ok.mp rest
    cases last
    exact isAbsolute_settle (isAbsolute_subject top p) s'

/-- A relative root is seen from the project when its settings lie in the directory for settings. In the file
in the project itself it is seen from there too, but for a project whose own directory bears the name of such
a directory: then it is seen from the directory above, which is another place unless the root goes up to the
top. -/
theorem two_places_agree_iff {here project r : String} {content : ByteArray} {d : Document}
    {plain? inner? : String → Option ByteArray} (top : isAbsolute here = true)
    (plain : plain? (join project "depscope.yaml") = some content)
    (missing : inner? (join project "depscope.yaml") = none)
    (inner : inner? (join (join project directoryName) "config.yaml") = some content)
    (read : Yaml.read content = .ok d) (given : rootGiven d = .ok r) (relative : isAbsolute r = false) :
    load inner? here none (some project) =
        (ofBytes (join (join project directoryName) "config.yaml") content).map
          (fun s => { s with root := normalize (join (absolute here project) r) }) ∧
      load plain? here none (some project) = (ofBytes (join project "depscope.yaml") content).map
        (fun s => { s with root := normalize (join (if nameOf (absolute here project) = directoryName
          then directoryOf (absolute here project) else absolute here project) r) }) ∧
      ((load plain? here none (some project)).toOption = (load inner? here none (some project)).toOption ↔
        (∀ s, ofBytes (join project "depscope.yaml") content ≠ .ok s) ∨
          nameOf (absolute here project) ≠ directoryName ∨
            (reduced (absolute here project)).length ≤ climbs r) ∧
      ∀ (content? : String → Option ByteArray) (path project : Option String) (s : Settings),
        load content? here path project = .ok s → isAbsolute s.root = true := by
  have fromFile := load_file top read given relative plain
  have fromInner := load_inner top read given relative missing inner
  refine ⟨fromInner,fromFile,?_,fun content? path project s loaded => isAbsolute_load top loaded⟩
  rw [fromFile,fromInner,toOption_map,toOption_map,ofBytes_toOption (join (join project directoryName) _)
    (join project "depscope.yaml"),map_root_eq_iff,normalize_join_subject_iff top relative]
  exact or_congr_left toOption_eq_none

def relativeRoot : ByteArray := "root: src".toUTF8

theorem read_relativeRoot : ∃ d, Yaml.read relativeRoot = .ok d ∧ rootGiven d = .ok "src" := by
  have ends : ((Yaml.read relativeRoot).toOption.bind fun d => (rootGiven d).toOption) = some "src" := by
    decide +kernel
  obtain ⟨d,read,given⟩ := Option.bind_eq_some_iff.mp ends
  exact ⟨d,toOption_eq_some.mp read,toOption_eq_some.mp given⟩

/-- A directory for settings that is taken as a project: its own file speaks of the directory above. -/
theorem directory_for_settings_reads_apart :
    (∃ d, Yaml.read relativeRoot = .ok d ∧ rootGiven d = .ok "src") ∧
    nameOf (absolute "/w" ".depscope") = directoryName ∧
    (load (fun p => if p = ".depscope/depscope.yaml" then some relativeRoot else none) "/w" none
      (some ".depscope")).map root = .ok "/w/src" ∧
    (load (fun p => if p = ".depscope/.depscope/config.yaml" then some relativeRoot else none) "/w" none
      (some ".depscope")).map root = .ok "/w/.depscope/src" := by
  obtain ⟨d,read,given⟩ := read_relativeRoot
  obtain ⟨inner,plain,-,-⟩ := @two_places_agree_iff "/w" ".depscope" "src" relativeRoot d
    (fun p => if p = ".depscope/depscope.yaml" then some relativeRoot else none)
    (fun p => if p = ".depscope/.depscope/config.yaml" then some relativeRoot else none)
    (by decide +kernel) (by decide +kernel) (by decide +kernel) (by decide +kernel) read given (by decide +kernel)
  have ends (path : String) : ∃ s, ofBytes path relativeRoot = .ok s := by
    refine exists_eq_ok ?_
    rw [ofBytes_toOption path ""]
    decide +kernel
  obtain ⟨s,ofPlain⟩ := ends (join ".depscope" "depscope.yaml")
  obtain ⟨t,ofInner⟩ := ends (join (join ".depscope" directoryName) "config.yaml")
  have above : normalize (join (if nameOf (absolute "/w" ".depscope") = directoryName
      then directoryOf (absolute "/w" ".depscope") else absolute "/w" ".depscope") "src") = "/w/src" := by
    decide +kernel
  have within : normalize (join (absolute "/w" ".depscope") "src") = "/w/.depscope/src" := by decide +kernel
  rw [inner,plain,ofPlain,ofInner]
  exact ⟨⟨d,read,given⟩,by decide +kernel,congrArg Except.ok above,congrArg Except.ok within⟩

end DepAudit.Settings
