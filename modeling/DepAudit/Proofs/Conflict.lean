import DepAudit.Conflict
import DepAudit.Proofs.Table
import DepAudit.Proofs.Version.Recognition

/-! Which names are in conflict. Versions are gathered by name, and of these only the pinned ones decide, while
ranges are reported along with them. Facts, declarations and lock files are searched by one rule. -/
namespace DepAudit.Conflict
open Requirement

/-! The rule. -/

def IsPin (version : String) : Prop := ∀ mark ∈ rangeMarks, ¬mark.toList <:+: version.toList

theorem isRange_eq_false {version : String} : isRange version = false ↔ IsPin version := by
  rw [← Bool.not_eq_true,isRange_iff]
  simp [IsPin]

theorem clash?_eq_some {versions distinct : List String} : clash? versions = some distinct ↔
    distinct = versions.eraseDups ∧
      ∃ v ∈ versions, ∃ w ∈ versions, IsPin v ∧ IsPin w ∧ v ≠ w := by
  have pins (v : String) : v ∈ pinned versions.eraseDups ↔ v ∈ versions ∧ IsPin v := by
    simp [pinned,isRange_eq_false]
  have apart : compatible versions.eraseDups = false ↔
      ∃ v ∈ versions, ∃ w ∈ versions, IsPin v ∧ IsPin w ∧ v ≠ w := by
    rw [compatible,decide_eq_false_iff_not,Nat.not_le,one_lt_length_eraseDups]
    simp only [pins]
    constructor
    · rintro ⟨v,⟨first,pin⟩,w,⟨second,other⟩,different⟩
      exact ⟨v,first,w,second,pin,other,different⟩
    · rintro ⟨v,first,w,second,pin,other,different⟩
      exact ⟨v,⟨first,pin⟩,w,⟨second,other⟩,different⟩
  rw [clash?,← apart]
  cases compatible versions.eraseDups <;> simp [eq_comm]

def clashes (pairs : List (String × String)) : List (String × List String) :=
  (Table.group pairs).filterMap fun p => (clash? p.2).map fun versions => (p.1,versions)

theorem ofFacts_eq (facts : List Fact) : ofFacts facts =
    (clashes (facts.map fun f => (f.name,f.version))).map fun p =>
      ⟨p.1,p.2,sourcesOf facts p.1⟩ := by
  simp [ofFacts,clashes,List.map_filterMap,Function.comp_def]

theorem ofDeclarations_eq (ds : List Declaration) :
    ofDeclarations ds = (clashes (ds.filterMap stated?)).map fun p => ⟨p.1,p.2,[]⟩ := by
  simp [ofDeclarations,clashes,List.map_filterMap,Function.comp_def]

theorem mem_clashes {pairs : List (String × String)} {name : String} {versions : List String} :
    (name,versions) ∈ clashes pairs ↔
      clash? ((pairs.filter fun p => p.1 = name).map Prod.snd) = some versions := by
  rw [clashes,Table.group_eq_map,List.filterMap_map,List.mem_filterMap]
  constructor
  · rintro ⟨key,-,found⟩
    obtain ⟨_,clash,same⟩ := Option.map_eq_some_iff.mp found
    obtain ⟨rfl,rfl⟩ := Prod.mk.inj same
    exact clash
  · intro clash
    refine ⟨name,?_,by simp [clash]⟩
    obtain ⟨-,v,given,-⟩ := clash?_eq_some.mp clash
    obtain ⟨p,chosen,rfl⟩ := List.mem_map.mp given
    obtain ⟨member,same⟩ := List.mem_filter.mp chosen
    rw [List.mem_eraseDups,← of_decide_eq_true same]
    exact List.mem_map_of_mem member

theorem names_clashes_sublist (pairs : List (String × String)) :
    ((clashes pairs).map Prod.fst).Sublist (pairs.map Prod.fst).eraseDups := by
  have names : (Table.group pairs).map Prod.fst = (pairs.map Prod.fst).eraseDups := by
    rw [Table.group_eq_map,List.map_map]
    exact List.map_id _
  rw [← names]
  refine filterMap_keys_sublist (fun p c found => ?_) _
  obtain ⟨_,-,rfl⟩ := Option.map_eq_some_iff.mp found
  rfl

/-! Facts. -/

def factsOf (facts : List Fact) (name : String) : List Fact := facts.filter (·.name = name)

def Disputed (facts : List Fact) (name : String) : Prop :=
  ∃ f ∈ factsOf facts name, ∃ h ∈ factsOf facts name,
    IsPin f.version ∧ IsPin h.version ∧ f.version ≠ h.version

/-- What a fact comes from: what declares it or else where it lies, unless neither is told. -/
def origin (f : Fact) : String :=
  (((f.metadata.get? "declared_by").toList ++ f.location.toList).find? (· ≠ "")).getD "direct"

variable {facts : List Fact} {name : String}

theorem sourceOf_eq (f : Fact) : sourceOf f = origin f := by
  have told (text : String) : text.isEmpty = decide (text = "") := by
    rw [Bool.eq_iff_iff,String.isEmpty_iff,decide_eq_true_eq]
  unfold sourceOf origin
  cases f.metadata.get? "declared_by" <;> cases f.location <;>
    simp [sourceOf.orDirect,told,List.find?_cons] <;> grind

theorem versions_factsOf (facts : List Fact) (name : String) :
    ((facts.map fun f => (f.name,f.version)).filter fun p => p.1 = name).map Prod.snd =
      (factsOf facts name).map Fact.version := by
  simp [factsOf,List.filter_map,Function.comp_def]

theorem mem_ofFacts {c : Conflict} : c ∈ ofFacts facts ↔ Disputed facts c.dependency ∧
    c.versions = ((factsOf facts c.dependency).map Fact.version).eraseDups ∧
    c.sources = ((factsOf facts c.dependency).map origin).eraseDups := by
  have sources (name : String) :
      sourcesOf facts name = ((factsOf facts name).map origin).eraseDups := by
    rw [sourcesOf,factsOf,List.map_congr_left fun f _ => sourceOf_eq f]
  have disputed (name : String) : Disputed facts name ↔
      ∃ v ∈ (factsOf facts name).map Fact.version, ∃ w ∈ (factsOf facts name).map Fact.version,
        IsPin v ∧ IsPin w ∧ v ≠ w := by
    simp [Disputed]
  rw [ofFacts_eq,List.mem_map]
  constructor
  · rintro ⟨⟨name,versions⟩,member,rfl⟩
    rw [mem_clashes,versions_factsOf,clash?_eq_some] at member
    exact ⟨(disputed name).mpr member.2,member.1,sources name⟩
  · rintro ⟨clash,versions,origins⟩
    refine ⟨(c.dependency,c.versions),?_,?_⟩
    · rw [mem_clashes,versions_factsOf,clash?_eq_some]
      exact ⟨versions,(disputed c.dependency).mp clash⟩
    · rw [sources,← origins]

theorem mem_names_ofFacts : name ∈ (ofFacts facts).map dependency ↔ Disputed facts name := by
  rw [List.mem_map]
  constructor
  · rintro ⟨c,member,rfl⟩
    exact (mem_ofFacts.mp member).1
  · intro clash
    let versions := ((factsOf facts name).map Fact.version).eraseDups
    let sources := ((factsOf facts name).map origin).eraseDups
    exact ⟨⟨name,versions,sources⟩,mem_ofFacts.mpr ⟨clash,rfl,rfl⟩,rfl⟩

theorem names_ofFacts_sublist (facts : List Fact) :
    ((ofFacts facts).map dependency).Sublist (facts.map Fact.name).eraseDups := by
  have named := names_clashes_sublist (facts.map fun f => (f.name,f.version))
  rw [List.map_map] at named
  rw [ofFacts_eq,List.map_map]
  exact named

theorem Disputed.mono {more : List Fact} (clash : Disputed facts name) (kept : facts ⊆ more) :
    Disputed more name := by
  obtain ⟨f,first,h,second,differ⟩ := clash
  have moved {f : Fact} (member : f ∈ factsOf facts name) : f ∈ factsOf more name := by
    obtain ⟨inside,named⟩ := List.mem_filter.mp member
    exact List.mem_filter.mpr ⟨kept inside,named⟩
  exact ⟨f,moved first,h,moved second,differ⟩

/-- A name is reported, once and where its first fact stands, if and only if two of its facts pin different
versions; what is told of it are all its versions and all that its facts come from, as they are first seen. So
further facts take no name from the report, and their order does not matter to it. -/
theorem conflicts_are_differing_pins (facts : List Fact) :
    (∀ name, name ∈ (ofFacts facts).map dependency ↔ Disputed facts name) ∧
    ((ofFacts facts).map dependency).Pairwise
      (fun n m => (facts.map Fact.name).idxOf n < (facts.map Fact.name).idxOf m) ∧
    (∀ c ∈ ofFacts facts,
      FirstSeen ((factsOf facts c.dependency).map Fact.version) c.versions ∧
      FirstSeen ((factsOf facts c.dependency).map origin) c.sources) ∧
    (∀ more, facts.Sublist more →
      (ofFacts facts).map dependency ⊆ (ofFacts more).map dependency) ∧
    ∀ others, facts.Perm others → ∀ name,
      name ∈ (ofFacts facts).map dependency ↔ name ∈ (ofFacts others).map dependency := by
  refine ⟨fun name => mem_names_ofFacts,?_,fun c member => ?_,fun more kept name => ?_,
    fun others moved name => ?_⟩
  · exact (pairwise_idxOf_eraseDups _).sublist (names_ofFacts_sublist facts)
  · obtain ⟨-,versions,sources⟩ := mem_ofFacts.mp member
    rw [versions,sources]
    exact ⟨firstSeen_eraseDups _,firstSeen_eraseDups _⟩
  · rw [mem_names_ofFacts,mem_names_ofFacts]
    exact fun clash => clash.mono kept.subset
  · rw [mem_names_ofFacts,mem_names_ofFacts]
    exact ⟨fun clash => clash.mono moved.subset,fun clash => clash.mono moved.symm.subset⟩

def pinOf (name version : String) (declaredBy : Table String String) (location : Option String) : Fact :=
  ⟨name,version,location,.registry,declaredBy,none⟩

def interleaved : List Fact :=
  [pinOf "zed" "1.0" [("declared_by","App")] none,pinOf "alpha" "1.0" [] (some "u"),
    pinOf "zed" ">=1.0" [("declared_by","")] (some "u"),pinOf "alpha" "^1.0" [] (some "u"),
    pinOf "zed" "2.0" [] (some ""),pinOf "zed" "1.0" [("declared_by","App")] (some "u")]

def another : Fact := pinOf "alpha" "2.0" [] none

theorem only_the_pinned_name_is_reported :
    ¬Disputed interleaved "alpha" ∧
    ⟨"zed",["1.0",">=1.0","2.0"],["App","u","direct"]⟩ ∈ ofFacts interleaved ∧
    FirstSeen ((factsOf interleaved "zed").map Fact.version) ["1.0",">=1.0","2.0"] ∧
    FirstSeen ((factsOf interleaved "zed").map origin) ["App","u","direct"] ∧
    interleaved.Sublist (another :: interleaved) ∧
    "zed" ∈ (ofFacts (another :: interleaved)).map dependency ∧
    interleaved.Perm interleaved.reverse ∧
    ("zed" ∈ (ofFacts interleaved).map dependency ↔
      "zed" ∈ (ofFacts interleaved.reverse).map dependency) := by
  obtain ⟨names,-,told,more,moved⟩ := conflicts_are_differing_pins interleaved
  have unseen : "alpha" ∉ (ofFacts interleaved).map dependency := by decide +kernel
  have reported : ⟨"zed",["1.0",">=1.0","2.0"],["App","u","direct"]⟩ ∈ ofFacts interleaved := by
    decide +kernel
  have kept : interleaved.Sublist (another :: interleaved) := List.sublist_cons_self ..
  have turned : interleaved.Perm interleaved.reverse := (List.reverse_perm _).symm
  obtain ⟨versions,sources⟩ := told _ reported
  exact ⟨fun clash => unseen ((names "alpha").mpr clash),reported,versions,sources,kept,
    more _ kept (List.mem_map.mpr ⟨_,reported,rfl⟩),turned,moved _ turned "zed"⟩

/-! Declarations and lock files. -/

def Mirrors (d : Declaration) (f : Fact) : Prop := f.name = d.name ∧ d.requirement = some f.version

theorem stated?_of_mirrors {d : Declaration} {f : Fact} (same : Mirrors d f) (filled : f.version ≠ "") :
    stated? d = some (f.name,f.version) := by
  simp [stated?,same.1,same.2,filled]

theorem stated?_eq_none {d : Declaration} (silent : d.requirement = none ∨ d.requirement = some "") :
    stated? d = none := by
  rcases silent with none | empty
  · simp [stated?,none]
  · simp [stated?,empty]

theorem filterMap_stated? {ds : List Declaration}
    (mirrored : List.Forall₂ Mirrors
      (ds.filter fun d => d.requirement ≠ none ∧ d.requirement ≠ some "") facts) :
    ds.filterMap stated? = facts.map fun f => (f.name,f.version) := by
  induction ds generalizing facts with
  | nil =>
    cases mirrored
    rfl
  | cons d ds ih =>
    rw [List.filterMap_cons]
    by_cases asks : d.requirement ≠ none ∧ d.requirement ≠ some ""
    · rw [List.filter_cons_of_pos (by simpa using asks)] at mirrored
      obtain ⟨f,later,same,rest,rfl⟩ := List.forall₂_cons_left_iff.mp mirrored
      have filled : f.version ≠ "" := fun empty => asks.2 (same.2.trans (congrArg some empty))
      rw [stated?_of_mirrors same filled,ih rest]
      rfl
    · rw [List.filter_cons_of_neg (by simpa using asks)] at mirrored
      have silent : d.requirement = none ∨ d.requirement = some "" := by
        rwa [← not_ne_iff (a := d.requirement),← not_ne_iff (a := d.requirement),← not_and_or]
      rw [stated?_eq_none silent]
      exact ih mirrored

theorem duplicates_eq (facts : List Fact) (manifest : String) : duplicates facts manifest =
    ((facts.map Fact.name).eraseDups.filter fun name => 1 < (factsOf facts name).length).map
      fun name => ⟨name,(factsOf facts name).map Fact.version,[manifest]⟩ := by
  rw [duplicates,Table.group_eq_map,List.filter_map,List.map_map,List.map_map]
  simp only [Function.comp_def,versions_factsOf,List.length_map]

theorem names_duplicates (facts : List Fact) (manifest : String) :
    (duplicates facts manifest).map dependency =
      (facts.map Fact.name).eraseDups.filter fun name => 1 < (factsOf facts name).length := by
  rw [duplicates_eq,List.map_map]
  exact List.map_id _

theorem mem_names_duplicates {manifest : String} :
    name ∈ (duplicates facts manifest).map dependency ↔ 1 < (factsOf facts name).length := by
  rw [names_duplicates,List.mem_filter,List.mem_eraseDups,decide_eq_true_eq,and_iff_right_iff_imp]
  intro several
  obtain ⟨f,member⟩ := List.exists_mem_of_length_pos (Nat.zero_lt_of_lt several)
  obtain ⟨inside,named⟩ := List.mem_filter.mp member
  exact List.mem_map.mpr ⟨f,inside,of_decide_eq_true named⟩

theorem Disputed.several (clash : Disputed facts name) : 1 < (factsOf facts name).length := by
  obtain ⟨f,first,h,second,-,-,differ⟩ := clash
  have distinct : [f,h].Nodup := by
    rw [List.nodup_cons,List.mem_singleton]
    exact ⟨fun same => differ (congrArg Fact.version same),List.nodup_singleton h⟩
  exact distinct.length_le_of_subset (by simp [first,second])

/-- What declarations ask for is in conflict just where facts with these versions are, under the same names and
with the same versions. Where a lock file is searched for repeated names, every name that is in conflict is
found, and a repeated name has the versions of all its facts, one for each of them. -/
theorem detectors_follow_one_rule :
    (∀ ds facts, List.Forall₂ Mirrors
        (ds.filter fun d => d.requirement ≠ none ∧ d.requirement ≠ some "") facts →
      (ofDeclarations ds).map (fun c => (c.dependency,c.versions)) =
        (ofFacts facts).map fun c => (c.dependency,c.versions)) ∧
    ∀ facts manifest,
      (ofFacts facts).map dependency ⊆ (duplicates facts manifest).map dependency ∧
      (∀ name, name ∈ (duplicates facts manifest).map dependency ↔
        1 < (factsOf facts name).length) ∧
      ((duplicates facts manifest).map dependency).Pairwise
        (fun n m => (facts.map Fact.name).idxOf n < (facts.map Fact.name).idxOf m) ∧
      ∀ c ∈ duplicates facts manifest,
        c.versions = (factsOf facts c.dependency).map Fact.version := by
  refine ⟨fun ds facts mirrored => ?_,fun facts manifest => ⟨fun name reported => ?_,
    fun name => mem_names_duplicates,?_,fun c member => ?_⟩⟩
  · rw [ofDeclarations_eq,ofFacts_eq,filterMap_stated? mirrored,List.map_map,List.map_map]
    rfl
  · exact mem_names_duplicates.mpr (mem_names_ofFacts.mp reported).several
  · rw [names_duplicates]
    exact (pairwise_idxOf_eraseDups _).sublist List.filter_sublist
  · rw [duplicates_eq] at member
    obtain ⟨name,-,rfl⟩ := List.mem_map.mp member
    rfl

def demands : List Declaration :=
  [⟨"zed","u",some "1.0",false⟩,⟨"alpha","u",none,false⟩,⟨"alpha","u",some "",false⟩,
    ⟨"alpha","u",some ">=1.0",false⟩,⟨"zed","u",some ">=1.0",false⟩,⟨"zed","u",some "2.0",false⟩]

def demanded : List Fact :=
  [pinOf "zed" "1.0" [] none,pinOf "alpha" ">=1.0" [] (some "v"),pinOf "zed" ">=1.0" [] none,
    pinOf "zed" "2.0" [("declared_by","App")] none]

theorem demands_clash_like_facts :
    List.Forall₂ Mirrors
      (demands.filter fun d => d.requirement ≠ none ∧ d.requirement ≠ some "") demanded ∧
    (ofDeclarations demands).map (fun c => (c.dependency,c.versions)) =
      (ofFacts demanded).map (fun c => (c.dependency,c.versions)) ∧
    "zed" ∈ (ofFacts demanded).map dependency ∧
    "zed" ∈ (duplicates demanded "lock").map dependency ∧
    ⟨"zed",["1.0",">=1.0","2.0"],["lock"]⟩ ∈ duplicates demanded "lock" ∧
    ["1.0",">=1.0","2.0"] = (factsOf demanded "zed").map Fact.version := by
  obtain ⟨agree,search⟩ := detectors_follow_one_rule
  obtain ⟨found,-,-,listed⟩ := search demanded "lock"
  have asked : demands.filter (fun d => d.requirement ≠ none ∧ d.requirement ≠ some "") =
      [⟨"zed","u",some "1.0",false⟩,⟨"alpha","u",some ">=1.0",false⟩,⟨"zed","u",some ">=1.0",false⟩,
        ⟨"zed","u",some "2.0",false⟩] := by decide
  have mirrored : List.Forall₂ Mirrors
      (demands.filter fun d => d.requirement ≠ none ∧ d.requirement ≠ some "") demanded := by
    rw [asked]
    exact .cons ⟨rfl,rfl⟩ (.cons ⟨rfl,rfl⟩ (.cons ⟨rfl,rfl⟩ (.cons ⟨rfl,rfl⟩ .nil)))
  have reported : "zed" ∈ (ofFacts demanded).map dependency := by decide +kernel
  have repeated : ⟨"zed",["1.0",">=1.0","2.0"],["lock"]⟩ ∈ duplicates demanded "lock" := by
    decide +kernel
  exact ⟨mirrored,agree _ _ mirrored,reported,found reported,repeated,listed _ repeated⟩

end DepAudit.Conflict
