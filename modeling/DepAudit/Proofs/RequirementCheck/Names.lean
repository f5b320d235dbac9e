import DepAudit.Proofs.RequirementCheck
import DepAudit.Proofs.Table

/-! Resolved versions are matched with requirements by name, whatever the case. A name is looked up as it stands
and then in lower case; where no two names are one in lower case, both find the same. The comparison goes
through the facts in order and has no answer where the check of one of them has none. -/
namespace DepAudit

theorem mapM_congr_forall₂ {ε α β γ : Type} {R : α → β → Prop} {f : α → Except ε γ}
    {g : β → Except ε γ} (same : ∀ x y, R x y → f x = g y) {xs : List α} {ys : List β}
    (related : List.Forall₂ R xs ys) : xs.mapM f = ys.mapM g := by
  induction related with
  | nil => rfl
  | cons first _ ih => rw [List.mapM_cons,List.mapM_cons,same _ _ first,ih]

theorem map_mapM {ε α β γ : Type} (f : α → Except ε β) (g : β → γ) (xs : List α) :
    (xs.mapM f).map (List.map g) = xs.mapM fun x => (f x).map g := by
  induction xs with
  | nil => rfl
  | cons x xs ih =>
    rw [List.mapM_cons,List.mapM_cons,← ih]
    cases f x with
    | error e => rfl
    | ok y => cases xs.mapM f <;> rfl

namespace RequirementCheck
open Requirement

variable {requirements : Table String Declaration} {facts : List Fact} {fact : Fact} {name : String}
  {d : Declaration}

def Apart (requirements : Table String Declaration) : Prop := (requirements.keys.map lowerName).Nodup

instance : Decidable (Apart requirements) := inferInstanceAs (Decidable (List.Nodup _))

def Declares (requirements : Table String Declaration) (name : String) (d : Declaration) : Prop :=
  ∃ key, (key,d) ∈ requirements ∧ lowerName key = lowerName name

/-! Looking up. -/

theorem lowered_eq_some (apart : Apart requirements) {key : String} :
    (Index.ofTable requirements).lowered.get? key = some d ↔
      ∃ name, (name,d) ∈ requirements ∧ lowerName name = key := by
  have distinct : ((requirements.map fun p => (lowerName p.1,p.2)).map Prod.fst).Nodup := by
    rw [Apart,Table.keys,List.map_map] at apart
    rw [List.map_map]
    exact apart
  rw [Index.ofTable,Table.ofPairs_of_nodup distinct]
  constructor
  · intro found
    obtain ⟨⟨name,_⟩,declared,same⟩ := List.mem_map.mp (Table.mem_of_get? found)
    obtain ⟨rfl,rfl⟩ := Prod.mk.inj same
    exact ⟨name,declared,rfl⟩
  · rintro ⟨name,declared,rfl⟩
    exact Table.get?_of_mem distinct (List.mem_map.mpr ⟨_,declared,rfl⟩)

theorem find?_eq_lowered (apart : Apart requirements) (name : String) :
    (Index.ofTable requirements).find? name =
      (Index.ofTable requirements).lowered.get? (lowerName name) := by
  have exact_ : (Index.ofTable requirements).exact = requirements := rfl
  rw [Index.find?,exact_]
  cases found : requirements.get? name with
  | none => rfl
  | some d => exact ((lowered_eq_some apart).mpr ⟨name,Table.mem_of_get? found,rfl⟩).symm

theorem find?_eq_some (apart : Apart requirements) :
    (Index.ofTable requirements).find? name = some d ↔ Declares requirements name d := by
  rw [find?_eq_lowered apart,lowered_eq_some apart,Declares]

theorem find?_eq_none (apart : Apart requirements) :
    (Index.ofTable requirements).find? name = none ↔ ∀ d, ¬Declares requirements name d := by
  simp only [← find?_eq_some apart,Option.eq_none_iff_forall_ne_some,ne_eq]

/-! Facts one by one. -/

def verdict (requirements : Table String Declaration) (fact : Fact) : Option Mismatch :=
  (mismatch? (.ofTable requirements) fact).toOption.join

/-- A fact has no requirement, or its check fails, or it tells whether there is a mismatch. -/
theorem mismatch?_cases (apart : Apart requirements) (fact : Fact) :
    ((∀ d, ¬Declares requirements fact.name d) ∧ mismatch? (.ofTable requirements) fact =
      .ok (some ⟨fact.name,fact.version,none,.notInManifest⟩)) ∨
    ∃ d, (∀ other, Declares requirements fact.name other ↔ other = d) ∧
      mismatch? (.ofTable requirements) fact = (isMet fact.version d.requirement).map fun met =>
        if met then none else some ⟨fact.name,fact.version,d.requirement,.notSatisfied⟩ := by
  cases found : (Index.ofTable requirements).find? fact.name with
  | none =>
    refine .inl ⟨(find?_eq_none apart).mp found,?_⟩
    rw [mismatch?,found]
  | some d =>
    refine .inr ⟨d,fun other => ?_,mismatch?_of_find? found⟩
    rw [← find?_eq_some apart,found,Option.some.injEq,eq_comm]

theorem exists_mismatch?_iff (apart : Apart requirements) :
    (∃ m?, mismatch? (.ofTable requirements) fact = .ok m?) ↔
      ∀ d, Declares requirements fact.name d → ∃ met, isMet fact.version d.requirement = .ok met := by
  obtain ⟨undeclared,judged⟩ | ⟨d,unique,judged⟩ := mismatch?_cases apart fact
  · simp [judged,undeclared]
  · rw [judged]
    simp only [unique,forall_eq,map_eq_ok]
    constructor
    · rintro ⟨_,met,checked,-⟩
      exact ⟨met,checked⟩
    · rintro ⟨met,checked⟩
      exact ⟨_,met,checked,rfl⟩

structure Judged (requirements : Table String Declaration) (fact : Fact) (found : Option Mismatch) :
    Prop where
  missing_iff : found = some ⟨fact.name,fact.version,none,.notInManifest⟩ ↔
    ∀ d, ¬Declares requirements fact.name d
  unmet_iff (requirement : Option String) :
    found = some ⟨fact.name,fact.version,requirement,.notSatisfied⟩ ↔
      ∃ d, Declares requirements fact.name d ∧ d.requirement = requirement ∧
        isMet fact.version requirement = .ok false
  silent_iff : found = none ↔
    ∃ d, Declares requirements fact.name d ∧ isMet fact.version d.requirement = .ok true

theorem judged_verdict (apart : Apart requirements)
    (answered : ∃ m?, mismatch? (.ofTable requirements) fact = .ok m?) :
    Judged requirements fact (verdict requirements fact) := by
  unfold verdict
  obtain ⟨undeclared,judged⟩ | ⟨d,unique,judged⟩ := mismatch?_cases apart fact
  · rw [judged]
    constructor <;> simp [Except.toOption,undeclared]
  · obtain ⟨_,checked⟩ := answered
    rw [judged] at checked ⊢
    obtain ⟨met,answer,-⟩ := map_eq_ok.mp checked
    rw [answer]
    cases met <;> constructor <;> simp [Except.toOption,Except.map,unique,answer]

/-! The comparison. -/

theorem mismatches_eq_ok {reported : List Mismatch} : mismatches requirements facts = .ok reported ↔
    (∀ fact ∈ facts, ∃ m?, mismatch? (.ofTable requirements) fact = .ok m?) ∧
      reported = facts.filterMap (verdict requirements) := by
  have each (fact : Fact) (m? : Option Mismatch) : mismatch? (.ofTable requirements) fact = .ok m? ↔
      (∃ m?, mismatch? (.ofTable requirements) fact = .ok m?) ∧ m? = verdict requirements fact := by
    unfold verdict
    constructor
    · intro judged
      exact ⟨⟨m?,judged⟩,by rw [judged]; rfl⟩
    · rintro ⟨⟨_,judged⟩,rfl⟩
      rw [judged]
      rfl
  rw [mismatches,bind_eq_ok]
  simp only [mapM_eq_ok_map each]
  constructor
  · rintro ⟨_,⟨answered,rfl⟩,same⟩
    obtain rfl := Except.ok.inj same
    exact ⟨answered,by simp [List.filterMap_map]⟩
  · rintro ⟨answered,rfl⟩
    exact ⟨_,⟨answered,rfl⟩,congrArg Except.ok (by simp [List.filterMap_map])⟩

def Respelled (fact twin : Fact) : Prop :=
  twin.version = fact.version ∧ lowerName twin.name = lowerName fact.name

instance {twin : Fact} : Decidable (Respelled fact twin) := inferInstanceAs (Decidable (_ ∧ _))

def told (m : Mismatch) : String × Option String × MismatchReason :=
  (m.resolved,m.requirement,m.reason)

theorem mismatch?_respelled (apart : Apart requirements) {twin : Fact} (same : Respelled fact twin) :
    (mismatch? (.ofTable requirements) fact).map (Option.map told) =
      (mismatch? (.ofTable requirements) twin).map (Option.map told) := by
  have found : (Index.ofTable requirements).find? twin.name =
      (Index.ofTable requirements).find? fact.name := by
    rw [find?_eq_lowered apart,find?_eq_lowered apart,same.2]
  cases known : (Index.ofTable requirements).find? fact.name with
  | none =>
    rw [known] at found
    simp [mismatch?,known,found,Except.map,told,same.1]
  | some d =>
    rw [mismatch?_of_find? known,mismatch?_of_find? (found.trans known),same.1]
    cases isMet fact.version d.requirement with
    | error e => rfl
    | ok met => cases met <;> simp [Except.map,told]

theorem map_told_mismatches (facts : List Fact) : (mismatches requirements facts).map (List.map told) =
    (facts.mapM fun fact => (mismatch? (.ofTable requirements) fact).map (Option.map told)).map
      (List.filterMap id) := by
  rw [← map_mapM,mismatches]
  cases facts.mapM (mismatch? (.ofTable requirements)) with
  | error e => rfl
  | ok each => simp [bind,Except.bind,pure,Except.pure,Except.map,List.map_filterMap]

/-- The comparison has an answer if and only if the checks of all facts against the requirements of their names
have one. Then at most one mismatch is reported for each fact, in the order of the facts: that its name is
missing where no name is the same but for case, that its requirement is unmet where the check says no, and
nothing else. Names may be written in any case without a change to what is told of them. -/
theorem names_match_in_any_case (apart : Apart requirements) (facts : List Fact) :
    ((∃ reported, mismatches requirements facts = .ok reported) ↔
      ∀ fact ∈ facts, ∀ d, Declares requirements fact.name d →
        ∃ met, isMet fact.version d.requirement = .ok met) ∧
    (∀ reported, mismatches requirements facts = .ok reported →
      ∃ found : Fact → Option Mismatch, reported = facts.filterMap found ∧
        ∀ fact ∈ facts, Judged requirements fact (found fact)) ∧
    ∀ twins, List.Forall₂ Respelled facts twins →
      (mismatches requirements facts).map (List.map told) =
        (mismatches requirements twins).map (List.map told) := by
  refine ⟨?_,fun reported compared => ?_,fun twins respelled => ?_⟩
  · simp only [← exists_mismatch?_iff apart,mismatches_eq_ok,exists_and_left,exists_eq,and_true]
  · obtain ⟨answered,rfl⟩ := mismatches_eq_ok.mp compared
    exact ⟨_,rfl,fun fact member => judged_verdict apart (answered fact member)⟩
  · rw [map_told_mismatches,map_told_mismatches,
      mapM_congr_forall₂ (fun _ _ same => mismatch?_respelled apart same) respelled]

def required (name requirement : String) : String × Declaration :=
  (name,⟨name,"u",some requirement,false⟩)

def resolvedAs (name version : String) : Fact := ⟨name,version,none,.registry,[],none⟩

def sigmas : List Fact :=
  [resolvedAs "σας" "1.0.0",resolvedAs "σασ" "1.0.0",resolvedAs "core" "1.0.0"]

def capitalSigmas : List Fact :=
  [resolvedAs "ΣΑΣ" "1.0.0",resolvedAs "ΣΑσ" "1.0.0",resolvedAs "CORE" "1.0.0"]

def sigmaRequirements : Table String Declaration :=
  [required "ΣΑΣ" ">=2.0.0",required "Core" "1.0.0"]

theorem capital_sigma_matches_final_sigma :
    Apart sigmaRequirements ∧
    (∃ reported, mismatches sigmaRequirements sigmas = .ok reported ∧
      ∃ found : Fact → Option Mismatch, reported = sigmas.filterMap found ∧
        ∀ fact ∈ sigmas, Judged sigmaRequirements fact (found fact)) ∧
    mismatches sigmaRequirements sigmas =
      .ok [⟨"σας","1.0.0",some ">=2.0.0",.notSatisfied⟩,⟨"σασ","1.0.0",none,.notInManifest⟩] ∧
    List.Forall₂ Respelled sigmas capitalSigmas ∧
    (mismatches sigmaRequirements capitalSigmas).map (List.map told) =
      .ok [("1.0.0",some ">=2.0.0",.notSatisfied),("1.0.0",none,.notInManifest)] := by
  have apart : Apart sigmaRequirements := by decide +kernel
  have respelled : List.Forall₂ Respelled sigmas capitalSigmas :=
    .cons (by decide +kernel) (.cons (by decide +kernel) (.cons (by decide +kernel) .nil))
  have compared : mismatches sigmaRequirements sigmas =
      .ok [⟨"σας","1.0.0",some ">=2.0.0",.notSatisfied⟩,⟨"σασ","1.0.0",none,.notInManifest⟩] := by
    decide +kernel
  obtain ⟨-,judged,alike⟩ := names_match_in_any_case apart sigmas
  refine ⟨apart,⟨_,compared,judged _ compared⟩,compared,respelled,?_⟩
  rw [← alike _ respelled,compared]
  rfl

/-- A version that is taken for a number and is none keeps the missing name beside it from being reported. -/
theorem misread_version_hides_missing_name :
    Apart [required "Core" ">=1.0.0"] ∧ (∀ d, ¬Declares [required "Core" ">=1.0.0"] "absent" d) ∧
    mismatches [required "Core" ">=1.0.0"] [resolvedAs "absent" "1.0.0",resolvedAs "core" "1.²"] =
      .error (.notDigit '²') := by
  refine ⟨by decide +kernel,?_,by decide +kernel⟩
  rintro d ⟨key,declared,same⟩
  obtain ⟨rfl,rfl⟩ := Prod.mk.inj (List.mem_singleton.mp declared)
  revert same
  decide +kernel

end RequirementCheck

end DepAudit
