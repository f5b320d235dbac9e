import DepAudit.Proofs.Version.Recognition
import DepAudit.RequirementCheck

/-! Checks of resolved versions. A release that is asked for exactly turns every other version away, and
the check reports it; a version with a label is not recognised as a version and is met by all of them. -/
namespace DepAudit
open Text Version

namespace Version

def isLabelled (v : Version) : Bool := v.prerelease.isSome || v.build.isSome

theorem beq_self (v : Version) : (v == v) = true := by
  change (v.triple == v.triple && v.prerelease == v.prerelease) = true
  rw [BEq.rfl,BEq.rfl,Bool.and_self]

end Version

namespace Requirement

/-- A requirement that reads as a version asks for its own text, unless it has a label. -/
theorem isMet_of_parts {pin : String} {p : Parts} (taken : Parts.ofText? (trim pin.toList) = some p)
    (version : String) : isMet version (some pin) =
      .ok (p.prerelease.isSome || p.build.isSome || version == String.ofList (trim pin.toList)) := by
  obtain ⟨proper,spelled⟩ := Parts.spelled taken
  have exact_ : isExact pin = (p.prerelease.isNone && p.build.isNone) := by
    rw [isExact_eq,taken,Option.any_some]
  have unmarked : after? ">=".toList (trim pin.toList) = none := by
    rw [spelled]
    exact Parts.after?_core proper.toNumeric (by decide +kernel) ['='] p.labels
  have unsplit : rangeEnds? (trim pin.toList) = none := by
    rw [rangeEnds?,spelled,pieces_of_misses (Parts.silent_chars proper none [])]
  rw [isMet,exact_,unmarked,unsplit]
  cases p.prerelease <;> cases p.build <;> rfl

/-- Another version than the wanted one is accepted only where a label hides what is wanted. -/
theorem isMet_other {pin resolved : String} {wanted found : Version}
    (wanted_ : parse? pin = .ok (some wanted)) (found_ : parse? resolved = .ok (some found))
    (other : (wanted == found) = false) : isMet resolved (some pin) = .ok wanted.isLabelled := by
  obtain ⟨p,t,taken,-,rfl⟩ := parts_of_parse? wanted_
  have different : (resolved == String.ofList (trim pin.toList)) = false := by
    refine beq_false_of_ne fun same => ?_
    rw [same,parse?_trim,wanted_] at found_
    obtain rfl := Option.some.inj (Except.ok.inj found_)
    rw [beq_self] at other
    cases other
  rw [isMet_of_parts taken,different,Bool.or_false,isLabelled,Parts.versionOf,Option.isSome_map,
    Option.isSome_map]

end Requirement

namespace RequirementCheck
open Requirement

variable {index : Index} {requirements : Table String Declaration} {facts : List Fact} {fact : Fact}
  {m : Mismatch}

/-- A mismatch names the fact that it was found for. -/
theorem named_of_mismatch? (found : mismatch? index fact = .ok (some m)) :
    m.package = fact.name ∧ m.resolved = fact.version := by
  rw [mismatch?] at found
  split at found
  · obtain rfl := Option.some.inj (Except.ok.inj found)
    exact ⟨rfl,rfl⟩
  · obtain ⟨met,_,rest⟩ := bind_eq_ok.mp found
    cases met with
    | true => cases rest
    | false =>
      obtain rfl := Option.some.inj (Except.ok.inj rest)
      exact ⟨rfl,rfl⟩

theorem mismatch?_of_find? {d : Declaration} (found : index.find? fact.name = some d) :
    mismatch? index fact = (isMet fact.version d.requirement).map fun met =>
      if met then none else some ⟨fact.name,fact.version,d.requirement,.notSatisfied⟩ := by
  rw [mismatch?,found]
  dsimp only
  cases isMet fact.version d.requirement with
  | error e => rfl
  | ok met => cases met <;> rfl

/-- Only the name and the version of a fact are checked. -/
theorem mismatch?_congr {twin : Fact} (name : twin.name = fact.name) (version : twin.version = fact.version) :
    mismatch? index twin = mismatch? index fact := by
  unfold mismatch?
  rw [name,version]

theorem mem_mismatches {reported : List Mismatch} (checked : mismatches requirements facts = .ok reported) :
    m ∈ reported ↔ ∃ fact ∈ facts, mismatch? (.ofTable requirements) fact = .ok (some m) := by
  obtain ⟨each,compared,same⟩ := bind_eq_ok.mp checked
  obtain rfl := Except.ok.inj same
  have all := mapM_eq_ok.mp compared
  rw [List.mem_filterMap]
  constructor
  · rintro ⟨_,listed,rfl⟩
    exact exists_of_forall₂ all listed
  · rintro ⟨fact,member,named⟩
    obtain ⟨m?,listed,judged⟩ := exists_of_forall₂ all.flip member
    exact ⟨m?,listed,Except.ok.inj (judged.symm.trans named)⟩

def Demands (requirements : Table String Declaration) (fact : Fact) (requirement : String) : Prop :=
  ∃ d, (Index.ofTable requirements).find? fact.name = some d ∧ d.requirement = some requirement

theorem mismatch?_of_demands {requirement : String} (demanded : Demands requirements fact requirement) :
    mismatch? (.ofTable requirements) fact = (isMet fact.version (some requirement)).map fun met =>
      if met then none else some ⟨fact.name,fact.version,some requirement,.notSatisfied⟩ := by
  obtain ⟨d,declared,asked⟩ := demanded
  rw [mismatch?_of_find? declared,asked]

/-- A version that is wanted exactly rejects every other version, and the check reports it, if and only if
it has no label; with a label it accepts them all. -/
theorem exact_version_rejects_iff_unlabelled {pin : String} {wanted found : Version}
    (wanted_ : parse? pin = .ok (some wanted)) (found_ : parse? fact.version = .ok (some found))
    (other : (wanted == found) = false) :
    isMet fact.version (some pin) = .ok wanted.isLabelled ∧
      ∀ {requirements facts reported}, Demands requirements fact pin → fact ∈ facts →
        mismatches requirements facts = .ok reported →
        (⟨fact.name,fact.version,some pin,.notSatisfied⟩ ∈ reported ↔ wanted.isLabelled = false) := by
  have met := isMet_other wanted_ found_ other
  refine ⟨met,fun {requirements facts reported} demanded member checked => ?_⟩
  have judged := mismatch?_of_demands demanded
  rw [met] at judged
  rw [mem_mismatches checked]
  constructor
  · -- the fact that is named may be another one, which is judged alike
    rintro ⟨twin,-,named⟩
    obtain ⟨name,version⟩ := named_of_mismatch? named
    rw [mismatch?_congr name.symm version.symm,judged] at named
    cases labelled : wanted.isLabelled with
    | false => rfl
    | true =>
      rw [labelled] at named
      cases named
  · intro unlabelled
    refine ⟨fact,member,judged.trans ?_⟩
    rw [unlabelled]
    rfl

/-- A prerelease in place of the release that is wanted is reported, and the release in place of the
prerelease is not. -/
theorem prerelease_hides_what_is_wanted :
    (isMet "1.0.0-beta" (some "1.0.0") = .ok false ∧
      ∃ reported, mismatches [("A",⟨"A","u/A",some "1.0.0",false⟩)] [⟨"a","1.0.0-beta",none,.registry,[],none⟩] =
        .ok reported ∧ ⟨"a","1.0.0-beta",some "1.0.0",.notSatisfied⟩ ∈ reported) ∧
      isMet "1.0.0" (some "1.0.0-beta") = .ok true := by
  have release : parse? "1.0.0" = .ok (some ⟨⟨1,0,0⟩,none,none⟩) := by rfl
  have beta : parse? "1.0.0-beta" = .ok (some ⟨⟨1,0,0⟩,some "beta",none⟩) := by rfl
  let wantsRelease : Table String Declaration := [("A",⟨"A","u/A",some "1.0.0",false⟩)]
  let hasBeta : Fact := ⟨"a","1.0.0-beta",none,.registry,[],none⟩
  let hasRelease : Fact := ⟨"a","1.0.0",none,.registry,[],none⟩
  have found : parse? hasBeta.version = .ok (some ⟨⟨1,0,0⟩,some "beta",none⟩) := beta
  have found' : parse? hasRelease.version = .ok (some ⟨⟨1,0,0⟩,none,none⟩) := release
  have demanded : Demands wantsRelease hasBeta "1.0.0" :=
    ⟨⟨"A","u/A",some "1.0.0",false⟩,by decide +kernel,rfl⟩
  have checked : mismatches wantsRelease [hasBeta] =
      .ok [⟨"a","1.0.0-beta",some "1.0.0",.notSatisfied⟩] := by decide +kernel
  obtain ⟨rejected,named⟩ := exact_version_rejects_iff_unlabelled release found (by decide)
  obtain ⟨accepted,-⟩ := exact_version_rejects_iff_unlabelled beta found' (by decide)
  have listed := (named demanded (List.mem_singleton_self hasBeta) checked).mpr rfl
  exact ⟨⟨rejected,_,checked,listed⟩,accepted⟩

end RequirementCheck

end DepAudit
