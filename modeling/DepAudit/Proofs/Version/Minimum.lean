import DepAudit.Proofs.Version.Order
import DepAudit.Proofs.Version.Reading
import DepAudit.RequirementCheck

/-! Minimum requirements: what compares at least as high as an accepted version is accepted too, where
the three comparisons see enough of the texts. -/
namespace DepAudit

namespace Version

namespace Reading

variable {a b : Reading} {v w : Version} {ta tb : Triple} {texts : Ordering}

theorem triple?_of_version? (read : a.version? = some v) : a.triple? = some v.triple := by
  cases a <;> cases read
  rfl

theorem compare_versions (first : a.version? = some v) (second : b.version? = some w) :
    a.compare b texts = compare v w := by
  rw [Reading.compare,first,second]

theorem compareTriples_numbers (first : a.triple? = some ta) (second : b.triple? = some tb) :
    a.compareTriples b texts = compare ta tb := by
  rw [compareTriples,first,second]

theorem compare_numbers (other : a.version? = none ∨ b.version? = none) (first : a.triple? = some ta)
    (second : b.triple? = some tb) : a.compare b texts = compare ta tb := by
  rw [Reading.compare]
  split
  · rename_i front back
    rw [front,back] at other
    rcases other with none | none <;> cases none
  · exact compareTriples_numbers first second

/-- Where one text has no numbers, the texts decide. -/
theorem compare_texts (plain : a.triple? = none ∨ b.triple? = none) : a.compare b texts = texts := by
  rw [Reading.compare,compareTriples]
  split
  · rename_i first second
    rw [triple?_of_version? first,triple?_of_version? second] at plain
    rcases plain with none | none <;> cases none
  · split
    · rename_i first second
      rw [first,second] at plain
      rcases plain with none | none <;> cases none
    · rfl

/-- If it is not one alone of three that lacks numbers, then all have some or no two. -/
theorem numbers_or_texts {c : Reading} (alike : [a,b,c].countP (·.triple?.isNone) ≠ 1) :
    (∃ ta tb tc, a.triple? = some ta ∧ b.triple? = some tb ∧ c.triple? = some tc) ∨
      (b.triple? = none ∨ a.triple? = none) ∧ (c.triple? = none ∨ b.triple? = none) ∧
        (c.triple? = none ∨ a.triple? = none) := by
  cases first : a.triple? <;> cases second : b.triple? <;> cases third : c.triple? <;>
    simp [first,second,third] at alike ⊢

theorem triples_isGE (first : a.triple? = some ta) (second : b.triple? = some tb)
    (above : (a.compare b texts).isGE = true) : (compare ta tb).isGE = true := by
  rw [Reading.compare] at above
  split at above
  · rename_i front back
    obtain rfl := Option.some.inj (first.symm.trans (triple?_of_version? front))
    obtain rfl := Option.some.inj (second.symm.trans (triple?_of_version? back))
    exact triple_isGE above
  · rwa [compareTriples_numbers first second] at above

/-- In a chain of three the last comparison fails where the middle alone is no version, by which the
outer two are seen as more than their equal numbers. -/
theorem chain_fails_iff {low mid high : Reading} {tl tm th : Triple} {upper lower outer : Ordering}
    (lowNumbers : low.triple? = some tl) (midNumbers : mid.triple? = some tm)
    (highNumbers : high.triple? = some th) (accepted : (mid.compare low lower).isGE = true)
    (above : (high.compare mid upper).isGE = true) :
    (high.compare low outer).isGE = false ↔ ∃ a b, low.version? = some a ∧ high.version? = some b ∧
      mid.version? = none ∧ a.triple = b.triple ∧ compare b a = .lt := by
  have numbers : (compare th tl).isGE = true :=
    Std.TransCmp.isGE_trans (triples_isGE highNumbers midNumbers above)
      (triples_isGE midNumbers lowNumbers accepted)
  -- the numbers carry over, so that only two versions at the ends can fail, and only by their labels
  cases last : high.version? with
  | none =>
    rw [compare_numbers (.inl last) highNumbers lowNumbers,numbers]
    exact ⟨nofun,nofun⟩
  | some b =>
    cases first : low.version? with
    | none =>
      rw [compare_numbers (.inr first) highNumbers lowNumbers,numbers]
      exact ⟨nofun,nofun⟩
    | some a =>
      rw [compare_versions last first]
      cases middle : mid.version? with
      | some c =>
        rw [compare_versions middle first] at accepted
        rw [compare_versions last middle] at above
        rw [Std.TransCmp.isGE_trans above accepted]
        exact ⟨nofun,nofun⟩
      | none =>
        obtain rfl := Option.some.inj (lowNumbers.symm.trans (triple?_of_version? first))
        obtain rfl := Option.some.inj (highNumbers.symm.trans (triple?_of_version? last))
        constructor
        · intro below
          have less : compare b a = .lt := by
            cases order : compare b a <;> rw [order] at below <;> first | rfl | cases below
          cases order : compare b.triple a.triple with
          | lt =>
            rw [order] at numbers
            cases numbers
          | eq => exact ⟨a,b,rfl,rfl,rfl,(Std.LawfulEqOrd.eq_of_compare order).symm,less⟩
          | gt =>
            rw [gt_of_triple order] at less
            cases less
        · rintro ⟨_,_,same,same',-,-,less⟩
          obtain rfl := Option.some.inj same
          obtain rfl := Option.some.inj same'
          rw [less]
          rfl

end Reading

end Version

namespace Requirement
open Version

/-- A minimum is met by what compares at least as high as it, blanks around it left out. -/
theorem isMet_minimum (version minimum : String) : isMet version (some (">=" ++ minimum)) =
    compares version (String.ofList (Text.trim minimum.toList)) Ordering.isGE := by
  have mark : (">=" ++ minimum).toList = '>' :: '=' :: minimum.toList := by
    rw [String.toList_append]
    rfl
  have trimmed : Text.trim (">=" ++ minimum).toList =
      '>' :: '=' :: Text.dropEndWhile Text.isBlank minimum.toList := by
    have visible : Text.isBlank '>' = false := by decide +kernel
    have open_ : Text.isBlank '=' = false := by decide +kernel
    rw [mark,Text.trim_eq,Text.skipBlanks_cons visible,Text.dropEndWhile_cons visible,Text.dropEndWhile_cons open_]
  have inexact : isExact (">=" ++ minimum) = false := by
    rw [isExact,trimmed]
    rfl
  have bound : Text.after? ">=".toList (Text.trim (">=" ++ minimum).toList) =
      some (Text.dropEndWhile Text.isBlank minimum.toList) := by
    rw [trimmed]
    rfl
  rw [isMet,if_neg (ne_true_of_eq_false inexact),bound]
  exact congrArg (fun cs => compares version (String.ofList cs) Ordering.isGE)
    (Text.trim_dropEndWhile minimum.toList)

def isNumberless (text : String) : Bool :=
  match looseTriple? text with
  | .ok none => true
  | _ => false

theorem isNumberless_of_reads {text : String} {r : Reading} (read : Reads text r) :
    isNumberless text = r.triple?.isNone := by
  rw [isNumberless,read.numbers]
  cases r.triple? <;> rfl

/-- A semantic version that has the numbers of a minimum and stands below it, while the version that was
accepted is none and was seen by its numbers only. -/
def Undercuts (minimum version higher : String) : Prop :=
  ∃ a b, parse? minimum = .ok (some a) ∧ parse? higher = .ok (some b) ∧ parse? version = .ok none ∧
    a.triple = b.triple ∧ compare b a = .lt

theorem undercuts_iff {minimum version higher : String} {low mid high : Reading}
    (lowRead : Reads minimum low) (midRead : Reads version mid) (highRead : Reads higher high) :
    Undercuts minimum version higher ↔ ∃ a b, low.version? = some a ∧ high.version? = some b ∧
      mid.version? = none ∧ a.triple = b.triple ∧ compare b a = .lt := by
  rw [Undercuts,lowRead.version,midRead.version,highRead.version]
  simp only [Except.ok.injEq]

/-- What compares at least as high as an accepted version meets the minimum too, unless it undercuts it;
the texts have to be alike, in that it is not one alone that lacks numbers. -/
theorem minimum_is_upward_closed {minimum version higher : String} {order : Ordering}
    (accepted : isMet version (some (">=" ++ minimum)) = .ok true)
    (compared : compareLoose higher version = .ok order) (above : order.isGE = true)
    (alike : [minimum,version,higher].countP isNumberless ≠ 1) :
    ∃ met, isMet higher (some (">=" ++ minimum)) = .ok met ∧
      (met = false ↔ Undercuts minimum version higher) := by
  rw [isMet_minimum] at accepted ⊢
  generalize bound_ : String.ofList (Text.trim minimum.toList) = bound at accepted ⊢
  obtain ⟨lower,judged,reached⟩ := map_eq_ok.mp accepted
  obtain ⟨⟨mid,midRead⟩,⟨low,boundRead⟩⟩ := reads_of_compareLoose judged
  obtain ⟨⟨high,highRead⟩,-⟩ := reads_of_compareLoose compared
  have lowRead : Reads minimum low := .of_trim (bound_ ▸ boundRead)
  obtain rfl := Except.ok.inj (judged.symm.trans (compareLoose_of_reads midRead boundRead))
  obtain rfl := Except.ok.inj (compared.symm.trans (compareLoose_of_reads highRead midRead))
  refine ⟨_,map_eq_ok.mpr ⟨_,compareLoose_of_reads highRead boundRead,rfl⟩,?_⟩
  rw [undercuts_iff lowRead midRead highRead]
  have alike_ : [low,mid,high].countP (·.triple?.isNone) ≠ 1 := by
    simpa only [List.countP_cons,List.countP_nil,isNumberless_of_reads lowRead,
      isNumberless_of_reads midRead,isNumberless_of_reads highRead] using alike
  rcases Reading.numbers_or_texts alike_ with ⟨tl,tm,th,first,second,third⟩ | ⟨first,second,third⟩
  · exact Reading.chain_fails_iff first second third reached above
  · rw [Reading.compare_texts first] at reached
    rw [Reading.compare_texts second] at above
    rw [Reading.compare_texts third,Std.TransCmp.isGE_trans above reached]
    refine ⟨nofun,?_⟩
    rintro ⟨a,b,isLow,isHigh,-⟩
    rw [Reading.triple?_of_version? isLow,Reading.triple?_of_version? isHigh] at third
    rcases third with none | none <;> cases none

/-- What stands as high as a tag of the minimum's numbers is accepted, save for a prerelease of them. -/
theorem tag_carries_minimum :
    isMet "v1.2.0" (some (">=" ++ " 1.2.0")) = .ok true ∧
      (compareLoose "1.10.0-rc1" "v1.2.0" = .ok .gt ∧
        isMet "1.10.0-rc1" (some (">=" ++ " 1.2.0")) = .ok true) ∧
      compareLoose "1.2.0-rc1" "v1.2.0" = .ok .eq ∧
        isMet "1.2.0-rc1" (some (">=" ++ " 1.2.0")) = .ok false := by
  have accepted : isMet "v1.2.0" (some (">=" ++ " 1.2.0")) = .ok true := by decide +kernel
  have later : compareLoose "1.10.0-rc1" "v1.2.0" = .ok .gt := by decide +kernel
  have level : compareLoose "1.2.0-rc1" "v1.2.0" = .ok .eq := by decide +kernel
  obtain ⟨met,found,lacks⟩ := minimum_is_upward_closed accepted later rfl (by decide +kernel)
  obtain ⟨met',found',lacks'⟩ := minimum_is_upward_closed accepted level rfl (by decide +kernel)
  have clear : ¬Undercuts " 1.2.0" "v1.2.0" "1.10.0-rc1" := by
    rintro ⟨a,b,first,second,-,same,-⟩
    have minimum : parse? " 1.2.0" = .ok (some ⟨⟨1,2,0⟩,none,none⟩) := by rfl
    have higher : parse? "1.10.0-rc1" = .ok (some ⟨⟨1,10,0⟩,some "rc1",none⟩) := by rfl
    obtain rfl := Option.some.inj (Except.ok.inj (minimum.symm.trans first))
    obtain rfl := Option.some.inj (Except.ok.inj (higher.symm.trans second))
    cases same
  have under : Undercuts " 1.2.0" "v1.2.0" "1.2.0-rc1" :=
    ⟨⟨⟨1,2,0⟩,none,none⟩,⟨⟨1,2,0⟩,some "rc1",none⟩,by rfl,by rfl,by rfl,rfl,by decide⟩
  rw [Bool.eq_true_of_not_eq_false (lacks.not.mpr clear)] at found
  rw [lacks'.mpr under] at found'
  exact ⟨accepted,⟨later,found⟩,level,found'⟩

/-- A text compares at least as high as an accepted version, and does not meet the minimum. -/
def TurnsAway (minimum version higher : String) : Prop :=
  isMet version (some (">=" ++ minimum)) = .ok true ∧
    (compareLoose higher version).map Ordering.isGE = .ok true ∧
    isMet higher (some (">=" ++ minimum)) = .ok false

instance (minimum version higher : String) : Decidable (TurnsAway minimum version higher) :=
  inferInstanceAs (Decidable (_ ∧ _ ∧ _))

/-- One text lacks numbers, the minimum, the version or the higher one; or a tag stands between a release
and its prerelease. -/
theorem higher_versions_turned_away :
    TurnsAway "9" "9.0.0" "10.0.0" ∧ TurnsAway "10.0.0" "5" "9.0.0" ∧ TurnsAway "9.0.0" "10.0.0" "10.x" ∧
      TurnsAway "1.0.0" "v1.0.0" "1.0.0-rc1" := by
  decide +kernel

end Requirement

end DepAudit
