import DepAudit.Version.Basic

/-! The orders of version numbers and of semantic versions are total; what stands above in one version's
precedence stands at least as high in its numbers. Equality is written apart from the order, and the two
agree: versions are linearly ordered up to their build labels. -/
namespace DepAudit

namespace Triple

instance : Std.TransOrd Triple :=
  inferInstanceAs (Std.TransCmp
    (compareLex (compareLex (compareOn major) (compareOn minor)) (compareOn patch)))

instance : Std.LawfulEqOrd Triple where
  eq_of_compare {a b} equal := by
    obtain ⟨front,patch⟩ := Ordering.then_eq_eq.mp equal
    obtain ⟨major,minor⟩ := Ordering.then_eq_eq.mp front
    obtain ⟨_,_,_⟩ := a
    obtain ⟨_,_,_⟩ := b
    obtain rfl := Std.LawfulEqOrd.eq_of_compare major
    obtain rfl := Std.LawfulEqOrd.eq_of_compare minor
    obtain rfl := Std.LawfulEqOrd.eq_of_compare patch
    rfl

end Triple

namespace Version

instance : Std.TransCmp comparePrerelease where
  eq_swap {a b} := by
    cases a <;> cases b
    · rfl
    · rfl
    · rfl
    · exact Std.OrientedOrd.eq_swap
  isLE_trans {a b c} first second := by
    cases c with
    | none => cases a <;> rfl
    | some c =>
      cases b with
      | none => cases second
      | some b =>
        cases a with
        | none => cases first
        | some a => exact Std.TransOrd.isLE_trans first second

instance : Std.TransCmp fun a b : Version => comparePrerelease a.prerelease b.prerelease where
  eq_swap := Std.OrientedCmp.eq_swap
  isLE_trans := Std.TransCmp.isLE_trans

instance : Std.TransOrd Version :=
  inferInstanceAs (Std.TransCmp (compareLex (compareOn triple)
    fun a b => comparePrerelease a.prerelease b.prerelease))

theorem compare_eq (a b : Version) :
    compare a b = (compare a.triple b.triple).then (comparePrerelease a.prerelease b.prerelease) := rfl

theorem triple_isGE {a b : Version} (above : (compare a b).isGE = true) :
    (compare a.triple b.triple).isGE = true := by
  rw [compare_eq] at above
  cases numbers : compare a.triple b.triple with
  | lt =>
    rw [numbers] at above
    cases above
  | eq => rfl
  | gt => rfl

theorem gt_of_triple {a b : Version} (above : compare a.triple b.triple = .gt) : compare a b = .gt := by
  rw [compare_eq,above]
  rfl

/-! The comparisons. Each is a question about the one order, although equality is written apart from it. -/

instance : Std.LawfulEqCmp comparePrerelease where
  eq_of_compare {a b} level := by
    cases a with
    | none =>
      cases b with
      | none => rfl
      | some b => cases level
    | some a =>
      cases b with
      | none => cases level
      | some b => exact congrArg some (Std.LawfulEqOrd.eq_of_compare level)

section

variable {a b c : Version}

theorem beq_iff : (a == b) = true ↔ a.triple = b.triple ∧ a.prerelease = b.prerelease := by
  change (a.triple == b.triple && a.prerelease == b.prerelease) = true ↔ _
  rw [Bool.and_eq_true,beq_iff_eq,beq_iff_eq]

theorem beq_iff_compare : (a == b) = true ↔ compare a b = .eq := by
  rw [beq_iff,compare_eq,Ordering.then_eq_eq,Std.LawfulEqCmp.compare_eq_iff_eq,
    Std.LawfulEqCmp.compare_eq_iff_eq]

theorem lt_eq (a b : Version) : a.lt b = (compare a b).isLT := by
  rw [Version.lt]
  cases compare a b <;> rfl

theorem beq_eq (a b : Version) : (a == b) = (compare a b).isEq := by
  rw [Bool.eq_iff_iff,beq_iff_compare]
  cases compare a b <;> decide

theorem le_eq (a b : Version) : a.le b = (compare a b).isLE := by
  rw [Version.le,lt_eq,beq_eq]
  cases compare a b <;> rfl

theorem gt_eq (a b : Version) : a.gt b = (compare a b).isGT := by
  rw [Version.gt,lt_eq,bne,beq_eq]
  cases compare a b <;> rfl

theorem ge_eq (a b : Version) : a.ge b = (compare a b).isGE := by
  rw [Version.ge,lt_eq]
  cases compare a b <;> rfl

theorem compare_congr {a' b' : Version} (first : (a == a') = true) (second : (b == b') = true) :
    compare a b = compare a' b' :=
  (Std.TransCmp.congr_left (beq_iff_compare.mp first)).trans
    (Std.TransCmp.congr_right (beq_iff_compare.mp second))

theorem hash_congr (same : (a == b) = true) : hash a = hash b := by
  obtain ⟨triple,prerelease⟩ := beq_iff.mp same
  change hash (a.triple,a.prerelease) = hash (b.triple,b.prerelease)
  rw [triple,prerelease]

theorem lt_trans (first : a.lt b = true) (second : b.lt c = true) : a.lt c = true := by
  rw [lt_eq,Ordering.isLT_iff_eq_lt] at first second ⊢
  exact Std.TransCmp.lt_trans first second

theorem beq_equivalence : Equivalence fun a b : Version => (a == b) = true where
  refl _ := beq_iff.mpr ⟨rfl,rfl⟩
  symm same := beq_iff.mpr ⟨(beq_iff.mp same).1.symm,(beq_iff.mp same).2.symm⟩
  trans first second := beq_iff.mpr ⟨(beq_iff.mp first).1.trans (beq_iff.mp second).1,
    (beq_iff.mp first).2.trans (beq_iff.mp second).2⟩

theorem count_comparisons (a b : Version) : [a.lt b,a == b,b.lt a].count true = 1 := by
  have swapped : compare b a = (compare a b).swap := Std.OrientedCmp.eq_swap
  rw [lt_eq,beq_eq,lt_eq,swapped]
  cases compare a b <;> rfl

end

/-- Versions are linearly ordered, up to the build label, of which equality takes no notice. Of less, equal
and greater one holds and no second; the other comparisons are those that follow from them; equal versions
stand for each other in every comparison and have the same hash. -/
theorem ordered_up_to_build :
    (∀ a b : Version, [a.lt b,a == b,b.lt a].count true = 1) ∧
    (∀ a b c : Version, a.lt b = true → b.lt c = true → a.lt c = true) ∧
    (Equivalence (fun a b : Version => (a == b) = true) ∧
      ∀ a b : Version, (a == b) = true ↔ a.triple = b.triple ∧ a.prerelease = b.prerelease) ∧
    (∀ a b : Version, a.le b = (a.lt b || a == b) ∧ a.gt b = b.lt a ∧ a.ge b = b.le a) ∧
    (∀ a a' b b' : Version, (a == a') = true → (b == b') = true →
      a.lt b = a'.lt b' ∧ (a == b) = (a' == b') ∧ a.le b = a'.le b' ∧ a.gt b = a'.gt b' ∧
        a.ge b = a'.ge b') ∧
    ∀ a b : Version, (a == b) = true → hash a = hash b := by
  refine ⟨count_comparisons,fun _ _ _ => lt_trans,⟨beq_equivalence,fun _ _ => beq_iff⟩,?_,?_,
    fun _ _ => hash_congr⟩
  · intro a b
    have swapped : compare b a = (compare a b).swap := Std.OrientedCmp.eq_swap
    refine ⟨rfl,?_,?_⟩
    · rw [gt_eq,lt_eq,swapped,Ordering.isLT_swap]
    · rw [ge_eq,le_eq,swapped,Ordering.isLE_swap]
  · intro a a' b b' first second
    have level := compare_congr first second
    exact ⟨by rw [lt_eq,lt_eq,level],by rw [beq_eq,beq_eq,level],by rw [le_eq,le_eq,level],
      by rw [gt_eq,gt_eq,level],by rw [ge_eq,ge_eq,level]⟩

/-- A candidate stands between the release before it and its own, and the build that either names makes no
difference. -/
theorem candidate_stands_between_builds :
    ((⟨⟨1,9,0⟩,none,some "a"⟩ : Version).lt ⟨⟨1,10,0⟩,some "rc1",none⟩ = true ∧
      (⟨⟨1,10,0⟩,some "rc1",none⟩ : Version).lt ⟨⟨1,10,0⟩,none,none⟩ = true ∧
      (⟨⟨1,9,0⟩,none,some "a"⟩ : Version).lt ⟨⟨1,10,0⟩,none,none⟩ = true) ∧
    ((⟨⟨1,10,0⟩,none,none⟩ : Version) == ⟨⟨1,10,0⟩,none,some "b"⟩) = true ∧
      (⟨⟨1,10,0⟩,none,none⟩ : Version).gt ⟨⟨1,10,0⟩,some "rc1",none⟩ =
        (⟨⟨1,10,0⟩,none,some "b"⟩ : Version).gt ⟨⟨1,10,0⟩,some "rc1",none⟩ ∧
      hash (⟨⟨1,10,0⟩,none,none⟩ : Version) = hash (⟨⟨1,10,0⟩,none,some "b"⟩ : Version) := by
  let before : Version := ⟨⟨1,9,0⟩,none,some "a"⟩
  let candidate : Version := ⟨⟨1,10,0⟩,some "rc1",none⟩
  let release : Version := ⟨⟨1,10,0⟩,none,none⟩
  let rebuilt : Version := ⟨⟨1,10,0⟩,none,some "b"⟩
  obtain ⟨-,trans,⟨⟨refl,-,-⟩,fields⟩,-,congruent,hashed⟩ := ordered_up_to_build
  have first : before.lt candidate = true := by decide
  have second : candidate.lt release = true := by decide
  have same : (release == rebuilt) = true := (fields release rebuilt).mpr ⟨rfl,rfl⟩
  obtain ⟨-,-,-,above,-⟩ := congruent release rebuilt candidate candidate same (refl candidate)
  exact ⟨⟨first,second,trans before candidate release first second⟩,same,above,
    hashed release rebuilt same⟩

end Version

end DepAudit
