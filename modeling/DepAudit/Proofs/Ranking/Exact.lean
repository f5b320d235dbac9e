import DepAudit.Proofs.StableSort
import DepAudit.Proofs.Table
import DepAudit.Ranking
import Mathlib.Algebra.Order.Field.Basic
import Mathlib.Data.Rat.Cast.Order

/-! What a ranking is made of: the greatest number of imports and, in exact arithmetic, shares of it, frequencies,
and which of two names is ranked first. -/
namespace DepAudit

namespace Scalar

theorem zero_eq : (zero : ℚ) = 0 := Rat.mkRat_one 0

theorem one_eq : (one : ℚ) = 1 := Rat.mkRat_one 1

theorem ofInt_eq (n : ℤ) : (ofInt n : ℚ) = n := Rat.mkRat_one n

theorem ofQuotient_eq (n : ℤ) (d : ℕ) : (ofQuotient n d : ℚ) = n / d := Rat.mkRat_eq_div n d

theorem clamp_eq (low high value : ℚ) : clamp low high value = max low (min value high) := by
  have least : (if value < high then value else high) = min value high := by
    rw [min_def_lt]
  unfold clamp
  dsimp only
  rw [least,max_def_lt]

theorem clamp_mono {low high a b : ℚ} (order : a ≤ b) : clamp low high a ≤ clamp low high b := by
  rw [clamp_eq,clamp_eq]
  exact max_le_max_left low (min_le_min_right high order)

end Scalar

namespace Ranking

/-! Greatest numbers of imports. -/

section

variable {α : Type} {metrics : Table String (ImportMetrics α)} {facts : List Fact}

theorem maxTotal_eq (metrics : Table String (ImportMetrics α)) (facts : List Fact) :
    maxTotal metrics facts = ((totals metrics facts).filterMap id).max?.getD 0 := by
  unfold maxTotal
  cases (totals metrics facts).filterMap id <;> rfl

theorem le_maxTotal {total : Int}
    (counted : some total ∈ totals metrics facts) : total ≤ maxTotal metrics facts := by
  have member : total ∈ (totals metrics facts).filterMap id :=
    List.mem_filterMap.mpr ⟨_,counted,rfl⟩
  rw [maxTotal_eq]
  cases greatest : ((totals metrics facts).filterMap id).max? with
  | none =>
    rw [List.max?_eq_none_iff.mp greatest] at member
    cases member
  | some top => exact (List.max?_eq_some_iff.mp greatest).2 total member

/-- The greatest number is zero or one of the numbers. -/
theorem maxTotal_cases (metrics : Table String (ImportMetrics α)) (facts : List Fact) :
    maxTotal metrics facts = 0 ∨ some (maxTotal metrics facts) ∈ totals metrics facts := by
  rw [maxTotal_eq]
  cases greatest : ((totals metrics facts).filterMap id).max? with
  | none => exact .inl rfl
  | some top =>
    obtain ⟨_,counted,same⟩ := List.mem_filterMap.mp (List.max?_mem greatest)
    exact .inr (same ▸ counted)

theorem mem_totals {total : Int} : some total ∈ totals metrics facts ↔
    ∃ f ∈ facts, ∃ m, metrics.get? f.name = some m ∧ m.total = total := by
  simp [totals]

theorem maxTotal_le {bound : ℤ} (positive : 0 ≤ bound)
    (each : ∀ f ∈ facts, ∀ m, metrics.get? f.name = some m → m.total ≤ bound) :
    maxTotal metrics facts ≤ bound := by
  rcases maxTotal_cases metrics facts with none | greatest
  · exact none.le.trans positive
  · obtain ⟨f,member,m,found,same⟩ := mem_totals.mp greatest
    exact same ▸ each f member m found

theorem maxTotal_nonneg
    (each : ∀ f ∈ facts, ∀ m, metrics.get? f.name = some m → 0 ≤ m.total) :
    0 ≤ maxTotal metrics facts := by
  rcases maxTotal_cases metrics facts with none | greatest
  · exact none.ge
  · obtain ⟨f,member,m,found,same⟩ := mem_totals.mp greatest
    exact same ▸ each f member m found

/-- Without metrics it only matters whether the fact itself tells of imports. -/
theorem frequency_uncounted [Scalar α] {g : Graph} {bottlenecks : List String} {weights : Weights α}
    {f : Fact} (none : metrics.get? f.name = none) (top : ℤ) :
    (against g bottlenecks metrics weights).frequency top f =
      signal (f.importCount.any (0 < ·)) := by
  unfold frequency against signal
  dsimp only
  rw [none]
  cases f.importCount <;> simp

end

/-! Shares and frequencies. -/

theorem importShare_eq (total top : ℤ) :
    (importShare total top : ℚ) = if 0 < top then (total : ℚ) / top else 0 := by
  unfold importShare
  split
  · rename_i some
    rw [Scalar.ofQuotient_eq,← Int.cast_natCast,Int.toNat_of_nonneg some.le]
  · exact Scalar.zero_eq

variable {g : Graph} {bottlenecks : List String} {weights : Weights ℚ}
  {metrics : Table String (ImportMetrics ℚ)} {facts : List Fact} {f : Fact} {top : ℤ}

theorem frequency_counted {m : ImportMetrics ℚ} (counted : metrics.get? f.name = some m) :
    (against g bottlenecks metrics weights).frequency top f = Scalar.clamp 0 1
      (importShare m.total top * weights.importCount + m.coverage * weights.coverage) := by
  rw [← Scalar.zero_eq,← Scalar.one_eq]
  unfold frequency against
  dsimp only
  rw [counted]

/-! Order. -/

theorem precedes_iff (a b : Score ℚ) : (!decide (a.score < b.score)) = true ↔ b.score ≤ a.score := by
  rw [Bool.not_eq_true',decide_eq_false_iff_not]
  exact not_lt

/-- Of two names the one with the greater score is first; with equal scores they are as they were. -/
theorem before_sort_iff {scores : List (Score ℚ)} (distinct : (scores.map Score.name).Nodup)
    {a b : Score ℚ} (different : a.name ≠ b.name) (first : a ∈ scores) (second : b ∈ scores) :
    [a.name,b.name].Sublist ((sort scores).map Score.name) ↔ b.score ≤ a.score ∧
      (a.score ≤ b.score → [a.name,b.name].Sublist (scores.map Score.name)) := by
  let le (a b : Score ℚ) : Bool := !decide (a.score < b.score)
  have trans (a b c : Score ℚ) (one : le a b) (other : le b c) : le a c :=
    (precedes_iff a c).mpr (((precedes_iff b c).mp other).trans ((precedes_iff a b).mp one))
  have total (a b : Score ℚ) : (le a b || le b a) = true := by
    rw [Bool.or_eq_true,precedes_iff,precedes_iff]
    exact le_total b.score a.score
  have moved : (sort scores).Perm scores := List.mergeSort_perm ..
  have still : ((sort scores).map Score.name).Nodup := (moved.map _).nodup_iff.mpr distinct
  rw [pair_sublist_map_iff still (moved.mem_iff.mpr first) (moved.mem_iff.mpr second),
    pair_sublist_map_iff distinct first second]
  have sorted := pair_sublist_mergeSort_iff trans total distinct.of_map
    (fun same => different (congrArg Score.name same)) first second
  rw [← precedes_iff,← precedes_iff]
  exact sorted

theorem rank_perm {α : Type} [Scalar α] (r : Ranking α) (facts : List Fact) :
    (r.rank facts).Perm (facts.map (r.score (maxTotal r.metrics facts))) :=
  List.mergeSort_perm ..

theorem names_rank_perm {α : Type} [Scalar α] (r : Ranking α) (facts : List Fact) :
    ((r.rank facts).map Score.name).Perm (facts.map Fact.name) := by
  have named := (rank_perm r facts).map Score.name
  rw [List.map_map] at named
  exact named

theorem mem_rank {α : Type} [Scalar α] {r : Ranking α} {s : Score α} :
    s ∈ r.rank facts ↔ ∃ f ∈ facts, r.score (maxTotal r.metrics facts) f = s := by
  rw [(rank_perm r facts).mem_iff,List.mem_map]

/-- What is ranked before what, by the scores of the facts. -/
theorem before_rank_iff (r : Ranking ℚ) (distinct : (facts.map Fact.name).Nodup) {h : Fact}
    (first : f ∈ facts) (second : h ∈ facts) (different : f.name ≠ h.name) :
    [f.name,h.name].Sublist ((r.rank facts).map Score.name) ↔
      (r.score (maxTotal r.metrics facts) h).score ≤ (r.score (maxTotal r.metrics facts) f).score ∧
      ((r.score (maxTotal r.metrics facts) f).score ≤ (r.score (maxTotal r.metrics facts) h).score →
        [f.name,h.name].Sublist (facts.map Fact.name)) := by
  have names : (facts.map (r.score (maxTotal r.metrics facts))).map Score.name =
      facts.map Fact.name := List.map_map
  have sorted := before_sort_iff (names ▸ distinct) different (List.mem_map_of_mem first)
    (List.mem_map_of_mem second)
  rw [names] at sorted
  exact sorted

end Ranking

end DepAudit
