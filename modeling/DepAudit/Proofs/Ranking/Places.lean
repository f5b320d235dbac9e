import DepAudit.Proofs.Ranking.Exact
import DepAudit.Proofs.Scalar
import Mathlib.Data.List.FinRange

/-! The order of a ranking, told by the places of the facts, so that equal facts are told apart. It is decided by
two scores at a time: that some facts are left out changes nothing for the others, except by the greatest
number of imports. -/
namespace DepAudit.Ranking

structure Descends {α : Type} [LT α] {n : ℕ} (key : Fin n → α) (order : List (Fin n)) : Prop where
  perm : order.Perm (List.finRange n)
  sorted : order.Pairwise fun i j => key j < key i ∨ ¬key i < key j ∧ i < j

theorem Descends.congr {α β : Type} [LT α] [LT β] {n : ℕ} {key : Fin n → α} {other : Fin n → β}
    (same : ∀ i j, key i < key j ↔ other i < other j) {order : List (Fin n)}
    (descends : Descends key order) : Descends other order := by
  refine ⟨descends.perm,descends.sorted.imp fun {i j} before => ?_⟩
  rwa [same,same] at before

variable {α : Type} [Scalar α] {n : ℕ}

def places (key : Fin n → α) : List (Fin n) :=
  (List.finRange n).mergeSort fun i j => !decide (key i < key j)

section

variable [Scalar.Ordered α] {key : Fin n → α} (compared : ∀ i, ∃ d, key i < d ∨ d < key i)
include compared

theorem places_trans (i j k : Fin n) (first : (!decide (key i < key j)) = true)
    (second : (!decide (key j < key k)) = true) : (!decide (key i < key k)) = true := by
  simp only [Bool.not_eq_true',decide_eq_false_iff_not] at first second ⊢
  obtain ⟨_,beside⟩ := compared j
  exact fun less => (Scalar.Ordered.splits less beside).elim first second

omit compared in
theorem places_total (i j : Fin n) : (!decide (key i < key j) || !decide (key j < key i)) = true := by
  by_cases less : key i < key j
  · simp [Scalar.Ordered.asymm less]
  · simp [less]

theorem descends_places : Descends key (places key) := by
  have once := List.nodup_finRange n
  have moved : (places key).Perm (List.finRange n) := List.mergeSort_perm ..
  refine ⟨moved,List.pairwise_iff_forall_sublist.mpr fun {i j} before => ?_⟩
  have different : i ≠ j := by simpa using (moved.nodup_iff.mpr once).sublist before
  obtain ⟨less,kept⟩ := (pair_sublist_mergeSort_iff (places_trans compared) places_total once different
    (List.mem_finRange i) (List.mem_finRange j)).mp before
  by_cases more : key j < key i
  · exact .inl more
  · refine .inr ⟨by simpa using less,?_⟩
    exact List.pairwise_iff_forall_sublist.mp (List.pairwise_lt_finRange n) (kept (by simpa using more))

end

theorem Descends.unique [Scalar.Ordered α] {key : Fin n → α} {one other : List (Fin n)}
    (descends : Descends key one) (also : Descends key other) : one = other := by
  refine List.Perm.eq_of_pairwise (fun i j _ _ before after => ?_) descends.sorted also.sorted
    (descends.perm.trans also.perm.symm)
  rcases before with more | ⟨level,first⟩
  · rcases after with less | ⟨level,_⟩
    · exact absurd less (Scalar.Ordered.asymm more)
    · exact absurd more level
  · rcases after with less | ⟨_,second⟩
    · exact absurd less level
    · exact absurd second first.asymm

/-! Scores. -/

theorem sort_map (scores : Fin n → Score α) (part : List (Fin n)) :
    sort (part.map scores) =
      (part.mergeSort fun i j => !decide ((scores i).score < (scores j).score)).map scores := by
  unfold sort
  rw [List.map_mergeSort]
  exact fun _ _ _ _ => rfl

def scoreAt (r : Ranking α) (facts : List Fact) (i : Fin facts.length) : Score α :=
  r.score (maxTotal r.metrics facts) (facts.get i)

theorem scoreAt_compares [Scalar.Ordered α] (r : Ranking α) (facts : List Fact) (i : Fin facts.length) :
    ∃ d, (r.scoreAt facts i).score < d ∨ d < (r.scoreAt facts i).score :=
  (Scalar.clamp_compares _).elim (fun below => ⟨_,.inl below⟩) fun above => ⟨_,.inr above⟩

theorem rank_part (r : Ranking α) (facts : List Fact) {part : List (Fin facts.length)}
    (top : maxTotal r.metrics (part.map facts.get) = maxTotal r.metrics facts) :
    r.rank (part.map facts.get) = sort (part.map (r.scoreAt facts)) := by
  rw [rank,top,List.map_map]
  rfl

theorem rank_eq_map (r : Ranking α) (facts : List Fact) :
    r.rank facts = (places fun i => (r.scoreAt facts i).score).map (r.scoreAt facts) := by
  have whole := List.map_get_finRange facts
  have ranked := r.rank_part facts (congrArg (maxTotal r.metrics) whole)
  rw [whole,sort_map] at ranked
  exact ranked

theorem descends_rank [Scalar.Ordered α] (r : Ranking α) (facts : List Fact) :
    Descends (fun i => (r.scoreAt facts i).score) (places fun i => (r.scoreAt facts i).score) :=
  descends_places (r.scoreAt_compares facts)

theorem filter_mem_of_sublist {β : Type} [DecidableEq β] {part whole : List β} (once : whole.Nodup)
    (sub : part.Sublist whole) : whole.filter (· ∈ part) = part := by
  have kept : part.filter (· ∈ part) = part := List.filter_eq_self.mpr (by simp)
  have fits := sub.filter (· ∈ part)
  rw [kept] at fits
  have few : (whole.filter (· ∈ part)).length ≤ part.length :=
    (List.subperm_of_subset (once.filter _) fun x member => by
      simpa using (List.mem_filter.mp member).2).length_le
  exact (fits.eq_of_length_le few).symm

theorem sort_part [Scalar.Ordered α] {scores : Fin n → Score α}
    (compared : ∀ i, ∃ d, (scores i).score < d ∨ d < (scores i).score) {part : List (Fin n)}
    (sub : part.Sublist (List.finRange n)) :
    sort (part.map scores) = ((places fun i => (scores i).score).filter (· ∈ part)).map scores := by
  rw [sort_map,places,← mergeSort_filter (places_trans compared) places_total,
    filter_mem_of_sublist (List.nodup_finRange n) sub]

end DepAudit.Ranking
