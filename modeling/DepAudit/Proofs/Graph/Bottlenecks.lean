import DepAudit.Proofs.Graph.Views
import Mathlib.Algebra.Order.Floor.Semiring
import Mathlib.Data.Rat.Floor

/-! How many bottlenecks a graph can have. The average number of incoming edges is rounded down, and a node has
to have more than a multiple of it. So each bottleneck takes a share of the edges that lead to nodes, and
where these are fewer than the nodes, any edge makes one. Factors are rational, as a whole factor is
multiplied by the average without rounding. -/
namespace DepAudit.Graph

def dependentCount (g : Graph) : Nat := g.edges.countP (g.ids.contains ·.target)

variable (g : Graph)

theorem values_incomingCounts :
    g.incomingCounts.map Prod.snd = g.ids.map fun id => (g.incoming id).length := by
  rw [incomingCounts_eq,List.map_map]
  rfl

theorem sum_incoming : (g.ids.map fun id => (g.incoming id).length).sum = g.dependentCount := by
  have distinct : g.ids.Nodup := g.nodup_ids
  have counted := sum_length_filter Edge.target distinct g.edges
  simpa only [dependentCount,incoming,List.contains_eq_mem] using counted

theorem sum_incomingCounts : (g.incomingCounts.map Prod.snd).sum = g.dependentCount := by
  rw [values_incomingCounts,sum_incoming]

theorem averageIncoming_eq : g.averageIncoming = g.dependentCount / g.nodes.length := by
  have total : g.incomingCounts.foldl (fun n p => n + p.2) 0 = g.dependentCount := by
    rw [← sum_incomingCounts,List.sum_eq_foldl,List.foldl_map]
  have size : g.incomingCounts.length = g.nodes.length := by
    rw [incomingCounts_eq,List.length_map,ids,List.length_map]
  rw [averageIncoming,total,size]
  rcases Nat.eq_zero_or_pos g.nodes.length with none | some
  · have empty : g.dependentCount = 0 := by
      rw [← sum_incoming,ids,List.length_eq_zero_iff.mp none]
      rfl
    rw [none,empty,Nat.zero_div,Nat.zero_div]
  · rw [Nat.max_eq_left some]

theorem bottlenecks_eq (factor : ℚ) : g.bottlenecks factor =
    g.ids.filter fun id => (g.averageIncoming : ℚ) * factor < (g.incoming id).length := by
  have whole (n : ℕ) : (Scalar.ofInt n : ℚ) = n := Rat.mkRat_one _
  rw [bottlenecks,incomingCounts_eq,List.filter_map,List.map_map]
  refine (List.map_id _).trans (List.filter_congr fun id _ => decide_eq_decide.mpr ?_)
  rw [whole,whole]

/-- Counts are whole numbers, so that they pass a bound when they pass its whole part. -/
theorem bottlenecks_eq_floor {factor : ℚ} (positive : 0 ≤ factor) : g.bottlenecks factor =
    g.ids.filter fun id => ⌊(g.averageIncoming : ℚ) * factor⌋₊ < (g.incoming id).length := by
  rw [bottlenecks_eq]
  refine List.filter_congr fun id _ => decide_eq_decide.mpr ?_
  exact (Nat.floor_lt (mul_nonneg (Nat.cast_nonneg _) positive)).symm

theorem length_bottlenecks_mul_le {factor : ℚ} (positive : 0 ≤ factor) :
    (g.bottlenecks factor).length * (⌊(g.averageIncoming : ℚ) * factor⌋₊ + 1) ≤ g.dependentCount := by
  rw [bottlenecks_eq_floor g positive,← sum_incoming]
  exact length_filter_mul_le_sum (fun id => (g.incoming id).length) _ g.ids

/-- If all nodes had more than the average, they had more edges than there are. -/
theorem exists_not_mem_bottlenecks (nonempty : g.nodes ≠ []) {factor : ℚ} (least : 1 ≤ factor) :
    ∃ id ∈ g.ids, id ∉ g.bottlenecks factor := by
  by_contra none
  push Not at none
  have all : g.bottlenecks factor = g.ids := by
    rw [bottlenecks_eq] at none ⊢
    exact List.filter_eq_self.mpr fun id node => (List.mem_filter.mp (none id node)).2
  have bound := g.length_bottlenecks_mul_le (zero_le_one.trans least)
  have above : g.averageIncoming ≤ ⌊(g.averageIncoming : ℚ) * factor⌋₊ :=
    Nat.le_floor (le_mul_of_one_le_right (Nat.cast_nonneg _) least)
  rw [all,ids,List.length_map] at bound
  have size : 0 < g.nodes.length := List.length_pos_iff.mpr nonempty
  have fewer : g.dependentCount < g.nodes.length * (g.averageIncoming + 1) := by
    rw [averageIncoming_eq]
    exact Nat.lt_mul_div_succ _ size
  have grows := Nat.mul_le_mul_left g.nodes.length (Nat.add_le_add_right above 1)
  omega

theorem bottlenecks_sublist {factor greater : ℚ} (order : factor ≤ greater) :
    (g.bottlenecks greater).Sublist (g.bottlenecks factor) := by
  rw [bottlenecks_eq,bottlenecks_eq]
  refine List.monotone_filter_right _ fun id passed => ?_
  have average : (0 : ℚ) ≤ g.averageIncoming := Nat.cast_nonneg _
  have more := mul_le_mul_of_nonneg_left order average
  exact decide_eq_true (more.trans_lt (of_decide_eq_true passed))

theorem bottlenecks_of_few (few : g.dependentCount < g.nodes.length) (factor : ℚ) :
    g.bottlenecks factor = g.ids.filter fun id => g.incoming id ≠ [] := by
  have average : g.averageIncoming = 0 := by
    rw [averageIncoming_eq,Nat.div_eq_of_lt few]
  rw [bottlenecks_eq,average]
  refine List.filter_congr fun id _ => decide_eq_decide.mpr ?_
  rw [Nat.cast_zero,zero_mul,Nat.cast_pos,List.length_pos_iff]

/-- The counts of incoming edges add up to the edges that lead to nodes, and each bottleneck takes more of
them than the whole part of the factor times the average. So from factor one on some node is no
bottleneck; a greater factor leaves some of the bottlenecks; and where fewer edges than nodes lead to
nodes, the bottlenecks are the nodes with incoming edges, whatever the factor. -/
theorem bottlenecks_bounded_by_edges (g : Graph) (nonempty : g.nodes ≠ []) :
    (g.incomingCounts.map Prod.snd).sum = g.dependentCount ∧
    (∀ factor : ℚ, 0 ≤ factor → (g.bottlenecks factor).length *
      (⌊((g.dependentCount / g.nodes.length : ℕ) : ℚ) * factor⌋₊ + 1) ≤ g.dependentCount) ∧
    (∀ factor : ℚ, 1 ≤ factor → ∃ id ∈ g.ids, id ∉ g.bottlenecks factor) ∧
    (∀ factor greater : ℚ, 0 ≤ factor → factor ≤ greater →
      (g.bottlenecks greater).Sublist (g.bottlenecks factor)) ∧
    (g.dependentCount < g.nodes.length →
      ∀ factor : ℚ, g.bottlenecks factor = g.ids.filter fun id => g.incoming id ≠ []) := by
  refine ⟨g.sum_incomingCounts,fun factor positive => ?_,
    fun factor least => g.exists_not_mem_bottlenecks nonempty least,
    fun factor greater _ order => g.bottlenecks_sublist order,g.bottlenecks_of_few⟩
  rw [← averageIncoming_eq]
  exact g.length_bottlenecks_mul_le positive

def shared : Graph :=
  ofPairs ["x","y","z"] [("z","x"),("z","y"),("y","x"),("z","x"),("z","y"),("x","y"),("z","lost")]

def spokes : Graph :=
  ofPairs ["a","hub","b","c"] [("a","hub"),("b","hub"),("c","lost"),("ghost","c")]

theorem shared_and_spokes_are_bounded :
    shared.nodes ≠ [] ∧ (0 : ℚ) ≤ 5 / 4 ∧ (1 : ℚ) ≤ 5 / 4 ∧ (5 / 4 : ℚ) ≤ 2 ∧
    shared.bottlenecks (5 / 4 : ℚ) = ["x","y"] ∧ shared.dependentCount = 6 ∧
    (shared.bottlenecks (5 / 4 : ℚ)).length *
      (⌊((shared.dependentCount / shared.nodes.length : ℕ) : ℚ) * (5 / 4)⌋₊ + 1) ≤
        shared.dependentCount ∧
    (∃ id ∈ shared.ids, id ∉ shared.bottlenecks (5 / 4 : ℚ)) ∧
    (shared.bottlenecks (2 : ℚ)).Sublist (shared.bottlenecks (5 / 4 : ℚ)) ∧
    spokes.nodes ≠ [] ∧ spokes.dependentCount < spokes.nodes.length ∧
    spokes.bottlenecks (2 : ℚ) = spokes.ids.filter fun id => spokes.incoming id ≠ [] := by
  have some : shared.nodes ≠ [] := by decide
  have also : spokes.nodes ≠ [] := by decide
  have positive : (0 : ℚ) ≤ 5 / 4 := by decide +kernel
  have least : (1 : ℚ) ≤ 5 / 4 := by decide +kernel
  have order : (5 / 4 : ℚ) ≤ 2 := by decide +kernel
  have few : spokes.dependentCount < spokes.nodes.length := by decide
  obtain ⟨_,bound,other,fewer,_⟩ := bottlenecks_bounded_by_edges shared some
  obtain ⟨_,_,_,_,receivers⟩ := bottlenecks_bounded_by_edges spokes also
  exact ⟨some,positive,least,order,by decide +kernel,by decide,bound _ positive,other _ least,
    fewer _ _ positive order,also,few,receivers few 2⟩

end DepAudit.Graph
