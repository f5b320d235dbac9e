import DepAudit.Proofs.Graph.Bottlenecks
import DepAudit.Proofs.Graph.Roots
import DepAudit.Proofs.Ranking.Bounds

/-! Pinned dependencies ranked against their own graph. It has a node for each name and no edges, so all nodes are
roots and nothing but imports tells the dependencies apart. -/
namespace DepAudit

namespace Graph

section

variable {g : Graph} (edgeless : g.edges = [])
include edgeless

theorem incoming_of_edgeless (id : String) : g.incoming id = [] := by
  rw [incoming,edgeless,List.filter_nil]

theorem roots_of_edgeless : g.roots = g.ids := by
  refine List.filter_eq_self.mpr fun id _ => ?_
  rw [edgeless]
  rfl

theorem bottlenecks_of_edgeless (factor : ℚ) : g.bottlenecks factor = [] := by
  have unused : g.dependentCount = 0 := by
    rw [dependentCount,edgeless,List.countP_nil]
  rw [bottlenecks_eq,averageIncoming_eq,unused]
  simp [incoming_of_edgeless edgeless]

theorem maxDepth_of_edgeless : g.maxDepth = 0 := by
  by_cases unresolved : g.depths = []
  · rw [maxDepth,unresolved]
    rfl
  · obtain ⟨id,deepest⟩ := exists_deepest unresolved
    have node := (mem_keys_depths.mp (Table.mem_keys_iff.mpr ⟨_,deepest⟩)).1
    have top : g.depths.get? id = some 0 :=
      depth_zero_iff.mpr ⟨node,fun u step => by simpa [Leads,edgeless] using step.2.2⟩
    exact Option.some.inj (deepest.symm.trans top)

end

/-- Each name of a fact is that of a node, also where several facts share it. -/
theorem exists_named_ofFacts {facts : List Fact} {f : Fact} (member : f ∈ facts)
    (metadata : Table String String) : ∃ n, (ofFacts facts metadata).named? f.name = some n := by
  have inside : f.name ∈ (ofFacts facts metadata).ids :=
    mem_ids_build.mpr (List.mem_map.mpr ⟨f.node,List.mem_map_of_mem member,rfl⟩)
  obtain ⟨n,found⟩ := Option.ne_none_iff_exists'.mp (mt node?_eq_none_iff.mp (not_not.mpr inside))
  obtain ⟨node,same⟩ := node?_eq_some found
  have given : n ∈ (facts.map Fact.node).reverse :=
    List.mem_of_find?_eq_some ((Node.find?_distinct (facts.map Fact.node) f.name).symm.trans found)
  obtain ⟨h,_,rfl⟩ := List.mem_map.mp (List.mem_reverse.mp given)
  exact Option.ne_none_iff_exists'.mp fun none => named?_eq_none_iff.mp none _ node same

end Graph

namespace Ranking

variable {g : Graph} {metrics : Table String (ImportMetrics ℚ)} {weights : Weights ℚ} {factor : ℚ}
  {facts : List Fact} {f : Fact} {top : ℤ}

theorem breakdown_of_edgeless (edgeless : g.edges = []) {n : Node} (named : g.named? f.name = some n) :
    (against g (g.bottlenecks factor) metrics weights).breakdown top f =
      ⟨(against g (g.bottlenecks factor) metrics weights).frequency top f,false,true,0⟩ := by
  have root : n.id ∈ g.roots := by
    rw [Graph.roots_of_edgeless edgeless]
    exact List.mem_map_of_mem (List.mem_of_find?_eq_some named)
  have shallow (depth : Option ℕ) : (depthScore depth 0 : ℚ) = 0 := by
    cases depth <;> exact Scalar.zero_eq
  unfold breakdown against
  simp [named,root,shallow,Graph.bottlenecks_of_edgeless edgeless,Graph.maxDepth_of_edgeless edgeless]

theorem raw_direct (frequency : ℚ) :
    raw weights ⟨frequency,false,true,0⟩ = weights.direct + weights.importFrequency * frequency := by
  unfold raw signal
  rw [if_neg Bool.false_ne_true,if_pos rfl,Scalar.zero_eq,Scalar.one_eq]
  ring

theorem score_of_edgeless (positive : 0 ≤ weights.importFrequency) (direct : 0 ≤ weights.direct)
    (within : weights.importFrequency + weights.direct ≤ 1) (edgeless : g.edges = []) {n : Node}
    (named : g.named? f.name = some n) :
    let frequency := (against g (g.bottlenecks factor) metrics weights).frequency top f
    (against g (g.bottlenecks factor) metrics weights).score top f =
      ⟨f.name,100 * (weights.direct + weights.importFrequency * frequency),⟨frequency,false,true,0⟩⟩ := by
  intro frequency
  obtain ⟨least,most⟩ := frequency_mem_Icc (against g (g.bottlenecks factor) metrics weights) top f
  have low : 0 ≤ weights.direct + weights.importFrequency * frequency :=
    add_nonneg direct (mul_nonneg positive least)
  have high : weights.direct + weights.importFrequency * frequency ≤ 1 :=
    calc weights.direct + weights.importFrequency * frequency
        ≤ weights.direct + weights.importFrequency * 1 := by gcongr
      _ = weights.importFrequency + weights.direct := by ring
      _ ≤ 1 := within
  -- The two weights make up no more than the whole, so that the bounds leave the score as it is.
  have inside : 100 * raw weights ⟨frequency,false,true,0⟩ ∈ Set.Icc 0 100 := by
    rw [raw_direct]
    exact ⟨by linarith,by linarith⟩
  rw [score_eq,breakdown_of_edgeless edgeless named,← raw_direct]
  exact congrArg (Score.mk _ · _) (Scalar.clamp_of_mem inside)

/-- Against their own graph dependencies are direct and no bottlenecks, at depth zero; where the weights of the two
remaining signals make up no more than the whole, nothing is cut off their scores, which differ as the
frequencies of imports do. -/
theorem pinned_scores_vary_by_frequency (facts : List Fact) (metadata : Table String String)
    (metrics : Table String (ImportMetrics ℚ)) (factor : ℚ) {weights : Weights ℚ}
    (positive : 0 < weights.importFrequency) (direct : 0 ≤ weights.direct)
    (within : weights.importFrequency + weights.direct ≤ 1) :
    let g := Graph.ofFacts facts metadata
    let r := against g (g.bottlenecks factor) metrics weights
    let frequency (i : Fin facts.length) := r.frequency (maxTotal metrics facts) (facts.get i)
    ∃ order, Descends frequency order ∧ r.rank facts = order.map fun i =>
      ⟨(facts.get i).name,100 * (weights.direct + weights.importFrequency * frequency i),
        ⟨frequency i,false,true,0⟩⟩ := by
  intro g r frequency
  have each (i : Fin facts.length) : r.scoreAt facts i = ⟨(facts.get i).name,
      100 * (weights.direct + weights.importFrequency * frequency i),⟨frequency i,false,true,0⟩⟩ := by
    obtain ⟨n,named⟩ := Graph.exists_named_ofFacts (facts.get_mem i) metadata
    exact score_of_edgeless positive.le direct within rfl named
  have compared (i j : Fin facts.length) :
      (r.scoreAt facts i).score < (r.scoreAt facts j).score ↔ frequency i < frequency j := by
    rw [each,each]
    dsimp only
    rw [mul_lt_mul_iff_right₀ (by norm_num),add_lt_add_iff_left,mul_lt_mul_iff_right₀ positive]
  exact ⟨_,(r.descends_rank facts).congr compared,
    (r.rank_eq_map facts).trans (List.map_congr_left fun i _ => each i)⟩

def levelPins : List Fact :=
  ["idle","util","core","ghost"].map fun name => ⟨name,"1.0",none,.registry,[],none⟩

def levelMetrics : Table String (ImportMetrics ℚ) :=
  [("core",⟨"core",4,1 / 2,[]⟩),("util",⟨"util",4,1 / 2,[]⟩),("idle",⟨"idle",0,0,[]⟩)]

def levelWeights : Weights ℚ := ⟨2 / 5,3 / 10,1 / 5,1 / 10,7 / 10,3 / 10⟩

def levelOrder : List (Fin levelPins.length) :=
  [⟨1,by decide⟩,⟨2,by decide⟩,⟨0,by decide⟩,⟨3,by decide⟩]

theorem level_pins_keep_order :
    0 < levelWeights.importFrequency ∧ 0 ≤ levelWeights.direct ∧
    levelWeights.importFrequency + levelWeights.direct ≤ 1 ∧
    ((against (.ofFacts levelPins []) (Graph.bottlenecks (.ofFacts levelPins []) (2 : ℚ)) levelMetrics
      levelWeights).rank levelPins).map (fun s => (s.name,s.score,s.breakdown.isDirect)) =
      [("util",54,true),("core",54,true),("idle",20,true),("ghost",20,true)] := by
  have positive : 0 < levelWeights.importFrequency := by decide +kernel
  have direct : 0 ≤ levelWeights.direct := by decide +kernel
  have within : levelWeights.importFrequency + levelWeights.direct ≤ 1 := by decide +kernel
  obtain ⟨order,descends,listed⟩ :=
    pinned_scores_vary_by_frequency levelPins [] levelMetrics 2 positive direct within
  obtain rfl : order = levelOrder := descends.unique ⟨by decide,by decide +kernel⟩
  exact ⟨positive,direct,within,(congrArg (List.map _) listed).trans (by decide +kernel)⟩

end Ranking

end DepAudit
