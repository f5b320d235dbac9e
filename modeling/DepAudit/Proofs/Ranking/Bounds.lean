import DepAudit.Proofs.Graph.Depths
import DepAudit.Proofs.Ranking.Arithmetic
import DepAudit.Proofs.Ranking.Places
import Mathlib.Algebra.Order.Floor.Semifield
import Mathlib.Data.Rat.Floor

/-! What every ranking keeps, with weights, coverages and numbers of imports of any size and sign: scores are
brought between bounds, depths are at most the greatest one, and nothing is divided by zero. -/
namespace DepAudit

theorem Scalar.clamp_mem_Icc {low high : ℚ} (order : low ≤ high) (x : ℚ) :
    clamp low high x ∈ Set.Icc low high := by
  rw [clamp_eq]
  exact ⟨le_max_left ..,max_le order (min_le_right ..)⟩

theorem Scalar.clamp_of_mem {low high x : ℚ} (inside : x ∈ Set.Icc low high) : clamp low high x = x := by
  rw [clamp_eq,min_eq_left inside.2,max_eq_right inside.1]

namespace Graph

variable {g : Graph}

theorem le_maxDepth {id : String} {depth : ℕ} (found : g.depths.get? id = some depth) :
    depth ≤ g.maxDepth :=
  (Waiting.foldl_max Prod.snd g.depths 0).1 _ (Table.mem_of_get? found)

theorem named?_eq_none_iff {name : String} : g.named? name = none ↔ ∀ n ∈ g.nodes, n.name ≠ name := by
  simp [named?]

theorem averageIncoming_checked (g : Graph) :
    (Scalar.ofQuotient (g.incomingCounts.map Prod.snd).sum (max g.incomingCounts.length 1) : Checked).value.map
      Nat.floor = some g.averageIncoming := by
  have positive : 0 < max g.incomingCounts.length 1 := Nat.one_pos.trans_le (Nat.le_max_right ..)
  have total : g.incomingCounts.foldl (fun n p => n + p.2) 0 = (g.incomingCounts.map Prod.snd).sum := by
    rw [List.sum_eq_foldl,List.foldl_map]
  rw [← Checked.keeps_of.quotient _ positive,Scalar.ofQuotient_eq,averageIncoming,total]
  exact congrArg some (Nat.floor_div_eq_div ..)

end Graph

/-- The score of a fact is in its bounds, and where no node has its name, no node speaks for it. -/
structure Score.WellFormed (g : Graph) (f : Fact) (s : Score ℚ) : Prop where
  name : s.name = f.name
  score : s.score ∈ Set.Icc 0 100
  frequency : s.breakdown.importFrequency ∈ Set.Icc 0 1
  depth : s.breakdown.transitiveDepth ∈ Set.Icc 0 1
  unknown : (∀ n ∈ g.nodes, n.name ≠ f.name) → s.breakdown.isDirect = false ∧
    s.breakdown.isBottleneck = false ∧ s.breakdown.transitiveDepth = 0

namespace Ranking

theorem frequency_mem_Icc (r : Ranking ℚ) (top : ℤ) (f : Fact) : r.frequency top f ∈ Set.Icc 0 1 := by
  unfold frequency
  rw [Scalar.zero_eq,Scalar.one_eq]
  split
  · exact Scalar.clamp_mem_Icc zero_le_one _
  · split <;> simp
  · simp

theorem depthScore_mem_Icc {depth : Option ℕ} {top : ℕ} (deepest : ∀ d ∈ depth, d ≤ top) :
    (depthScore depth top : ℚ) ∈ Set.Icc 0 1 := by
  cases depth with
  | none => simp [depthScore,Scalar.zero_eq]
  | some d =>
    unfold depthScore
    dsimp only
    split
    · have share : ((d : ℤ) : ℚ) / top ≤ 1 :=
        div_le_one_of_le₀ (by exact_mod_cast deepest d rfl) (Nat.cast_nonneg _)
      have nonneg : 0 ≤ ((d : ℤ) : ℚ) / top := by positivity
      rw [Scalar.one_eq,Scalar.ofQuotient_eq]
      exact ⟨sub_nonneg.mpr share,sub_le_self 1 nonneg⟩
    · simp [Scalar.zero_eq]

theorem score_eq (r : Ranking ℚ) (top : ℤ) (f : Fact) : r.score top f =
    ⟨f.name,Scalar.clamp 0 100 (100 * raw r.weights (r.breakdown top f)),r.breakdown top f⟩ := by
  unfold score
  dsimp only
  rw [Scalar.zero_eq,Scalar.ofInt_eq,mul_comm]
  rfl

theorem score_wellFormed (g : Graph) (bottlenecks : List String) (metrics : Table String (ImportMetrics ℚ))
    (weights : Weights ℚ) (top : ℤ) (f : Fact) :
    ((against g bottlenecks metrics weights).score top f).WellFormed g f where
  name := rfl
  score := by
    rw [score_eq]
    exact Scalar.clamp_mem_Icc (by norm_num) _
  frequency := frequency_mem_Icc ..
  depth := depthScore_mem_Icc fun d entry => by
    obtain ⟨id,_,found⟩ := Option.bind_eq_some_iff.mp entry
    exact Graph.le_maxDepth found
  unknown missing := by
    have none : g.named? f.name = none := Graph.named?_eq_none_iff.mpr missing
    rw [score_eq]
    simp [breakdown,against,none,depthScore,Scalar.zero_eq]

/-- Each fact has one score, in bounds, and the greatest is first; of equal scores, that of the fact that comes
first. In an arithmetic without quotients by zero the ranking is the same, with its bottlenecks and the
average that these are measured by. -/
theorem ranking_wellFormed (g : Graph) (metrics : Table String (ImportMetrics ℚ)) (weights : Weights ℚ)
    (factor : ℚ) (facts : List Fact) :
    let r := against g (g.bottlenecks factor) metrics weights
    (∃ order, Descends (fun i => (r.scoreAt facts i).score) order ∧
      r.rank facts = order.map (r.scoreAt facts)) ∧
    (∀ i, (r.scoreAt facts i).WellFormed g (facts.get i)) ∧
    (against g (g.bottlenecks (Checked.of factor)) (mapMetrics Checked.of metrics)
      (weights.map Checked.of)).rank facts =
      (r.rank facts).map (Score.map Checked.of) ∧
    (Scalar.ofQuotient (g.incomingCounts.map Prod.snd).sum (max g.incomingCounts.length 1) : Checked).value.map
      Nat.floor = some g.averageIncoming := by
  intro r
  refine ⟨?_,fun i => score_wellFormed ..,?_,g.averageIncoming_checked⟩
  · exact ⟨_,r.descends_rank facts,r.rank_eq_map facts⟩
  · rw [Checked.keeps_of.bottlenecks]
    exact rank_map Checked.keeps_of r facts

def tangled : Graph :=
  .ofPairs ["app","core","log","ring","loop"]
    [("app","core"),("core","log"),("app","log"),("ring","loop"),("loop","ring")]

def tangledFacts : List Fact :=
  [("log",none),("ghost",some 0),("ring",some 2),("app",none),("log",none),("core",none)].map fun p =>
    ⟨p.1,"1.0",none,.registry,[],p.2⟩

def unboundedMetrics : Table String (ImportMetrics ℚ) :=
  [("log",⟨"log",-3,1 / 4,[]⟩),("app",⟨"app",8,1 / 2,[]⟩)]

def unboundedWeights : Weights ℚ := ⟨1 / 2,3 / 4,-2,1 / 4,1,3⟩

def tangledRanking : Ranking ℚ :=
  against tangled (tangled.bottlenecks (1 : ℚ)) unboundedMetrics unboundedWeights

/-- Of the two scores of zero one was brought up to it. -/
theorem tangled_ranking_wellFormed :
    ((List.finRange tangledFacts.length).map fun i => (tangledRanking.scoreAt tangledFacts i).score) =
      [375 / 4,0,50,0,375 / 4,25 / 2] ∧
    (∃ order, Descends (fun i => (tangledRanking.scoreAt tangledFacts i).score) order ∧
      tangledRanking.rank tangledFacts = order.map (tangledRanking.scoreAt tangledFacts)) ∧
    (∃ i, (tangledFacts.get i).name = "ghost" ∧ (∀ n ∈ tangled.nodes, n.name ≠ "ghost") ∧
      (tangledRanking.scoreAt tangledFacts i).breakdown.isDirect = false ∧
      (tangledRanking.scoreAt tangledFacts i).breakdown.transitiveDepth = 0) ∧
    ∀ s ∈ (tangledRanking.map Checked.of).rank tangledFacts, ∃ x, s.score = Checked.of x := by
  obtain ⟨order,scores,checked,_⟩ :=
    ranking_wellFormed tangled unboundedMetrics unboundedWeights 1 tangledFacts
  have missing : ∀ n ∈ tangled.nodes, n.name ≠ "ghost" := by decide
  let ghost : Fin tangledFacts.length := ⟨1,by decide⟩
  obtain ⟨direct,_,depth⟩ := (scores ghost).unknown missing
  refine ⟨by decide +kernel,order,⟨ghost,rfl,missing,direct,depth⟩,fun s member => ?_⟩
  rw [Checked.keeps_of.bottlenecks] at checked
  obtain ⟨t,_,rfl⟩ := List.mem_map.mp (checked ▸ member)
  exact ⟨t.score,rfl⟩

end Ranking

end DepAudit
