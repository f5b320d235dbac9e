import DepAudit.Decimal
import DepAudit.Graph.Metrics
import DepAudit.Imports.Scan

/-! Ranking dependencies by relevance: how much a dependency is imported, whether many others depend on
it, whether it is a root of the graph, and how close to a root it is. -/
namespace DepAudit

structure Weights (α : Type) where
  importFrequency : α
  bottleneck : α
  direct : α
  depth : α
  importCount : α
  coverage : α

structure Breakdown (α : Type) where
  importFrequency : α
  isBottleneck : Bool
  isDirect : Bool
  transitiveDepth : α

structure Score (α : Type) where
  name : String
  score : α
  breakdown : Breakdown α

namespace Score

def toJson (s : Score Float) : Json :=
  .obj [("name",.str s.name),("score",.float (Decimal.roundTo 2 s.score)),
    ("breakdown",.obj [("import_frequency",.float s.breakdown.importFrequency),
      ("is_bottleneck",.bool s.breakdown.isBottleneck),
      ("is_direct",.bool s.breakdown.isDirect),
      ("transitive_depth",.float s.breakdown.transitiveDepth)])]

end Score

/-- What dependencies are ranked against: a graph, with what is asked of it for every dependency, the
metrics of their imports, and the weights. -/
structure Ranking (α : Type) where
  graph : Graph
  depths : Table String Nat
  maxDepth : Nat
  roots : List String
  bottlenecks : List String
  metrics : Table String (ImportMetrics α)
  weights : Weights α

namespace Ranking

variable {α : Type} [Scalar α]

def against (g : Graph) (bottlenecks : List String) (metrics : Table String (ImportMetrics α))
    (weights : Weights α) : Ranking α :=
  ⟨g,g.depths,g.maxDepth,g.roots,bottlenecks,metrics,weights⟩

def totals (metrics : Table String (ImportMetrics α)) (facts : List Fact) : List (Option Int) :=
  facts.map fun f => (metrics.get? f.name).map ImportMetrics.total

def maxTotal (metrics : Table String (ImportMetrics α)) (facts : List Fact) : Int :=
  match (totals metrics facts).filterMap id with
  | [] => 0
  | t :: ts => ts.foldl max t

def importShare (total maxTotal : Int) : α :=
  if 0 < maxTotal then Scalar.ofQuotient total maxTotal.toNat else Scalar.zero

def frequency (r : Ranking α) (maxTotal : Int) (f : Fact) : α :=
  match r.metrics.get? f.name,f.importCount with
  | some m,_ =>
    Scalar.clamp Scalar.zero Scalar.one
      (importShare m.total maxTotal * r.weights.importCount + m.coverage * r.weights.coverage)
  | none,some n => if 0 < n then Scalar.one else Scalar.zero
  | none,none => Scalar.zero

def signal (given : Bool) : α := if given then Scalar.one else Scalar.zero

def depthScore (depth : Option Nat) (maxDepth : Nat) : α :=
  match depth with
  | some d =>
    if 0 < maxDepth then Scalar.one - Scalar.ofQuotient d maxDepth else Scalar.zero
  | none => Scalar.zero

def breakdown (r : Ranking α) (maxTotal : Int) (f : Fact) : Breakdown α :=
  let id := (r.graph.named? f.name).map Node.id
  { importFrequency := r.frequency maxTotal f
    isBottleneck := id.any r.bottlenecks.contains
    isDirect := id.any r.roots.contains
    transitiveDepth := depthScore (id.bind r.depths.get?) r.maxDepth }

def raw (w : Weights α) (b : Breakdown α) : α :=
  b.importFrequency * w.importFrequency + signal b.isBottleneck * w.bottleneck +
    signal b.isDirect * w.direct + b.transitiveDepth * w.depth

def score (r : Ranking α) (maxTotal : Int) (f : Fact) : Score α :=
  let b := r.breakdown maxTotal f
  let hundred : α := Scalar.ofInt 100
  ⟨f.name,Scalar.clamp Scalar.zero hundred (raw r.weights b * hundred),b⟩

def sort (scores : List (Score α)) : List (Score α) :=
  scores.mergeSort fun a b => !decide (a.score < b.score)

/-- The scores of the facts, highest first. No fact's score depends on the others but through the
greatest number of imports. -/
def rank (r : Ranking α) (facts : List Fact) : List (Score α) :=
  let top := maxTotal r.metrics facts
  sort (facts.map (r.score top))

end Ranking

end DepAudit
