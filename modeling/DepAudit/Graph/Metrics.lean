import DepAudit.Graph.Cycles
import DepAudit.Graph.Depths
import DepAudit.Value

/-! Summary figures of a graph: density, average number of dependencies, bottlenecks and complexity. -/
namespace DepAudit

inductive Complexity where
  | low
  | medium
  | high
  | extreme
  deriving DecidableEq, Repr

def Complexity.word : Complexity → String
  | low => "low"
  | medium => "medium"
  | high => "high"
  | extreme => "extreme"

structure ComplexityLimits where
  mediumNodes : Value := .int 20
  mediumDepth : Value := .int 4
  highNodes : Value := .int 50
  highDepth : Value := .int 6
  extremeNodes : Value := .int 100
  extremeDepth : Value := .int 8

namespace Complexity

def exceeds (n : Int) (limit : Value) : Except SettingError Bool :=
  limit.number.map (·.isBelow n)

def isOver (nodes depth : Int) (nodeLimit depthLimit : Value) : Except SettingError Bool := do
  if ← exceeds nodes nodeLimit then return true
  else exceeds depth depthLimit

def level (limits : ComplexityLimits) (nodes depth : Int) : Except SettingError Complexity := do
  if ← isOver nodes depth limits.extremeNodes limits.extremeDepth then return extreme
  else if ← isOver nodes depth limits.highNodes limits.highDepth then return high
  else if ← isOver nodes depth limits.mediumNodes limits.mediumDepth then return medium
  else return low

end Complexity

namespace Graph

def averageIncoming (g : Graph) : Nat :=
  g.incomingCounts.foldl (fun n p => n + p.2) 0 / max g.incomingCounts.length 1

def bottlenecks {α : Type} [Scalar α] (g : Graph) (factor : α) : List String :=
  let bound : α := Scalar.ofInt g.averageIncoming * factor
  (g.incomingCounts.filter fun p => bound < Scalar.ofInt p.2).map Prod.fst

def bottlenecksFor (g : Graph) (factor : Value) : Except SettingError (List String) :=
  if g.nodes.isEmpty then .ok []
  else match factor.number? with
    | some (.int n) => .ok (g.bottlenecks (n : Rat))
    | some (.float x) => .ok (g.bottlenecks x)
    | none => .error .wrongType

def density {α : Type} [Scalar α] (g : Graph) : α :=
  Scalar.share g.edges.length (g.nodes.length * (g.nodes.length - 1))

def dependencyCount (g : Graph) : Nat := g.edges.countP (g.ids.contains ·.source)

def averageDependencies {α : Type} [Scalar α] (g : Graph) : α :=
  Scalar.share g.dependencyCount g.nodes.length

end Graph

structure Metrics where
  totalNodes : Nat
  totalEdges : Nat
  maxDepth : Nat
  cycles : Nat
  density : Float
  averageDependencies : Float
  complexity : Complexity
  bottlenecks : List String
  leaves : List String
  roots : List String

namespace Metrics

/-- The figures of a graph. The complexity is found before the bottlenecks, which matters when both
settings are unfit. -/
def compute (g : Graph) (factor : Value) (limits : Except SettingError ComplexityLimits) :
    Except SettingError Metrics := do
  let maxDepth := g.maxDepth
  let complexity ← Complexity.level (← limits) g.nodes.length maxDepth
  let bottlenecks ← g.bottlenecksFor factor
  return {
    totalNodes := g.nodes.length
    totalEdges := g.edges.length
    maxDepth
    cycles := g.cycles.length
    density := g.density
    averageDependencies := g.averageDependencies
    complexity
    bottlenecks
    leaves := g.leaves
    roots := g.roots }

def toJson (m : Metrics) : Json :=
  .obj [("total_nodes",.int m.totalNodes),("total_edges",.int m.totalEdges),
    ("max_depth",.int m.maxDepth),("cycles",.int m.cycles),("density",.float m.density),
    ("average_dependencies",.float m.averageDependencies),
    ("complexity",.str m.complexity.word),("bottleneck_nodes",Json.strings m.bottlenecks),
    ("leaf_nodes",Json.strings m.leaves),("root_nodes",Json.strings m.roots)]

end Metrics

end DepAudit
