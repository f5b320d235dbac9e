import DepAudit.Graph.Basic

/-! Depths of nodes: zero without dependents in the graph, else one more than the deepest of them. The
members of cycles, and what is only reached through one, have none. -/
namespace DepAudit

structure Waiting where
  id : String
  sources : List String
  deriving DecidableEq, Repr

namespace Waiting

def depth? (depths : Table String Nat) (w : Waiting) : Option Nat :=
  (w.sources.mapM depths.get?).map fun ds => ds.foldl (fun m d => max m (d + 1)) 0

def pass (depths : Table String Nat) : List Waiting → Table String Nat × List Waiting
  | [] => (depths,[])
  | w :: ws =>
    match w.depth? depths with
    | some d => pass (depths ++ [(w.id,d)]) ws
    | none =>
      let (depths,left) := pass depths ws
      (depths,w :: left)

def settle (depths : Table String Nat) (waiting : List Waiting) : Table String Nat :=
  let r := pass depths waiting
  if r.2.length < waiting.length then settle r.1 r.2 else r.1
termination_by waiting.length

end Waiting

namespace Graph

def knownSources (g : Graph) (id : String) : List String :=
  (g.sources id).filter (g.ids.contains ·)

def depths (g : Graph) : Table String Nat :=
  Waiting.settle [] (g.ids.map fun id => ⟨id,g.knownSources id⟩)

def maxDepth (g : Graph) : Nat := g.depths.foldl (fun m p => max m p.2) 0

end Graph

end DepAudit
