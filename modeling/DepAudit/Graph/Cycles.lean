import DepAudit.Graph.Basic

/-! Cycles of a graph, found by a depth-first search from every node that was not reached before. A
cycle is reported for every edge that leads back onto the current path. -/
namespace DepAudit

/-- A depth-first search under way. The path and the targets still to be followed from each of its ids
have the innermost first; `visited` holds all ids seen so far, `found` the cycles in order. -/
structure CycleSearch where
  visited : List String
  path : List String
  pending : List (List String)
  found : List (List String)
  deriving DecidableEq, Repr

namespace CycleSearch

def start : CycleSearch := ⟨[],[],[],[]⟩

def enter (targets : String → List String) (s : CycleSearch) (id : String) : CycleSearch :=
  { s with visited := id :: s.visited, path := id :: s.path, pending := targets id :: s.pending }

def cycleFrom (path : List String) (id : String) : List String :=
  id :: (path.takeWhile (· ≠ id)).reverse

def follow (targets : String → List String) (s : CycleSearch) (target : String)
    (rest : List (List String)) : CycleSearch :=
  let s := { s with pending := rest }
  if target ∉ s.visited then s.enter targets target
  else if target ∈ s.path then { s with found := s.found ++ [cycleFrom s.path target] }
  else s

def step (targets : String → List String) (s : CycleSearch) : CycleSearch :=
  match s.pending with
  | [] => s
  | [] :: rest => { s with path := s.path.tail, pending := rest }
  | (target :: others) :: rest => s.follow targets target (others :: rest)

def run (targets : String → List String) : Nat → CycleSearch → CycleSearch
  | 0,s => s
  | n + 1,s => if s.pending.isEmpty then s else run targets n (s.step targets)

def visit (targets : String → List String) (steps : Nat) (s : CycleSearch) (id : String) :
    CycleSearch :=
  if id ∈ s.visited then s else run targets steps (s.enter targets id)

end CycleSearch

namespace Graph

/-- A search from one id follows each edge at most once and leaves each id at most once, and it enters
at most one id more than it follows edges. -/
def searchSteps (g : Graph) : Nat := 2 * g.edges.length + 1

def search (g : Graph) : CycleSearch :=
  g.ids.foldl (CycleSearch.visit g.targets g.searchSteps) .start

def cycles (g : Graph) : List (List String) := g.search.found

def hasCycles (g : Graph) : Bool := !g.cycles.isEmpty

end Graph

end DepAudit
