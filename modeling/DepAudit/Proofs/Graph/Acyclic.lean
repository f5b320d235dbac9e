import DepAudit.Proofs.Graph.Cycles
import DepAudit.Proofs.Graph.Depths

/-! The search for cycles and the resolution of depths agree on which graphs have no closed walk. They look
at different edges: only the search follows edges from ids without a node. -/
namespace DepAudit.Graph
open Relation

theorem not_joins_loop_of_cycles_eq_nil {g : Graph} (none : g.cycles = []) (place : String) :
    ¬TransGen g.Joins place place := by
  intro loop
  obtain ⟨_,step,_⟩ := TransGen.head'_iff.mp loop
  exact not_loop_of_cycles_eq_nil none (reached_of_mem step.1)
    (TransGen.mono (fun _ _ step => step.2.2) place place loop)

theorem all_resolve_of_cycles_eq_nil {g : Graph} (none : g.cycles = []) :
    ∀ id ∈ g.ids, id ∈ g.depths.keys := fun _ node =>
  mem_keys_depths.mpr ⟨node,acc_joins_iff.mpr fun place _ => not_joins_loop_of_cycles_eq_nil none place⟩

theorem cycles_eq_nil_of_all_resolve {g : Graph} (known : ∀ e ∈ g.edges, e.source ∈ g.ids)
    (all : ∀ id ∈ g.ids, id ∈ g.depths.keys) : g.cycles = [] := by
  refine cycles_eq_nil_iff.mpr fun id _ loop => ?_
  -- Every id of the closed walk starts an edge, so the walk stays among nodes.
  have node : id ∈ g.ids := by
    obtain ⟨_,⟨e,edge,rfl,_⟩,_⟩ := TransGen.head'_iff.mp loop
    exact known e edge
  exact not_loop_of_acc (mem_keys_depths.mp (all id node)).2 (joins_of_leads known loop node)

/-- A graph without cycles gives every node a depth, and where all edges start from nodes, as in the graph
of any targets, it is the other way round too. -/
theorem no_cycles_iff_all_resolve :
    (∀ g : Graph, g.cycles = [] → ∀ id ∈ g.ids, id ∈ g.depths.keys) ∧
    (∀ g : Graph, (∀ e ∈ g.edges, e.source ∈ g.ids) →
      (g.cycles = [] ↔ ∀ id ∈ g.ids, id ∈ g.depths.keys)) ∧
    ∀ (targets : List Target) (metadata : Table String String),
      (∀ e ∈ (ofTargets targets metadata).edges, e.source ∈ (ofTargets targets metadata).ids) ∧
      ((ofTargets targets metadata).cycles = [] ↔
        ∀ id ∈ (ofTargets targets metadata).ids, id ∈ (ofTargets targets metadata).depths.keys) := by
  have agree (g : Graph) (known : ∀ e ∈ g.edges, e.source ∈ g.ids) :
      g.cycles = [] ↔ ∀ id ∈ g.ids, id ∈ g.depths.keys :=
    ⟨all_resolve_of_cycles_eq_nil,cycles_eq_nil_of_all_resolve known⟩
  exact ⟨fun _ none => all_resolve_of_cycles_eq_nil none,agree,
    fun _ _ => ⟨source_mem_ids_ofTargets,agree _ source_mem_ids_ofTargets⟩⟩

-- Depths cannot see a cycle of ids without nodes.
example : strayCycle.cycles ≠ [] ∧ ∀ id ∈ strayCycle.ids, id ∈ strayCycle.depths.keys := by
  decide +kernel

def mutualPair : Graph := ofPairs ["a","b"] [("a","b"),("b","a"),("b","ghost")]

theorem ladder_and_pair_agree :
    ladder.cycles = [] ∧ (∀ id ∈ ladder.ids, id ∈ ladder.depths.keys) ∧
      (∀ e ∈ mutualPair.edges, e.source ∈ mutualPair.ids) ∧
      (mutualPair.cycles = [] ↔ ∀ id ∈ mutualPair.ids, id ∈ mutualPair.depths.keys) := by
  have none : ladder.cycles = [] := by decide +kernel
  have known : ∀ e ∈ mutualPair.edges, e.source ∈ mutualPair.ids := by decide
  obtain ⟨resolve,agree,_⟩ := no_cycles_iff_all_resolve
  exact ⟨none,resolve ladder none,known,agree mutualPair known⟩

end DepAudit.Graph
