import DepAudit.Proofs.Graph.Completion

/-! The reported cycles are cycles, and an edge of every reached closed walk closes one of them. Not every
simple cycle is reported: a closed walk may share its closing edge with another. -/
namespace DepAudit.Graph
open Relation CycleSearch

theorem hasCycles_eq_false_iff {g : Graph} : g.hasCycles = false ↔ g.cycles = [] := by
  simp [hasCycles]

theorem not_loop_of_cycles_eq_nil {g : Graph} (none : g.cycles = []) {id : String}
    (reached : g.Reached id) : ¬TransGen g.Leads id id := by
  intro loop
  have onward : TransGen (fun u v => Onward g.targets g.cycles v u) id id :=
    TransGen.mono (fun u v step => ⟨mem_targets.mpr step,by simp [Closes,none]⟩) id id loop
  exact not_loop_of_acc (acc_onward_of_reached reached) (transGen_swap.mp onward)

theorem cycles_eq_nil_iff {g : Graph} :
    g.cycles = [] ↔ ∀ id, g.Reached id → ¬TransGen g.Leads id id := by
  constructor
  · exact fun none id reached => not_loop_of_cycles_eq_nil none reached
  · intro acyclic
    by_contra cyclic
    obtain ⟨cycle,found⟩ := List.exists_mem_of_ne_nil _ cyclic
    obtain ⟨simple,reached⟩ := simple_of_mem_cycles found
    obtain ⟨first,member,closed⟩ := simple.closedWalk
    exact acyclic first (reached first member) (closed.returns (by simp))

theorem Reached.congr {g h : Graph} (ids : ∀ id, id ∈ g.ids ↔ id ∈ h.ids)
    (leads : g.Leads = h.Leads) (id : String) : g.Reached id ↔ h.Reached id := by
  simp only [Reached,ids,leads]

theorem hasCycles_congr {g h : Graph} (ids : ∀ id, id ∈ g.ids ↔ id ∈ h.ids)
    (leads : g.Leads = h.Leads) : g.hasCycles = h.hasCycles := by
  have agree : g.cycles = [] ↔ h.cycles = [] := by
    simp only [cycles_eq_nil_iff,Reached.congr ids leads,leads]
  rw [Bool.eq_iff_iff,← not_iff_not,Bool.not_eq_true,Bool.not_eq_true,hasCycles_eq_false_iff,
    hasCycles_eq_false_iff]
  exact agree

theorem exists_closing_edge {g : Graph} {walk : List String} (closed : ClosedWalk g.Leads walk)
    (reached : ∀ start ∈ walk.head?, g.Reached start) :
    ∃ u v, [u,v] <:+: walk ∧ Closes g.cycles u v := by
  by_contra none
  push Not at none
  -- Each id of the walk was left before the one in front of it, and yet the walk returns.
  have onward : ClosedWalk (fun u v => Onward g.targets g.cycles v u) walk := by
    refine ⟨?_,closed.size,closed.closed⟩
    rw [List.isChain_iff_forall_rel_of_append_cons_cons]
    intro u v front back split
    have step := List.isChain_iff_forall_rel_of_append_cons_cons.mp closed.linked split
    exact ⟨mem_targets.mpr step,none u v ⟨front,back,by simp [split]⟩⟩
  obtain ⟨start,rest,rfl⟩ := List.exists_cons_of_length_pos (Nat.lt_of_lt_of_le Nat.two_pos closed.size)
  have loop := onward.returns (List.mem_cons_self ..)
  exact not_loop_of_acc (acc_onward_of_reached (reached start rfl)) (transGen_swap.mp loop)

/-- On every closed walk that edges lead to from a node, some edge closes a reported cycle: one that ends
where the edge starts and starts where the edge ends. So cycles are reported unless no reached id lies
on a closed walk, in whatever order nodes and edges are listed. -/
theorem closing_edges_hit_closed_walks :
    (∀ (g : Graph) (walk : List String), ClosedWalk g.Leads walk →
      (∀ start ∈ walk.head?, g.Reached start) →
      ∃ cycle ∈ g.cycles, ∃ u v, [u,v] <:+: walk ∧ cycle.getLast? = some u ∧ cycle.head? = some v) ∧
    (∀ g : Graph, g.hasCycles = false ↔
      ∀ id, g.Reached id → ∀ walk, ClosedWalk g.Leads walk → id ∉ walk) ∧
    ∀ (nodes others : List Node) (edges moved : List Edge) (metadata also : Table String String),
      nodes.Perm others → edges.Perm moved →
      (build nodes edges metadata).hasCycles = (build others moved also).hasCycles := by
  refine ⟨?_,?_,?_⟩
  · intro g walk closed reached
    obtain ⟨u,v,inside,cycle,found,last,first⟩ := exists_closing_edge closed reached
    exact ⟨cycle,found,u,v,inside,last,first⟩
  · intro g
    rw [hasCycles_eq_false_iff,cycles_eq_nil_iff]
    constructor
    · exact fun acyclic id reached walk closed member => acyclic id reached (closed.returns member)
    · intro acyclic id reached loop
      obtain ⟨walk,closed,member⟩ := exists_closedWalk loop
      exact acyclic id reached walk closed member
  · intro nodes others edges moved metadata also samenodes sameedges
    exact hasCycles_congr (ids_build_of_perm samenodes edges moved metadata also)
      (leads_build_of_perm sameedges nodes others metadata also)

def strayCycle : Graph := ofPairs ["app"] [("app","ghost"),("ghost","lost"),("lost","ghost")]

theorem stray_cycle_is_hit :
    ClosedWalk strayCycle.Leads ["lost","ghost","lost"] ∧ strayCycle.Reached "lost" ∧
    ∃ cycle ∈ strayCycle.cycles, ∃ u v, [u,v] <:+: ["lost","ghost","lost"] ∧
      cycle.getLast? = some u ∧ cycle.head? = some v := by
  have enter : strayCycle.Leads "app" "ghost" := leads_ofPairs.mpr (by decide)
  have there : strayCycle.Leads "ghost" "lost" := leads_ofPairs.mpr (by decide)
  have back : strayCycle.Leads "lost" "ghost" := leads_ofPairs.mpr (by decide)
  have closed : ClosedWalk strayCycle.Leads ["lost","ghost","lost"] :=
    ⟨.cons_cons back (.cons_cons there (.singleton _)),by decide,rfl⟩
  have node : "app" ∈ strayCycle.ids := mem_ids_ofPairs.mpr (by decide)
  have reached : strayCycle.Reached "lost" := ((reached_of_mem node).tail enter).tail there
  refine ⟨closed,reached,closing_edges_hit_closed_walks.1 strayCycle _ closed ?_⟩
  intro start first
  cases Option.some.inj first
  exact reached

/-- Every reported cycle is a simple one, and edges lead to its ids from some node. -/
theorem reported_cycles_are_simple (g : Graph) (cycle : List String) (found : cycle ∈ g.cycles) :
    cycle ≠ [] ∧ cycle.Nodup ∧ cycle.IsChain g.Leads ∧
      (∀ last ∈ cycle.getLast?, ∀ first ∈ cycle.head?, g.Leads last first) ∧
      ∀ id ∈ cycle, g.Reached id := by
  obtain ⟨simple,reached⟩ := simple_of_mem_cycles found
  exact ⟨simple.nonempty,simple.distinct,simple.linked,simple.closing,reached⟩

theorem stray_cycle_is_simple :
    ["ghost","lost"] ∈ strayCycle.cycles ∧ ["ghost","lost"] ≠ [] ∧ ["ghost","lost"].Nodup ∧
      ["ghost","lost"].IsChain strayCycle.Leads ∧
      (∀ last ∈ ["ghost","lost"].getLast?, ∀ first ∈ ["ghost","lost"].head?,
        strayCycle.Leads last first) ∧
      ∀ id ∈ ["ghost","lost"], strayCycle.Reached id := by
  have found : ["ghost","lost"] ∈ strayCycle.cycles := by decide +kernel
  exact ⟨found,reported_cycles_are_simple strayCycle _ found⟩

end DepAudit.Graph
