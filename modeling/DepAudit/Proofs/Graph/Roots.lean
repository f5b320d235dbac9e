import DepAudit.Proofs.Graph.Acyclic
import DepAudit.Proofs.Graph.Layers
import DepAudit.Proofs.Graph.Views

/-! Where the edges of a graph join its nodes, the roots are the nodes of depth zero. Without cycles every node
comes after a root, since depths go down to zero, and before a leaf, since walks along edges end. -/
namespace DepAudit.Graph
open Relation

variable {g : Graph}

theorem depth_zero_iff {id : String} :
    g.depths.get? id = some 0 ↔ id ∈ g.ids ∧ ∀ u, ¬g.Joins u id := by
  constructor
  · intro top
    have key : id ∈ g.depths.keys := Table.mem_keys_iff.mpr ⟨0,top⟩
    refine ⟨(mem_keys_depths.mp key).1,fun u step => ?_⟩
    obtain ⟨_,_,k,d,_,found,less⟩ := resolved_before step key
    obtain rfl := Option.some.inj (top.symm.trans found)
    exact Nat.not_lt_zero k less
  · rintro ⟨node,first⟩
    have key : id ∈ g.depths.keys :=
      mem_keys_depths.mpr ⟨node,⟨_,fun u step => absurd step (first u)⟩⟩
    obtain ⟨depth,found⟩ := Table.mem_keys_iff.mp key
    cases depth with
    | zero => exact found
    | succ depth =>
      obtain ⟨u,step,_⟩ := exists_layer_below found
      exact absurd step (first u)

theorem reaches_of_joins {u v : String} (reaches : ReflTransGen g.Joins u v) :
    ReflTransGen g.Leads u v :=
  ReflTransGen.mono (fun _ _ step => step.2.2) u v reaches

section

variable (known : ∀ e ∈ g.edges, e.source ∈ g.ids ∧ e.target ∈ g.ids)

include known

theorem joins_iff_leads {u v : String} : g.Joins u v ↔ g.Leads u v := by
  constructor
  · exact fun step => step.2.2
  · rintro ⟨e,edge,rfl,rfl⟩
    exact ⟨(known e edge).1,(known e edge).2,e,edge,rfl,rfl⟩

theorem mem_roots_iff_depth_zero {id : String} : id ∈ g.roots ↔ g.depths.get? id = some 0 := by
  simp only [mem_roots,depth_zero_iff,incoming_eq_nil_iff,joins_iff_leads known]

theorem roots_eq_depth_zero : g.roots = g.ids.filter fun id => g.depths.get? id = some 0 := by
  rw [roots]
  refine List.filter_congr fun id node => ?_
  have same : id ∈ g.roots ↔ g.depths.get? id = some 0 := mem_roots_iff_depth_zero known
  rw [roots,List.mem_filter,and_iff_right node] at same
  exact Bool.eq_iff_iff.mpr (same.trans decide_eq_true_iff.symm)

variable (acyclic : g.cycles = [])

include acyclic

theorem exists_root {id : String} (node : id ∈ g.ids) :
    ∃ root ∈ g.roots, ReflTransGen g.Leads root id := by
  have key := all_resolve_of_cycles_eq_nil acyclic id node
  obtain ⟨depth,found⟩ := Table.mem_keys_iff.mp key
  obtain ⟨walk,walks,_,root,first,top⟩ := exists_walk_from_root found
  have inside : root ∈ walk := List.mem_of_head? first
  exact ⟨root,(mem_roots_iff_depth_zero known).mpr top,
    reaches_of_joins (walks.reaches inside)⟩

theorem exists_leaf {id : String} (node : id ∈ g.ids) :
    ∃ leaf ∈ g.leaves, ReflTransGen g.Leads id leaf := by
  -- Depths say that walks end backwards; forwards it has to come from the missing cycles.
  have ends : Acc (fun after before => g.Joins before after) id :=
    acc_of_no_loop g.ids (fun _ _ step => step.2.1) fun place _ loop =>
      not_joins_loop_of_cycles_eq_nil acyclic place (transGen_swap.mp loop)
  obtain ⟨leaf,reaches,final⟩ := exists_last ends
  have member : leaf ∈ g.ids := by
    rcases reaches.cases_tail with same | ⟨_,_,step⟩
    · exact same ▸ node
    · exact step.2.1
  refine ⟨leaf,mem_leaves.mpr ⟨member,outgoing_eq_nil_iff.mpr fun v step => ?_⟩,?_⟩
  · exact final v ((joins_iff_leads known).mpr step)
  · exact reaches_of_joins reaches

end

/-- In a graph without cycles whose edges join its nodes, and which is not empty, there are roots and leaves;
the roots are the nodes of depth zero in the order of nodes, each node is reached from some of them, and
from each node some leaf is reached. -/
theorem roots_and_leaves_anchor (g : Graph) (nonempty : g.nodes ≠ [])
    (known : ∀ e ∈ g.edges, e.source ∈ g.ids ∧ e.target ∈ g.ids) (acyclic : g.cycles = []) :
    g.roots ≠ [] ∧ g.leaves ≠ [] ∧
    (g.roots = g.ids.filter fun id => g.depths.get? id = some 0) ∧
    (∀ id ∈ g.ids, ∃ root ∈ g.roots, ReflTransGen g.Leads root id) ∧
    ∀ id ∈ g.ids, ∃ leaf ∈ g.leaves, ReflTransGen g.Leads id leaf := by
  obtain ⟨n,member⟩ := List.exists_mem_of_ne_nil _ nonempty
  have node : n.id ∈ g.ids := List.mem_map_of_mem member
  obtain ⟨root,first,_⟩ := exists_root known acyclic node
  obtain ⟨leaf,last,_⟩ := exists_leaf known acyclic node
  exact ⟨List.ne_nil_of_mem first,List.ne_nil_of_mem last,roots_eq_depth_zero known,
    fun id node => exists_root known acyclic node,fun id node => exists_leaf known acyclic node⟩

def kite : Graph :=
  ofPairs ["log","net","docs","app","core"]
    [("app","core"),("app","net"),("core","log"),("net","log"),("app","net")]

theorem kite_is_anchored :
    kite.nodes ≠ [] ∧ (∀ e ∈ kite.edges, e.source ∈ kite.ids ∧ e.target ∈ kite.ids) ∧
      kite.cycles = [] ∧ kite.roots ≠ [] ∧ kite.leaves ≠ [] ∧
      (kite.roots = kite.ids.filter fun id => kite.depths.get? id = some 0) ∧
      kite.roots = ["docs","app"] ∧ kite.leaves = ["log","docs"] ∧
      (∃ root ∈ kite.roots, ReflTransGen kite.Leads root "log") ∧
      ∃ leaf ∈ kite.leaves, ReflTransGen kite.Leads "app" leaf := by
  have nonempty : kite.nodes ≠ [] := by decide
  have known : ∀ e ∈ kite.edges, e.source ∈ kite.ids ∧ e.target ∈ kite.ids := by decide
  have acyclic : kite.cycles = [] := by decide +kernel
  obtain ⟨roots,leaves,top,above,below⟩ := roots_and_leaves_anchor kite nonempty known acyclic
  exact ⟨nonempty,known,acyclic,roots,leaves,top,by decide,by decide,above "log" (by decide),
    below "app" (by decide)⟩

end DepAudit.Graph
