import DepAudit.Graph.Sources
import DepAudit.Proofs.Graph.Nodes
import DepAudit.Proofs.Graph.Walk

/-! The edges of a graph as relations between ids. Edges may lead to and start from ids without a node;
`Joins` keeps the edges between nodes only. -/
namespace DepAudit
open Relation

namespace Graph

def Leads (g : Graph) (u v : String) : Prop := ∃ e ∈ g.edges, e.source = u ∧ e.target = v

def Joins (g : Graph) (u v : String) : Prop := u ∈ g.ids ∧ v ∈ g.ids ∧ g.Leads u v

def Reached (g : Graph) (id : String) : Prop := ∃ node ∈ g.ids, ReflTransGen g.Leads node id

@[simp]
theorem mem_targets {g : Graph} {u v : String} : v ∈ g.targets u ↔ g.Leads u v := by
  simp only [targets,outgoing,Leads,List.mem_map,List.mem_filter,decide_eq_true_eq]
  constructor
  · rintro ⟨e,⟨member,start⟩,stop⟩
    exact ⟨e,member,start,stop⟩
  · rintro ⟨e,member,start,stop⟩
    exact ⟨e,⟨member,start⟩,stop⟩

@[simp]
theorem mem_sources {g : Graph} {u v : String} : u ∈ g.sources v ↔ g.Leads u v := by
  simp only [sources,incoming,Leads,List.mem_map,List.mem_filter,decide_eq_true_eq]
  constructor
  · rintro ⟨e,⟨member,stop⟩,start⟩
    exact ⟨e,member,start,stop⟩
  · rintro ⟨e,member,start,stop⟩
    exact ⟨e,⟨member,stop⟩,start⟩

theorem acc_joins_iff {g : Graph} {id : String} :
    Acc g.Joins id ↔ ∀ place, ReflTransGen g.Joins place id → ¬TransGen g.Joins place place :=
  acc_iff_no_loop g.ids fun _ _ step => step.1

theorem reached_of_mem {g : Graph} {id : String} (member : id ∈ g.ids) : g.Reached id :=
  ⟨id,member,.refl⟩

theorem Reached.tail {g : Graph} {u v : String} (reached : g.Reached u) (step : g.Leads u v) :
    g.Reached v := by
  obtain ⟨node,member,walk⟩ := reached
  exact ⟨node,member,walk.tail step⟩

theorem Joins.congr {g h : Graph} (ids : ∀ id, id ∈ g.ids ↔ id ∈ h.ids)
    (leads : g.Leads = h.Leads) : g.Joins = h.Joins := by
  ext u v
  simp only [Joins,ids,leads]

theorem joins_of_leads {g : Graph} (known : ∀ e ∈ g.edges, e.source ∈ g.ids) {u v : String}
    (walk : TransGen g.Leads u v) (node : v ∈ g.ids) : TransGen g.Joins u v := by
  have starts {u v : String} (step : g.Leads u v) : u ∈ g.ids := by
    obtain ⟨e,member,rfl,_⟩ := step
    exact known e member
  induction walk with
  | single step => exact .single ⟨starts step,node,step⟩
  | tail _ step ih => exact (ih (starts step)).tail ⟨starts step,node,step⟩

def ofPairs (ids : List String) (pairs : List (String × String)) : Graph :=
  build (ids.map fun id => ⟨id,id,none,none,.unknown,[]⟩)
    (pairs.map fun p => ⟨p.1,p.2,.unknown,Scalar.one,[]⟩) []

theorem leads_ofPairs {ids : List String} {pairs : List (String × String)} {u v : String} :
    (ofPairs ids pairs).Leads u v ↔ (u,v) ∈ pairs := by
  simp only [Leads,ofPairs,build,List.mem_map]
  constructor
  · rintro ⟨_,⟨pair,member,rfl⟩,rfl,rfl⟩
    exact member
  · intro member
    exact ⟨_,⟨(u,v),member,rfl⟩,rfl,rfl⟩

theorem mem_ids_ofPairs {ids : List String} {pairs : List (String × String)} {id : String} :
    id ∈ (ofPairs ids pairs).ids ↔ id ∈ ids := by
  rw [ofPairs,mem_ids_build,List.map_map]
  simp

theorem ids_build_of_perm {nodes others : List Node} (perm : nodes.Perm others)
    (edges moved : List Edge) (metadata also : Table String String) (id : String) :
    id ∈ (build nodes edges metadata).ids ↔ id ∈ (build others moved also).ids := by
  rw [mem_ids_build,mem_ids_build,(perm.map Node.id).mem_iff]

theorem leads_build_of_perm {edges moved : List Edge} (perm : edges.Perm moved)
    (nodes others : List Node) (metadata also : Table String String) :
    (build nodes edges metadata).Leads = (build others moved also).Leads := by
  ext u v
  simp only [Leads,build,perm.mem_iff]

theorem source_mem_ids_ofTargets {targets : List Target} {metadata : Table String String} :
    ∀ e ∈ (ofTargets targets metadata).edges, e.source ∈ (ofTargets targets metadata).ids := by
  intro e member
  obtain ⟨target,listed,edge⟩ := List.mem_flatMap.mp member
  obtain ⟨id,_,rfl⟩ := List.mem_map.mp edge
  rw [ofTargets,mem_ids_build,List.map_map]
  exact List.mem_map.mpr ⟨target,listed,rfl⟩

end Graph

end DepAudit
