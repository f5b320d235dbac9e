import DepAudit.Graph.Basic
import DepAudit.Proofs.Table

/-! Nodes are told apart by their ids. Of several nodes with one id the last counts, at the place of the first,
so one has to follow which id came first and which node came last. The nodes of a graph make the same graph
again, alone or with further nodes behind them. -/
namespace DepAudit

namespace Node

theorem put_of_new {n : Node} {ms : List Node} (new : n.id ∉ ms.map id) : put n ms = ms ++ [n] := by
  induction ms with
  | nil => rfl
  | cons m ms ih =>
    rw [List.map_cons,List.mem_cons,not_or] at new
    rw [put,if_neg (Ne.symm new.1),ih new.2]
    rfl

theorem find?_put (n : Node) (ms : List Node) (i : String) :
    (put n ms).find? (·.id = i) = if n.id = i then some n else ms.find? (·.id = i) := by
  induction ms with
  | nil => by_cases here : n.id = i <;> simp [put,here]
  | cons m ms ih =>
    by_cases same : m.id = n.id
    · by_cases here : n.id = i <;> simp [put,same,here]
    · rw [put,if_neg same,List.find?_cons,List.find?_cons,ih]
      by_cases here : m.id = i
      · have other : n.id ≠ i := fun too => same (here.trans too.symm)
        simp [here,other]
      · simp [here]

theorem distinct_append (front back : List Node) :
    distinct (front ++ back) = back.foldl (fun ns n => put n ns) (distinct front) := List.foldl_append ..

theorem distinct_concat (nodes : List Node) (n : Node) :
    distinct (nodes ++ [n]) = put n (distinct nodes) := distinct_append nodes [n]

/-- The ids stand in the order in which they are given first. -/
theorem ids_distinct (nodes : List Node) : (distinct nodes).map id = (nodes.map id).eraseDups := by
  induction nodes using List.reverseRecOn with
  | nil => rfl
  | append_singleton nodes n ih =>
    rw [distinct_concat,ids_put,ih,List.map_append,List.map_singleton,eraseDups_concat]
    simp only [List.mem_eraseDups]

/-- An id has the node that is given last. -/
theorem find?_distinct (nodes : List Node) (i : String) :
    (distinct nodes).find? (·.id = i) = nodes.reverse.find? (·.id = i) := by
  induction nodes using List.reverseRecOn with
  | nil => rfl
  | append_singleton nodes n ih =>
    rw [distinct_concat,find?_put,ih,List.reverse_concat,List.find?_cons]
    by_cases here : n.id = i <;> simp [here]

/-- Nodes whose ids differ are those of a graph as they are. -/
theorem distinct_of_nodup {nodes : List Node} (once : (nodes.map id).Nodup) :
    distinct nodes = nodes := by
  induction nodes using List.reverseRecOn with
  | nil => rfl
  | append_singleton nodes n ih =>
    rw [List.map_append,List.nodup_append] at once
    obtain ⟨front,_,apart⟩ := once
    rw [distinct_concat,ih front]
    exact put_of_new fun old => apart _ old _ (List.mem_singleton.mpr rfl) rfl

theorem distinct_distinct_append (front back : List Node) :
    distinct (distinct front ++ back) = distinct (front ++ back) := by
  rw [distinct_append,distinct_append,distinct_of_nodup (nodup_ids_distinct front)]

end Node

namespace Graph

variable {nodes : List Node} {edges : List Edge} {metadata : Table String String}

theorem ids_build : (build nodes edges metadata).ids = (nodes.map Node.id).eraseDups :=
  Node.ids_distinct nodes

theorem mem_ids_build {id : String} :
    id ∈ (build nodes edges metadata).ids ↔ id ∈ nodes.map Node.id := by
  rw [ids_build,List.mem_eraseDups]

theorem node?_eq_none_iff {g : Graph} {id : String} : g.node? id = none ↔ id ∉ g.ids := by
  rw [node?,ids,List.find?_eq_none,List.mem_map]
  simp

theorem build_self (g : Graph) : build g.nodes g.edges g.metadata = g := by
  obtain ⟨nodes,edges,metadata,once⟩ := g
  simp only [build,mk.injEq,and_true]
  exact Node.distinct_of_nodup once

theorem build_congr {others : List Node} (same : Node.distinct nodes = Node.distinct others) :
    build nodes edges metadata = build others edges metadata := by
  simp only [build,same]

/-- A graph has each id once, in the order in which the ids are given first, and the node of an id is the last
that is given with it; its edges are those given. A graph is made anew from its own nodes, edges and
metadata, and its nodes can stand for those it was made from when others follow. -/
theorem nodes_told_by_id :
    (∀ (nodes : List Node) (edges : List Edge) (metadata : Table String String),
      (build nodes edges metadata).ids.Nodup ∧
      (build nodes edges metadata).ids = (nodes.map Node.id).eraseDups ∧
      (∀ id, (build nodes edges metadata).node? id = nodes.reverse.find? (·.id = id) ∧
        ((build nodes edges metadata).node? id = none ↔ id ∉ nodes.map Node.id)) ∧
      (build nodes edges metadata).edges = edges) ∧
    (∀ g : Graph, build g.nodes g.edges g.metadata = g) ∧
    ∀ (front back : List Node) (edges others : List Edge) (metadata also : Table String String),
      build (front ++ back) edges metadata =
        build ((build front others also).nodes ++ back) edges metadata := by
  refine ⟨?_,build_self,?_⟩
  · intro nodes edges metadata
    refine ⟨(build nodes edges metadata).nodup_ids,ids_build,fun id => ?_,rfl⟩
    exact ⟨Node.find?_distinct nodes id,node?_eq_none_iff.trans (not_congr mem_ids_build)⟩
  · intro front back edges others metadata also
    exact build_congr (Node.distinct_distinct_append front back).symm

-- Given twice, `a` keeps its place in front of `b` and takes its later name.
example : (build [⟨"a","first",none,none,.unknown,[]⟩,⟨"b","b",none,none,.unknown,[]⟩,
    ⟨"a","second",none,none,.unknown,[]⟩] [] []).nodes.map (fun n => (n.id,n.name)) =
    [("a","second"),("b","b")] := by decide

end Graph

end DepAudit
