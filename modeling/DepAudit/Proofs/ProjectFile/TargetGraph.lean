import DepAudit.ProjectFile.Targets
import DepAudit.Proofs.Graph.Edges
import DepAudit.Proofs.Table

/-! What is read from a project file, however malformed, and the graph of its targets: ids do not repeat,
so nodes, edges and facts of the targets agree. -/
namespace DepAudit

namespace ProjectFile

/-! Targets of any text. -/

theorem ne_empty_of_value? {body key v : String} (found : value? body key = some v) : v ≠ "" := by
  rw [value?] at found
  split at found
  · obtain rfl := Option.some.inj found
    exact fun empty => List.cons_ne_nil _ _ (String.ofList_eq_empty_iff.mp empty)
  · cases found

theorem spec_of_target? {references : Table String String} {id body : String} {t : Target}
    (found : target? references id body = some t) : t.id = id ∧ t.name ≠ "" := by
  obtain ⟨name,named,same⟩ := Option.bind_eq_some_iff.mp found
  obtain rfl := Option.some.inj same
  exact ⟨rfl,ne_empty_of_value? named⟩

theorem ids_targets_sublist (references found : Table String String) :
    ((ofSections references found).targets.map Target.id).Sublist found.keys := by
  rw [ofSections,List.map_filterMap,Table.keys,← List.filterMap_eq_map]
  induction found with
  | nil => exact .slnil
  | cons s found ih =>
    cases read : target? references s.1 s.2 with
    | none => simpa [read] using ih.cons s.1
    | some t => simpa [read,(spec_of_target? read).1] using ih

theorem nodup_ids_read (text kind : String) : ((read text kind).targets.map Target.id).Nodup :=
  (ids_targets_sublist _ _).nodup (Table.nodup_keys_ofPairs _)

theorem name_ne_empty_of_mem_read {text kind : String} {t : Target}
    (member : t ∈ (read text kind).targets) : t.name ≠ "" := by
  obtain ⟨s,_,found⟩ := List.mem_filterMap.mp member
  exact (spec_of_target? found).2

end ProjectFile

namespace Graph

/-! The graph of targets with distinct ids. -/

variable {targets : List Target} (metadata : Table String String)

theorem nodes_ofTargets (once : (targets.map Target.id).Nodup) :
    (ofTargets targets metadata).nodes = targets.map Target.node := by
  apply Node.distinct_of_nodup
  rw [List.map_map]
  exact once

theorem node?_ofTargets (once : (targets.map Target.id).Nodup) (id : String) :
    (ofTargets targets metadata).node? id = (targets.find? fun t => t.id = id).map Target.node := by
  rw [node?,nodes_ofTargets metadata once,List.find?_map]
  rfl

/-- The edges that start from one of several targets are its own. -/
theorem outgoing_ofTargets (once : (targets.map Target.id).Nodup) {t : Target} (member : t ∈ targets) :
    (ofTargets targets metadata).outgoing t.id = t.edges := by
  change (targets.flatMap Target.edges).filter (fun e => e.source = t.id) = t.edges
  have own (u : Target) : u.edges.filter (fun e => e.source = t.id) =
      if u.id = t.id then u.edges else [] := by
    rw [Target.edges,List.filter_map]
    split <;> rename_i same <;> simp [Function.comp_def,same]
  induction targets with
  | nil => cases member
  | cons u targets ih =>
    obtain ⟨new,later⟩ := List.nodup_cons.mp once
    rw [List.flatMap_cons,List.filter_append,own]
    rcases List.mem_cons.mp member with rfl | inside
    · have none : (targets.flatMap Target.edges).filter (fun e => e.source = t.id) = [] := by
        refine List.filter_eq_nil_iff.mpr fun e edge start => ?_
        obtain ⟨v,listed,edge⟩ := List.mem_flatMap.mp edge
        obtain ⟨d,_,rfl⟩ := List.mem_map.mp edge
        exact new (List.mem_map.mpr ⟨v,listed,of_decide_eq_true start⟩)
      rw [if_pos rfl,none,List.append_nil]
    · rw [if_neg fun same => new (List.mem_map.mpr ⟨t,inside,same.symm⟩)]
      exact ih later inside

end Graph

namespace Target

/-- Facts and edges of a target name the same ids, and what a fact is called is what the graph calls
the node of that id. -/
theorem facts_parallel_edges {targets : List Target} (metadata : Table String String)
    (once : (targets.map Target.id).Nodup) (t : Target) :
    List.Forall₂ (fun fact edge => fact.location = some edge.target ∧
      fact.name = (((Graph.ofTargets targets metadata).node? edge.target).map Node.name).getD edge.target)
      (t.facts (byId targets)) t.edges := by
  have distinct : (targets.map fun t => (t.id,t)).map Prod.fst = targets.map Target.id := by
    rw [List.map_map]
    rfl
  have found (id : String) : (byId targets).get? id = targets.find? fun t => t.id = id := by
    rw [byId,Table.ofPairs_of_nodup (distinct ▸ once),Table.get?_map,Option.map_id']
  rw [facts,edges,List.forall₂_map_left_iff,List.forall₂_map_right_iff]
  refine List.forall₂_same.mpr fun id _ => ⟨rfl,?_⟩
  rw [found,Graph.node?_ofTargets metadata once,Option.map_map]
  rfl

end Target

namespace ProjectFile

structure Matches (f : ProjectFile) (g : Graph) : Prop where
  /-- Each section is a target or was skipped. -/
  counted : f.sectionsFound = f.targets.length + f.skipped
  distinct : (f.targets.map Target.id).Nodup
  named : ∀ t ∈ f.targets, t.name ≠ ""
  /-- The nodes are the targets, in their order. -/
  nodes : g.nodes.map (fun n => (n.id,n.name)) = f.targets.map fun t => (t.id,t.name)
  dependencies : ∀ t ∈ f.targets, (g.outgoing t.id).map Edge.target = t.dependencies
  /-- A dependency is named after its node, or by its id where there is none. -/
  facts : ∀ t ∈ f.targets, List.Forall₂ (fun fact edge => fact.location = some edge.target ∧
    fact.name = ((g.node? edge.target).map Node.name).getD edge.target)
    (t.facts (Target.byId f.targets)) (g.outgoing t.id)

/-- Every text is read as a project file with distinct targets that have names, whose graph has just
these targets as nodes and just their dependencies as edges, and whose facts go along the edges. -/
theorem read_matches_graph (text kind : String) (metadata : Table String String) :
    Matches (read text kind) (.ofTargets (read text kind).targets metadata) where
  counted := (length_filterMap_add_countP _ _).symm
  distinct := nodup_ids_read text kind
  named _ member := name_ne_empty_of_mem_read member
  nodes := by
    rw [Graph.nodes_ofTargets metadata (nodup_ids_read text kind),List.map_map]
    rfl
  dependencies t member := by
    rw [Graph.outgoing_ofTargets metadata (nodup_ids_read text kind) member,Target.edges,List.map_map]
    exact List.map_id _
  facts t member := by
    rw [Graph.outgoing_ofTargets metadata (nodup_ids_read text kind) member]
    exact t.facts_parallel_edges metadata (nodup_ids_read text kind)

def sketch : String :=
  "A1 = \x7bisa = PBXNativeTarget; name = App; dependencies = (D1,E9);\x7d; " ++
  "B2 = \x7bisa = PBXNativeTarget; name = Core;\x7d; C3 = \x7bisa = PBXNativeTarget;\x7d; " ++
  "D1 = \x7bisa = PBXTargetDependency; target = B2;\x7d;"

def sketched : ProjectFile where
  targets := [
    { id := "A1", name := "App", type := .unknown, productName := none, productType := none
      dependencies := ["B2","E9"], buildPhases := [] },
    { id := "B2", name := "Core", type := .unknown, productName := none, productType := none
      dependencies := [], buildPhases := [] }]
  sectionsFound := 3
  skipped := 1

theorem sketch_matches_graph : read sketch targetKind = sketched ∧
    Matches sketched (.ofTargets sketched.targets []) ∧
    ((Graph.ofTargets sketched.targets []).outgoing "A1").map Edge.target = ["B2","E9"] ∧
    (sketched.targets.flatMap fun t => (t.facts (Target.byId sketched.targets)).map Fact.name) =
      ["Core","E9"] := by
  have same : read sketch targetKind = sketched := by decide +kernel
  have agree := read_matches_graph sketch targetKind []
  rw [same] at agree
  exact ⟨same,agree,agree.dependencies _ (List.mem_cons_self ..),by decide +kernel⟩

end ProjectFile

end DepAudit
