import DepAudit.Graph.Metrics
import DepAudit.Proofs.Graph.Edges
import DepAudit.Proofs.Outcome
import DepAudit.Proofs.Totals

/-! The edges of a graph looked at from either end: edge lists, indices, counts, roots and leaves, neighbours
and averages. Each goes through the edges by itself, and edges may be doubled, lead back to where they
start or name ids without a node; still all tell the same numbers in the same order. -/
namespace DepAudit

theorem Scalar.share_mul {n : Int} {d : Nat} (whole : d = 0 → n = 0) : (share n d : Rat) * d = n := by
  rw [share]
  split
  · rename_i none
    rw [none,whole none]
    exact Rat.mul_zero _
  · rename_i some
    change mkRat n d * d = n
    rw [Rat.mkRat_eq_div]
    exact Rat.div_mul_cancel (by exact_mod_cast some)

/-- What the figures of a graph are, when its settings are fit. -/
theorem Metrics.exists_of_compute {g : Graph} {factor : Value}
    {limits : Except SettingError ComplexityLimits} {m : Metrics}
    (computed : compute g factor limits = .ok m) :
    ∃ complexity bottlenecks, g.bottlenecksFor factor = .ok bottlenecks ∧
      m = ⟨g.nodes.length,g.edges.length,g.maxDepth,g.cycles.length,g.density,g.averageDependencies,
        complexity,bottlenecks,g.leaves,g.roots⟩ := by
  obtain ⟨_,_,computed⟩ := bind_eq_ok.mp computed
  obtain ⟨complexity,_,computed⟩ := bind_eq_ok.mp computed
  obtain ⟨bottlenecks,compared,computed⟩ := bind_eq_ok.mp computed
  exact ⟨complexity,bottlenecks,compared,(Except.ok.inj computed).symm⟩

namespace Graph

section

variable (g : Graph)

theorem getD_get?_outgoingIndex (id : String) :
    (g.outgoingIndex.get? id).getD [] = (g.outgoing id).map Edge.target :=
  Table.getD_get?_gather Edge.source Edge.target g.edges id

theorem getD_get?_incomingIndex (id : String) :
    (g.incomingIndex.get? id).getD [] = (g.incoming id).map Edge.source :=
  Table.getD_get?_gather Edge.target Edge.source g.edges id

theorem sum_outgoingIndex : (g.outgoingIndex.map fun p => p.2.length).sum = g.edges.length :=
  Table.sum_lengths_gather Edge.source Edge.target g.edges

theorem sum_incomingIndex : (g.incomingIndex.map fun p => p.2.length).sum = g.edges.length :=
  Table.sum_lengths_gather Edge.target Edge.source g.edges

/-- Counting as the edges come leaves each node with the number of those that lead to it. -/
theorem incomingCounts_eq : g.incomingCounts = g.ids.map fun id => (id,(g.incoming id).length) := by
  rw [incomingCounts]
  simp only [incoming]
  -- The fold takes the edges from the front, so the last edge finds what those before it have left.
  induction g.edges using List.reverseRecOn with
  | nil => rfl
  | append_singleton edges e ih =>
    rw [List.foldl_concat,ih,Table.adjust,List.map_map]
    refine List.map_congr_left fun id _ => ?_
    by_cases here : e.target = id
    · simp [here]
    · simp [here,Ne.symm here]

theorem get?_incomingCounts (id : String) :
    g.incomingCounts.get? id = if id ∈ g.ids then some (g.incoming id).length else none := by
  have keys : g.incomingCounts.keys = g.ids := by
    rw [incomingCounts_eq,Table.keys,List.map_map]
    exact List.map_id _
  split
  · rename_i node
    rw [Table.get?_of_mem (keys ▸ g.nodup_ids)]
    rw [incomingCounts_eq]
    exact List.mem_map_of_mem node
  · rename_i other
    exact Table.get?_eq_none_iff.mpr (keys ▸ other)

theorem sum_outgoing : (g.ids.map fun id => (g.outgoing id).length).sum = g.dependencyCount := by
  have distinct : g.ids.Nodup := g.nodup_ids
  have counted := sum_length_filter Edge.source distinct g.edges
  simpa only [dependencyCount,outgoing,List.contains_eq_mem] using counted

end

variable {g : Graph} {id : String}

theorem incoming_eq_nil_iff : g.incoming id = [] ↔ ∀ u, ¬g.Leads u id := by
  rw [← List.map_eq_nil_iff,List.eq_nil_iff_forall_not_mem]
  exact forall_congr' fun u => not_congr mem_sources

theorem outgoing_eq_nil_iff : g.outgoing id = [] ↔ ∀ v, ¬g.Leads id v := by
  rw [← List.map_eq_nil_iff,List.eq_nil_iff_forall_not_mem]
  exact forall_congr' fun v => not_congr mem_targets

theorem mem_roots : id ∈ g.roots ↔ id ∈ g.ids ∧ g.incoming id = [] := by
  simp [roots,incoming]

theorem mem_leaves : id ∈ g.leaves ↔ id ∈ g.ids ∧ g.outgoing id = [] := by
  simp [leaves,outgoing]

theorem mem_dependencies {n : Node} : n ∈ g.dependencies id ↔ n ∈ g.nodes ∧ g.Leads id n.id := by
  rw [dependencies,List.mem_filter,List.contains_iff_mem,mem_targets]

theorem mem_dependents {n : Node} : n ∈ g.dependents id ↔ n ∈ g.nodes ∧ g.Leads n.id id := by
  rw [dependents,List.mem_filter,List.contains_iff_mem,mem_sources]

theorem node?_eq_some {n : Node} (found : g.node? id = some n) : n ∈ g.nodes ∧ n.id = id := by
  rw [node?] at found
  exact ⟨List.mem_of_find?_eq_some found,by simpa using List.find?_some found⟩

theorem mem_dependencies_iff {x y : String} {n m : Node} (first : g.node? x = some n)
    (second : g.node? y = some m) : m ∈ g.dependencies x ↔ n ∈ g.dependents y := by
  obtain ⟨inside,rfl⟩ := node?_eq_some first
  obtain ⟨also,rfl⟩ := node?_eq_some second
  rw [mem_dependencies,mem_dependents]
  exact ⟨fun ⟨_,step⟩ => ⟨inside,step⟩,fun ⟨_,step⟩ => ⟨also,step⟩⟩

theorem averageDependencies_eq {α : Type} [Scalar α] (g : Graph) : (g.averageDependencies : α) =
    Scalar.share (g.ids.map fun id => (g.outgoing id).length).sum g.nodes.length := by
  rw [averageDependencies,sum_outgoing]

theorem averageDependencies_mul (g : Graph) : (g.averageDependencies : Rat) * g.nodes.length =
    (g.ids.map fun id => (g.outgoing id).length).sum := by
  rw [averageDependencies_eq,Scalar.share_mul]
  · exact Rat.intCast_natCast _
  · intro none
    rw [ids,List.length_eq_zero_iff.mp none]
    rfl

/-- The indices list for an id what the edges from it and to it do, in the order of edges, and all edges are in
them. A node has as many incoming edges as are counted for it, it is a root or a leaf where there are none
to it or from it, and it depends on another node just when it is a dependent of that one. The average
number of dependencies comes from the lists of the nodes. -/
theorem edge_views_agree (g : Graph) :
    (∀ id, (g.outgoingIndex.get? id).getD [] = (g.outgoing id).map Edge.target ∧
      (g.incomingIndex.get? id).getD [] = (g.incoming id).map Edge.source) ∧
    (∀ id, g.incomingCounts.get? id =
      if id ∈ g.ids then some (g.incoming id).length else none) ∧
    (∀ id, (id ∈ g.roots ↔ id ∈ g.ids ∧ g.incoming id = []) ∧
      (id ∈ g.leaves ↔ id ∈ g.ids ∧ g.outgoing id = [])) ∧
    (∀ x y n m, g.node? x = some n → g.node? y = some m →
      (m ∈ g.dependencies x ↔ n ∈ g.dependents y)) ∧
    ((g.outgoingIndex.map fun p => p.2.length).sum = g.edges.length ∧
      (g.incomingIndex.map fun p => p.2.length).sum = g.edges.length) ∧
    (g.averageDependencies : Rat) * g.nodes.length =
      (g.ids.map fun id => (g.outgoing id).length).sum ∧
    ∀ factor limits m, Metrics.compute g factor limits = .ok m → m.averageDependencies =
      Scalar.share (g.ids.map fun id => (g.outgoing id).length).sum g.nodes.length := by
  refine ⟨fun id => ⟨g.getD_get?_outgoingIndex id,g.getD_get?_incomingIndex id⟩,g.get?_incomingCounts,
    fun id => ⟨mem_roots,mem_leaves⟩,fun x y n m => mem_dependencies_iff,
    ⟨g.sum_outgoingIndex,g.sum_incomingIndex⟩,g.averageDependencies_mul,?_⟩
  intro factor limits m computed
  obtain ⟨_,_,_,rfl⟩ := Metrics.exists_of_compute computed
  exact g.averageDependencies_eq

def tangle : Graph :=
  ofPairs ["app","core"] [("app","core"),("ghost","app"),("core","core"),("app","core"),("core","lost")]

theorem tangle_views_agree :
    (tangle.outgoingIndex.get? "app").getD [] = ["core","core"] ∧
    (∃ n m, tangle.node? "app" = some n ∧ tangle.node? "core" = some m ∧
      (m ∈ tangle.dependencies "app" ↔ n ∈ tangle.dependents "core")) ∧
    (tangle.averageDependencies : Rat) * 2 = 4 ∧
    ∃ m, Metrics.compute tangle (.int 2) (.ok {}) = .ok m ∧
      m.averageDependencies = Scalar.share 4 2 := by
  obtain ⟨indices,_,_,neighbours,_,average,figures⟩ := edge_views_agree tangle
  obtain ⟨m,computed⟩ : ∃ m, Metrics.compute tangle (.int 2) (.ok {}) = .ok m :=
    exists_eq_ok (by decide +kernel)
  exact ⟨(indices "app").1,⟨_,_,rfl,rfl,neighbours "app" "core" _ _ rfl rfl⟩,average,m,computed,
    figures _ _ m computed⟩

end Graph

end DepAudit
