import DepAudit.Proofs.Graph.Search

/-! The search of a graph ends within its bound on steps and sees exactly the ids that edges lead to from
nodes. Each step uses up work: a target to follow, an id to leave, or the edges from an id not seen. -/
namespace DepAudit
open Relation

namespace CycleSearch

/-- An edge is worth two steps, one to follow it and one to leave the id that it may lead into. -/
def work (g : Graph) (s : CycleSearch) : Nat :=
  2 * s.pending.flatten.length + s.pending.length +
    2 * g.edges.countP fun e => e.source ∉ s.visited

theorem countP_unseen {id : String} {visited : List String} (new : id ∉ visited)
    (edges : List Edge) :
    edges.countP (fun e => e.source ∉ id :: visited) + (edges.filter (·.source = id)).length =
      edges.countP fun e => e.source ∉ visited := by
  induction edges with
  | nil => rfl
  | cons e edges ih =>
    simp only [List.countP_cons,List.filter_cons]
    by_cases same : e.source = id
    · simp only [same,new,List.mem_cons,true_or,not_true_eq_false,not_false_eq_true,decide_true,
        decide_false,Bool.false_eq_true,if_true,if_false,List.length_cons] at ih ⊢
      omega
    · simp only [List.mem_cons,same,false_or,decide_false,Bool.false_eq_true,if_false] at ih ⊢
      omega

theorem work_enter (g : Graph) {s : CycleSearch} {id : String} (new : id ∉ s.visited) :
    work g (s.enter g.targets id) = work g s + 1 := by
  have unseen := countP_unseen new g.edges
  have size : (g.targets id).length = (g.edges.filter (·.source = id)).length := List.length_map ..
  change 2 * (g.targets id :: s.pending).flatten.length + (s.pending.length + 1) +
    2 * g.edges.countP (fun e => e.source ∉ id :: s.visited) = work g s + 1
  rw [List.flatten_cons,List.length_append,work]
  omega

theorem work_next (g : Graph) {s : CycleSearch} {target : String} {others : List String}
    {rest : List (List String)} (next : s.pending = (target :: others) :: rest) :
    work g { s with pending := others :: rest } + 2 = work g s := by
  simp only [work,next,List.flatten_cons,List.length_append,List.length_cons]
  omega

theorem work_step (g : Graph) {s : CycleSearch} (busy : s.pending ≠ []) :
    work g (s.step g.targets) < work g s := by
  apply step_cases (motive := fun later => work g later < work g s)
  case idle =>
    intro idle
    exact absurd idle busy
  case leave =>
    intro rest done
    simp only [work,done,List.flatten_cons,List.nil_append,List.length_cons]
    omega
  case descend =>
    intro target others rest next new
    have less := work_next g next
    rw [work_enter g (s := { s with pending := others :: rest }) new]
    omega
  case close =>
    intro target others rest next _ _
    have less := work_next g next
    change work g { s with pending := others :: rest } < work g s
    omega
  case skip =>
    intro target others rest next _ _
    have less := work_next g next
    omega

theorem run_ends (g : Graph) (steps : Nat) {s : CycleSearch} (enough : work g s ≤ steps) :
    (run g.targets steps s).pending = [] := by
  induction steps generalizing s with
  | zero =>
    have none : s.pending.length = 0 := by
      unfold work at enough
      omega
    exact List.length_eq_zero_iff.mp none
  | succ steps ih =>
    simp only [run]
    split
    · rename_i idle
      exact List.isEmpty_iff.mp idle
    · rename_i busy
      have less := work_step g (s := s) (fun idle => busy (List.isEmpty_iff.mpr idle))
      exact ih (by omega)

theorem visited_subset_step (targets : String → List String) (s : CycleSearch) :
    s.visited ⊆ (s.step targets).visited := by
  apply step_cases (motive := fun later => s.visited ⊆ later.visited)
  case idle => exact fun _ => List.Subset.refl _
  case leave => exact fun _ _ => List.Subset.refl _
  case descend => exact fun _ _ _ _ _ => List.subset_cons_self _ _
  case close => exact fun _ _ _ _ _ _ => List.Subset.refl _
  case skip => exact fun _ _ _ _ _ _ => List.Subset.refl _

theorem visited_subset_run (targets : String → List String) (steps : Nat) (s : CycleSearch) :
    s.visited ⊆ (run targets steps s).visited := by
  induction steps generalizing s with
  | zero => exact List.Subset.refl _
  | succ steps ih =>
    simp only [run]
    split
    · exact List.Subset.refl _
    · exact List.Subset.trans (visited_subset_step targets s) (ih _)

variable {targets : String → List String} {starts : List String}

structure Idle (targets : String → List String) (starts : List String) (s : CycleSearch) : Prop
    extends Coherent targets starts s where
  idle : s.pending = []

theorem Idle.path_eq_nil {s : CycleSearch} (ok : Idle targets starts s) : s.path = [] := by
  have length := ok.frames.length_eq
  rw [ok.idle] at length
  exact List.length_eq_zero_iff.mp length.symm

theorem idle_start : Idle targets starts start :=
  ⟨⟨.nil,by simp [start],.nil,.nil,by simp [start],by simp [start],by simp [start],by simp [start]⟩,rfl⟩

theorem Idle.enter {s : CycleSearch} {id : String} (ok : Idle targets starts s) (first : id ∈ starts)
    (new : id ∉ s.visited) : Coherent targets starts (s.enter targets id) := by
  have empty := ok.path_eq_nil
  refine Coherent.enter (s := s) ok.toCoherent ?_ new ?_ ⟨id,first,.refl⟩
  · rw [ok.idle,empty]
    exact .nil
  · simp [empty]

end CycleSearch

namespace Graph
open CycleSearch

private theorem idle_visit (g : Graph) {s : CycleSearch} {id : String} (ok : Idle g.targets g.ids s)
    (node : id ∈ g.ids) :
    Idle g.targets g.ids (s.visit g.targets g.searchSteps id) ∧
      id ∈ (s.visit g.targets g.searchSteps id).visited ∧
      s.visited ⊆ (s.visit g.targets g.searchSteps id).visited := by
  unfold visit
  split
  · rename_i old
    exact ⟨ok,old,List.Subset.refl _⟩
  · rename_i new
    have enough : work g (s.enter g.targets id) ≤ g.searchSteps := by
      have bound := List.countP_le_length (p := fun e : Edge => decide (e.source ∉ s.visited)) (l := g.edges)
      rw [work_enter g new]
      simp only [work,ok.idle,List.flatten_nil,List.length_nil,searchSteps]
      omega
    have grown := visited_subset_run g.targets g.searchSteps (s.enter g.targets id)
    exact ⟨⟨(ok.enter node new).run _,run_ends g _ enough⟩,grown (List.mem_cons_self ..),
      List.Subset.trans (List.subset_cons_self _ _) grown⟩

theorem idle_visits (g : Graph) (nodes : List String) (known : nodes ⊆ g.ids)
    {s : CycleSearch} (ok : Idle g.targets g.ids s) :
    Idle g.targets g.ids (nodes.foldl (CycleSearch.visit g.targets g.searchSteps) s) ∧
      s.visited ⊆ (nodes.foldl (CycleSearch.visit g.targets g.searchSteps) s).visited ∧
      nodes ⊆ (nodes.foldl (CycleSearch.visit g.targets g.searchSteps) s).visited := by
  induction nodes generalizing s with
  | nil => exact ⟨ok,List.Subset.refl _,List.nil_subset _⟩
  | cons id nodes ih =>
    obtain ⟨next,new,grown⟩ := idle_visit g ok (known (List.mem_cons_self ..))
    obtain ⟨last,wider,all⟩ := ih (fun x member => known (.tail id member)) next
    exact ⟨last,List.Subset.trans grown wider,List.cons_subset.mpr ⟨wider new,all⟩⟩

theorem idle_search (g : Graph) : Idle g.targets g.ids g.search :=
  (idle_visits g g.ids (List.Subset.refl _) idle_start).1

theorem leads_eq_targets (g : Graph) : (fun u v => v ∈ g.targets u) = g.Leads :=
  funext fun _ => funext fun _ => propext mem_targets

/-- The search sees every id that edges lead to from a node, and no other. -/
theorem mem_visited_search (g : Graph) {id : String} : id ∈ g.search.visited ↔ g.Reached id := by
  have idle := g.idle_search
  constructor
  · intro member
    have origin := idle.origin id member
    rwa [leads_eq_targets] at origin
  · rintro ⟨node,member,walk⟩
    induction walk with
    | refl => exact (idle_visits g g.ids (List.Subset.refl _) idle_start).2.2 member
    | tail _ step ih =>
      exact idle.explored _ ih (by simp [idle.path_eq_nil]) _ (mem_targets.mpr step)

theorem acc_onward_of_reached {g : Graph} {id : String} (reached : g.Reached id) :
    Acc (Onward g.targets g.cycles) id :=
  g.idle_search.finished id (g.mem_visited_search.mpr reached) (by simp [g.idle_search.path_eq_nil])

theorem simple_of_mem_cycles {g : Graph} {cycle : List String} (found : cycle ∈ g.cycles) :
    SimpleCycle g.Leads cycle ∧ ∀ id ∈ cycle, g.Reached id := by
  obtain ⟨simple,seen⟩ := g.idle_search.genuine cycle found
  rw [leads_eq_targets] at simple
  exact ⟨simple,fun id inside => g.mem_visited_search.mp (seen id inside)⟩

end Graph

end DepAudit
