import DepAudit.Proofs.Graph.Cycles
import DepAudit.Proofs.Graph.Recursion
import DepAudit.Proofs.Graph.Views

/-! How many cycles are reported for an edge. The search follows the targets of an id once, in one go and
with the same path each time it comes back to them. So the cycles that end with the id are those which its
targets on that path close, one for each edge. -/
namespace DepAudit

def closedFrom (found : List (List String)) (id : String) : List (List String) :=
  found.filter fun cycle => cycle.getLast? = some id

def closures (path targets : List String) : List (List String) :=
  (targets.filter (· ∈ path)).map fun target => path.drop (path.idxOf target)

theorem closures_inside {path rest : List String} {target : String} (inside : target ∈ path) :
    closures path (target :: rest) = path.drop (path.idxOf target) :: closures path rest := by
  simp [closures,inside]

theorem closures_outside {path rest : List String} {target : String} (outside : target ∉ path) :
    closures path (target :: rest) = closures path rest := by
  simp [closures,outside]

theorem getLast?_drop_idxOf {outer : List String} {id target : String}
    (inside : target ∈ outer ++ [id]) :
    ((outer ++ [id]).drop ((outer ++ [id]).idxOf target)).getLast? = some id := by
  have short := List.idxOf_lt_length_of_mem inside
  rw [List.getLast?_drop,if_neg (Nat.not_le.mpr short),List.getLast?_concat]

theorem head?_drop_idxOf {path : List String} {target : String} (inside : target ∈ path) :
    (path.drop (path.idxOf target)).head? = some target := by
  rw [List.head?_drop,List.getElem?_idxOf inside]

/-- Those of the cycles which targets close that start with `v` are as many as `v` is listed. -/
theorem closures_filter_head? (path targets : List String) (v : String) :
    (closures path targets).filter (·.head? = some v) =
      if v ∈ path then List.replicate (targets.count v) (path.drop (path.idxOf v)) else [] := by
  induction targets with
  | nil => simp [closures]
  | cons target rest ih =>
    by_cases inside : target ∈ path
    · rw [closures_inside inside,List.filter_cons,head?_drop_idxOf inside,ih]
      by_cases same : target = v
      · simp [same ▸ inside,same,List.replicate_succ]
      · simp [same]
    · rw [closures_outside inside,ih]
      by_cases same : target = v
      · simp [same ▸ inside]
      · simp [same]

namespace Descent

/-- Between two targets: none of the cycles ends with an id not seen, and those that end with an id which
was left are what its targets closed. -/
structure Settled (g : Graph) (d : Descent) : Prop where
  aligned : d.Aligned
  seen : d.path ⊆ d.visited
  unseen : ∀ id ∉ d.visited, closedFrom d.found id = []
  left : ∀ id ∈ d.visited, id ∉ d.path → ∃ path, closedFrom d.found id = closures path (g.targets id)

def ExploreCloses (g : Graph) (d : Descent) (id : String) (new : id ∉ d.visited) : Prop :=
  d.Settled g → (explore g d id new).1.Settled g ∧
    ∀ x ∈ d.path, closedFrom (explore g d id new).1.found x = closedFrom d.found x

/-- The search through targets of the innermost id finds cycles that end with it where targets are on the
path, and none that end with another id on the path. -/
def FollowCloses (g : Graph) (d : Descent) (targets : List String) : Prop :=
  ∀ outer id, d.path = outer ++ [id] → d.Settled g →
    (follow g d targets).1.Settled g ∧
      (∀ x ∈ d.path, x ≠ id → closedFrom (follow g d targets).1.found x = closedFrom d.found x) ∧
      closedFrom (follow g d targets).1.found id = closedFrom d.found id ++ closures d.path targets

variable {g : Graph} {d : Descent}

theorem Settled.enter (ok : d.Settled g) (id : String) : (d.enter id).Settled g := by
  obtain ⟨aligned,seen,unseen,left⟩ := ok
  refine ⟨aligned.enter id,?_,?_,?_⟩
  · intro x member
    rcases List.mem_append.mp member with old | last
    · exact .tail _ (seen old)
    · simp [Descent.enter,List.mem_singleton.mp last]
  · intro x out
    exact unseen x fun old => out (.tail _ old)
  · intro x member out
    obtain ⟨before,different⟩ := not_or.mp (mt List.mem_append.mpr out)
    have old := (List.mem_cons.mp member).resolve_left fun same => different (by simp [same])
    exact left x old before

theorem closedFrom_close {outer : List String} {id target : String} (path : d.path = outer ++ [id])
    (inside : target ∈ d.path) (x : String) :
    closedFrom (d.close target).found x =
      closedFrom d.found x ++ if x = id then [d.path.drop (d.path.idxOf target)] else [] := by
  have last : (d.path.drop (d.path.idxOf target)).getLast? = some id := by
    rw [path] at inside ⊢
    exact getLast?_drop_idxOf inside
  rw [closedFrom,Descent.close,List.filter_append,List.filter_singleton,last]
  by_cases same : x = id
  · simp [same,closedFrom]
  · simp [same,Ne.symm same,closedFrom]

theorem Settled.close {outer : List String} {id target : String} (ok : d.Settled g)
    (path : d.path = outer ++ [id]) (inside : target ∈ d.path) : (d.close target).Settled g := by
  obtain ⟨aligned,seen,unseen,left⟩ := ok
  have top : id ∈ d.path := by simp [path]
  have other (x : String) (different : x ≠ id) :
      closedFrom (d.close target).found x = closedFrom d.found x := by
    rw [closedFrom_close path inside,if_neg different,List.append_nil]
  refine ⟨aligned,seen,?_,?_⟩
  · intro x out
    rw [other x fun same => out (seen (same ▸ top))]
    exact unseen x out
  · intro x member out
    rw [other x fun same => out (same ▸ top)]
    exact left x member out

theorem Settled.leave {inner : Descent} {id : String} {path : List String} (ok : inner.Settled g)
    (level : Level inner (d.enter id))
    (closed : closedFrom inner.found id = closures path (g.targets id)) :
    (inner.leave id).Settled g := by
  obtain ⟨aligned,seen,unseen,left⟩ := ok
  have top : inner.path = d.path ++ [id] := level.2
  have shorter : (inner.leave id).path = d.path := by simp [Descent.leave,top]
  refine ⟨?_,?_,unseen,?_⟩
  · have stack : inner.onStack = id :: d.onStack := level.1
    rw [Aligned,top,stack,List.reverse_cons] at aligned
    rw [Aligned,shorter,Descent.leave,stack,List.erase_cons_head]
    exact List.append_cancel_right aligned
  · rw [shorter]
    exact fun x member => seen (top ▸ List.mem_append_left _ member)
  · intro x member out
    by_cases same : x = id
    · exact ⟨path,same ▸ closed⟩
    · refine left x member ?_
      rw [shorter] at out
      simp [top,out,same]

theorem FollowCloses.explore {id : String} (inside : FollowCloses g (d.enter id) (g.targets id))
    (new : id ∉ d.visited) : ExploreCloses g d id new := by
  intro ok
  obtain ⟨settled,others,own⟩ := inside d.path id rfl (ok.enter id)
  have level := level_follow g (d.enter id) (g.targets id)
  have none : closedFrom (d.enter id).found id = [] := ok.unseen id new
  rw [none,List.nil_append] at own
  rw [explore_eq]
  refine ⟨settled.leave level own,?_⟩
  intro x member
  exact others x (List.mem_append_left _ member) fun same => new (same ▸ ok.seen member)

theorem follow_closes (g : Graph) (d : Descent) (targets : List String) : FollowCloses g d targets := by
  apply follow_induction g (FollowCloses g)
  case done =>
    intro d outer id path ok
    rw [follow_nil]
    exact ⟨ok,fun _ _ _ => rfl,by simp [closures]⟩
  case descend =>
    intro d target rest new inside after outer id path ok
    obtain ⟨settled,same⟩ := inside.explore new ok
    have level := level_explore g new
    -- A target not seen is off the path, so it closes nothing.
    have off : target ∉ d.path := fun member => new (ok.seen member)
    obtain ⟨stays,others,own⟩ := after outer id (level.2.trans path) settled
    rw [level.2] at others own
    rw [follow_new g new,closures_outside off]
    refine ⟨stays,fun x member different => (others x member different).trans (same x member),?_⟩
    rw [own,same id (by simp [path])]
  case closing =>
    intro d target rest seen inside after outer id path ok
    have on : target ∈ d.path := by
      rw [ok.aligned]
      exact List.mem_reverse.mpr inside
    obtain ⟨stays,others,own⟩ := after outer id path (ok.close path on)
    rw [follow_close g seen inside,closures_inside on]
    refine ⟨stays,fun x member different => ?_,?_⟩
    · rw [others x member different,closedFrom_close path on,if_neg different,List.append_nil]
    · rw [own,closedFrom_close path on,if_pos rfl,List.append_assoc]
      rfl
  case skip =>
    intro d target rest seen outside after outer id path ok
    have off : target ∉ d.path := by
      rw [ok.aligned]
      exact fun member => outside (List.mem_reverse.mp member)
    rw [follow_skip g seen outside,closures_outside off]
    exact after outer id path ok

theorem Settled.visit (ok : d.Settled g) (id : String) : (d.visit g id).Settled g := by
  rw [Descent.visit]
  split
  · rename_i new
    have inside := follow_closes g (d.enter id) (g.targets id)
    exact (inside.explore new ok).1
  · exact ok

theorem settled_start (g : Graph) : start.Settled g :=
  ⟨rfl,List.Subset.refl _,fun _ _ => rfl,by simp [start]⟩

theorem path_visit (g : Graph) (d : Descent) (id : String) : (d.visit g id).path = d.path := by
  rw [Descent.visit]
  split
  · rename_i new
    exact (level_explore g new).2
  · rfl

end Descent

namespace Graph
open Descent

theorem settled_descent (g : Graph) : g.descent.Settled g ∧ g.descent.path = [] := by
  apply List.foldlRecOn (motive := fun d => d.Settled g ∧ d.path = []) g.ids (Descent.visit g)
  · exact ⟨settled_start g,rfl⟩
  · intro d before id _
    exact ⟨before.1.visit id,(path_visit g d id).trans before.2⟩

/-- All cycles that end with an id are closed by its targets on one path. -/
theorem exists_closures (g : Graph) (id : String) :
    closedFrom g.cycles id = [] ∨ ∃ path, closedFrom g.cycles id = closures path (g.targets id) := by
  obtain ⟨settled,none⟩ := g.settled_descent
  rw [cycles_eq_found]
  by_cases seen : id ∈ g.descent.visited
  · exact .inr (settled.left id seen (by simp [none]))
  · exact .inl (settled.unseen id seen)

/-- The reported cycles that an edge from `u` to `v` may close: those that start with `v` and end with `u`. -/
def closedBy (g : Graph) (u v : String) : List (List String) :=
  g.cycles.filter fun cycle => cycle.head? = some v ∧ cycle.getLast? = some u

theorem count_targets (g : Graph) (u v : String) :
    (g.targets u).count v = g.edges.countP fun e => e.source = u ∧ e.target = v := by
  rw [targets,outgoing,List.count,List.countP_map,List.countP_filter]
  refine List.countP_congr fun e _ => ?_
  simp [and_comm]

theorem closedBy_eq (g : Graph) (u v : String) :
    g.closedBy u v = [] ∨
      ∃ cycle, g.closedBy u v = List.replicate (g.edges.countP fun e => e.source = u ∧ e.target = v) cycle := by
  have parts : g.closedBy u v = (closedFrom g.cycles u).filter (·.head? = some v) := by
    simp [closedBy,closedFrom,List.filter_filter]
  rw [parts,← count_targets]
  rcases g.exists_closures u with none | ⟨path,closed⟩
  · exact .inl (by rw [none,List.filter_nil])
  · rw [closed,closures_filter_head?]
    split
    · exact .inr ⟨_,rfl⟩
    · exact .inl rfl

def ends (cycle : List String) : Option String × Option String := (cycle.getLast?,cycle.head?)

theorem exists_ends {g : Graph} {cycle : List String} (found : cycle ∈ g.cycles) :
    ∃ u v, ends cycle = (some u,some v) := by
  obtain ⟨simple,_⟩ := simple_of_mem_cycles found
  exact ⟨_,_,Prod.ext (List.getLast?_eq_some_getLast simple.nonempty)
    (List.head?_eq_some_head simple.nonempty)⟩

theorem count_ends (g : Graph) (u v : String) :
    (g.cycles.map ends).count (some u,some v) = (g.closedBy u v).length := by
  rw [List.count,List.countP_map,closedBy,← List.countP_eq_length_filter]
  refine List.countP_congr fun cycle _ => ?_
  simp [ends,and_comm]

theorem count_edges (g : Graph) (u v : String) :
    (g.edges.map fun e => (some e.source,some e.target)).count (some u,some v) =
      g.edges.countP fun e => e.source = u ∧ e.target = v := by
  rw [List.count,List.countP_map]
  refine List.countP_congr fun e _ => ?_
  simp

theorem length_cycles_le (g : Graph) : g.cycles.length ≤ g.edges.length := by
  have within : (g.cycles.map ends).Subperm (g.edges.map fun e => (some e.source,some e.target)) := by
    refine List.subperm_ext_iff.mpr fun pair member => ?_
    obtain ⟨cycle,found,rfl⟩ := List.mem_map.mp member
    obtain ⟨u,v,same⟩ := exists_ends found
    rw [same,count_ends,count_edges]
    rcases g.closedBy_eq u v with none | ⟨_,closed⟩
    · simp [none]
    · simp [closed]
  simpa using within.length_le

theorem cycles_of_compute {g : Graph} {factor : Value} {limits : Except SettingError ComplexityLimits}
    {m : Metrics} (computed : Metrics.compute g factor limits = .ok m) : m.cycles = g.cycles.length := by
  obtain ⟨_,_,_,rfl⟩ := Metrics.exists_of_compute computed
  rfl

/-- Each edge closes at most one cycle: the reported cycles that start with `v` and end with `u` are none or
one list as often as edges lead from `u` to `v`. So the figure for cycles is at most that for edges. -/
theorem cycles_closed_once_per_edge :
    (∀ (g : Graph) (u v : String), g.closedBy u v = [] ∨
      ∃ cycle, g.closedBy u v =
        List.replicate (g.edges.countP fun e => e.source = u ∧ e.target = v) cycle) ∧
    ∀ (g : Graph) (factor : Value) (limits : Except SettingError ComplexityLimits) (m : Metrics),
      Metrics.compute g factor limits = .ok m → m.cycles ≤ g.edges.length := by
  refine ⟨closedBy_eq,fun g factor limits m computed => ?_⟩
  rw [cycles_of_compute computed]
  exact g.length_cycles_le

def doubled : Graph := ofPairs ["app"] [("app","lib"),("lib","app"),("lib","app"),("lib","lib")]

example : doubled.closedBy "lib" "app" = [["app","lib"],["app","lib"]] := by decide +kernel

theorem doubled_closed_once_per_edge :
    ∃ m, Metrics.compute doubled (.int 2) (.ok {}) = .ok m ∧ m.cycles ≤ doubled.edges.length := by
  obtain ⟨m,computed⟩ : ∃ m, Metrics.compute doubled (.int 2) (.ok {}) = .ok m :=
    exists_eq_ok (by decide +kernel)
  exact ⟨m,computed,cycles_closed_once_per_edge.2 doubled _ _ m computed⟩

end Graph

end DepAudit
