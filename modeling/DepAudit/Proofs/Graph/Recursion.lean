import DepAudit.Proofs.Graph.Completion

/-! The search for cycles by recursion over the targets of each id. It ends since every id is entered once and
then brings its own edges only. The steps of the search with a stack of targets run through the same
states: where the recursion returns from an id, the stack has lost the targets of this id. -/
namespace DepAudit

/-- A recursive search under way: the ids seen, those that are being searched from, also as a path with the
outermost first, and the cycles in the order in which they are found. -/
structure Descent where
  visited : List String
  onStack : List String
  path : List String
  found : List (List String)
  deriving DecidableEq, Repr

namespace Descent

def start : Descent := ⟨[],[],[],[]⟩

def enter (d : Descent) (id : String) : Descent :=
  { d with visited := id :: d.visited, onStack := id :: d.onStack, path := d.path ++ [id] }

def leave (d : Descent) (id : String) : Descent :=
  { d with onStack := d.onStack.erase id, path := d.path.dropLast }

def close (d : Descent) (target : String) : Descent :=
  { d with found := d.found ++ [d.path.drop (d.path.idxOf target)] }

abbrev Later (d : Descent) := {later : Descent // d.visited ⊆ later.visited}

def unseen (g : Graph) (d : Descent) : Nat := g.edges.countP fun e => e.source ∉ d.visited

theorem unseen_enter (g : Graph) {d : Descent} {id : String} (new : id ∉ d.visited) :
    (d.enter id).unseen g + (g.targets id).length = d.unseen g := by
  rw [Graph.targets,List.length_map]
  exact CycleSearch.countP_unseen new g.edges

theorem unseen_le (g : Graph) {d later : Descent} (wide : d.visited ⊆ later.visited) :
    later.unseen g ≤ d.unseen g := by
  refine List.countP_mono_left fun e _ new => ?_
  simp only [decide_eq_true_eq] at new ⊢
  exact fun old => new (wide old)

mutual

def explore (g : Graph) (d : Descent) (id : String) (_ : id ∉ d.visited) : Later d :=
  let ⟨inner,wide⟩ := follow g (d.enter id) (g.targets id)
  ⟨inner.leave id,fun _ seen => wide (.tail id seen)⟩
termination_by (d.unseen g,1)
decreasing_by
  rw [unseen_enter g ‹id ∉ d.visited›]
  exact .right _ Nat.zero_lt_one

/-- Goes through targets in order: searches from those not seen, and reports a cycle for each on the path. -/
def follow (g : Graph) (d : Descent) (targets : List String) : Later d :=
  match targets with
  | [] => ⟨d,List.Subset.refl _⟩
  | target :: rest =>
    if new : target ∉ d.visited then
      let ⟨inner,wide⟩ := explore g d target new
      let ⟨outer,wider⟩ := follow g inner rest
      ⟨outer,List.Subset.trans wide wider⟩
    else if target ∈ d.onStack then
      let ⟨later,wide⟩ := follow g (d.close target) rest
      ⟨later,wide⟩
    else follow g d rest
termination_by (d.unseen g + targets.length,0)
decreasing_by
  · exact .left _ _ (Nat.lt_add_of_pos_right (Nat.succ_pos _))
  · exact .left _ _ (Nat.add_lt_add_of_le_of_lt (unseen_le g wide) (Nat.lt_succ_self _))
  · exact .left _ _ (Nat.lt_succ_self _)
  · exact .left _ _ (Nat.lt_succ_self _)

end

theorem explore_eq (g : Graph) {d : Descent} {id : String} (new : id ∉ d.visited) :
    (explore g d id new).1 = (follow g (d.enter id) (g.targets id)).1.leave id := by
  rw [explore]

theorem follow_nil (g : Graph) (d : Descent) : (follow g d []).1 = d := by
  rw [follow]

theorem follow_new (g : Graph) {d : Descent} {target : String} {rest : List String}
    (new : target ∉ d.visited) :
    (follow g d (target :: rest)).1 = (follow g (explore g d target new).1 rest).1 := by
  rw [follow,dif_pos new]

theorem follow_close (g : Graph) {d : Descent} {target : String} {rest : List String}
    (seen : ¬target ∉ d.visited) (inside : target ∈ d.onStack) :
    (follow g d (target :: rest)).1 = (follow g (d.close target) rest).1 := by
  rw [follow,dif_neg seen,if_pos inside]

theorem follow_skip (g : Graph) {d : Descent} {target : String} {rest : List String}
    (seen : ¬target ∉ d.visited) (outside : target ∉ d.onStack) :
    (follow g d (target :: rest)).1 = (follow g d rest).1 := by
  rw [follow,dif_neg seen,if_neg outside]

/-- Induction along the recursion, with a search from an id as one through its targets. -/
theorem follow_induction (g : Graph) (P : Descent → List String → Prop) (done : ∀ d, P d [])
    (descend : ∀ d target rest new, P (d.enter target) (g.targets target) →
      P (explore g d target new).1 rest → P d (target :: rest))
    (closing : ∀ d target rest, ¬target ∉ d.visited → target ∈ d.onStack →
      P (d.close target) rest → P d (target :: rest))
    (skip : ∀ d target rest, ¬target ∉ d.visited → target ∉ d.onStack → P d rest → P d (target :: rest))
    (d : Descent) (targets : List String) : P d targets := by
  apply follow.induct g (fun d id _ => P (d.enter id) (g.targets id)) P
  case case1 => exact fun d id new inner wide result inside => inside
  case case2 => exact done
  case case3 =>
    intro d target rest new inner wide result outer wider last inside after
    refine descend d target rest new inside ?_
    rw [result]
    exact after
  case case4 => exact fun d target rest seen inside later wide result => closing d target rest seen inside
  case case5 => exact skip

def visit (g : Graph) (d : Descent) (id : String) : Descent :=
  if new : id ∉ d.visited then (explore g d id new).1 else d

def Level (d other : Descent) : Prop := d.onStack = other.onStack ∧ d.path = other.path

theorem Level.leave {d inner : Descent} {id : String} (level : Level inner (d.enter id)) :
    Level (inner.leave id) d := by
  obtain ⟨stack,path⟩ := level
  simp [Level,Descent.leave,stack,path,enter]

/-- The search returns from targets to where it stood before. -/
theorem level_follow (g : Graph) (d : Descent) (targets : List String) :
    Level (follow g d targets).1 d := by
  apply follow_induction g fun d targets => Level (follow g d targets).1 d
  case done =>
    intro d
    rw [follow_nil]
    exact ⟨rfl,rfl⟩
  case descend =>
    intro d target rest new inside after
    have within := inside.leave
    rw [← explore_eq g new] at within
    rw [follow_new g new]
    exact ⟨after.1.trans within.1,after.2.trans within.2⟩
  case closing =>
    intro d target rest seen inside after
    rw [follow_close g seen inside]
    exact after
  case skip =>
    intro d target rest seen outside after
    rw [follow_skip g seen outside]
    exact after

theorem level_explore (g : Graph) {d : Descent} {id : String} (new : id ∉ d.visited) :
    Level (explore g d id new).1 d := by
  rw [explore_eq]
  exact (level_follow g (d.enter id) (g.targets id)).leave

def suspend (d : Descent) (pending : List (List String)) : CycleSearch :=
  ⟨d.visited,d.onStack,pending,d.found⟩

def Aligned (d : Descent) : Prop := d.path = d.onStack.reverse

theorem Aligned.enter {d : Descent} (aligned : d.Aligned) (id : String) : (d.enter id).Aligned := by
  rw [Aligned] at aligned ⊢
  simp [Descent.enter,aligned]

theorem Aligned.of_level {d other : Descent} (aligned : d.Aligned) (level : Level other d) :
    other.Aligned := by
  obtain ⟨stack,path⟩ := level
  rw [Aligned,path,stack]
  exact aligned

end Descent

def Graph.descent (g : Graph) : Descent := g.ids.foldl (Descent.visit g) .start

namespace CycleSearch

variable {targets : String → List String} {starts : List String}

def Comes (targets : String → List String) (s later : CycleSearch) : Prop :=
  ∃ n, (step targets)^[n] s = later

theorem Comes.refl (s : CycleSearch) : Comes targets s s := ⟨0,rfl⟩

theorem Comes.step {s next later : CycleSearch} (first : s.step targets = next)
    (rest : Comes targets next later) : Comes targets s later := by
  obtain ⟨n,reached⟩ := rest
  refine ⟨n + 1,?_⟩
  rw [Function.iterate_succ_apply,first]
  exact reached

theorem Comes.trans {s middle later : CycleSearch} (first : Comes targets s middle)
    (rest : Comes targets middle later) : Comes targets s later := by
  obtain ⟨n,rfl⟩ := first
  obtain ⟨m,rfl⟩ := rest
  exact ⟨m + n,Function.iterate_add_apply ..⟩

theorem Coherent.next {s next : CycleSearch} (ok : Coherent targets starts s)
    (first : s.step targets = next) : Coherent targets starts next :=
  first ▸ ok.step

theorem Coherent.comes {s later : CycleSearch} (ok : Coherent targets starts s)
    (comes : Comes targets s later) : Coherent targets starts later := by
  obtain ⟨n,rfl⟩ := comes
  induction n generalizing s with
  | zero => exact ok
  | succ n ih => exact ih ok.step

theorem step_of_idle {s : CycleSearch} (idle : s.pending = []) : s.step targets = s := by
  simp [step,idle]

theorem run_eq_iterate (n : Nat) (s : CycleSearch) : run targets n s = (step targets)^[n] s := by
  induction n generalizing s with
  | zero => rfl
  | succ n ih =>
    rw [run]
    split
    · rename_i idle
      exact (Function.iterate_fixed (step_of_idle (List.isEmpty_iff.mp idle)) _).symm
    · exact ih _

/-- The steps come to one end only. -/
theorem Comes.eq_of_idle {s one other : CycleSearch} (first : Comes targets s one)
    (second : Comes targets s other) (done : one.pending = []) (also : other.pending = []) :
    one = other := by
  obtain ⟨n,rfl⟩ := first
  obtain ⟨m,rfl⟩ := second
  rcases Nat.le_total n m with less | less
  all_goals obtain ⟨k,rfl⟩ := Nat.exists_eq_add_of_le' less
  · rw [Function.iterate_add_apply,Function.iterate_fixed (step_of_idle done)]
  · rw [Function.iterate_add_apply,Function.iterate_fixed (step_of_idle also)]

theorem cycleFrom_eq_drop {path : List String} {target : String} (distinct : path.Nodup)
    (inside : target ∈ path) :
    cycleFrom path target = path.reverse.drop (path.reverse.idxOf target) := by
  obtain ⟨inner,outer,rfl,cycle⟩ := cycleFrom_split inside
  -- One looks from the innermost id and the other from the outermost: they meet as no id is there twice.
  have apart : target ∉ outer.reverse := by
    have once := (List.nodup_append.mp distinct).2.1
    simpa using (List.nodup_cons.mp once).1
  have turned : (inner ++ target :: outer).reverse = outer.reverse ++ target :: inner.reverse := by simp
  rw [cycle,turned,List.idxOf_append_of_notMem apart]
  simp

end CycleSearch

namespace Descent
open CycleSearch

theorem step_leave (g : Graph) (pending : List (List String)) {d inner : Descent} {id : String}
    (level : Level inner (d.enter id)) :
    (inner.suspend ([] :: pending)).step g.targets = (inner.leave id).suspend pending := by
  have stack : inner.onStack = id :: d.onStack := level.1
  simp [CycleSearch.step,suspend,Descent.leave,stack]

theorem step_new (g : Graph) (rest : List String) (pending : List (List String)) {d : Descent}
    {target : String} (new : target ∉ d.visited) :
    (d.suspend ((target :: rest) :: pending)).step g.targets =
      (d.enter target).suspend (g.targets target :: rest :: pending) := by
  simp [CycleSearch.step,CycleSearch.follow,CycleSearch.enter,suspend,Descent.enter,new]

theorem step_close (g : Graph) (rest : List String) (pending : List (List String)) {d : Descent}
    {target : String} (aligned : d.Aligned) (distinct : d.onStack.Nodup) (seen : ¬target ∉ d.visited)
    (inside : target ∈ d.onStack) :
    (d.suspend ((target :: rest) :: pending)).step g.targets =
      (d.close target).suspend (rest :: pending) := by
  rw [Aligned] at aligned
  simp [CycleSearch.step,CycleSearch.follow,suspend,Descent.close,seen,inside,aligned,
    cycleFrom_eq_drop distinct inside]

theorem step_skip (g : Graph) (rest : List String) (pending : List (List String)) {d : Descent}
    {target : String} (seen : ¬target ∉ d.visited) (outside : target ∉ d.onStack) :
    (d.suspend ((target :: rest) :: pending)).step g.targets = d.suspend (rest :: pending) := by
  simp [CycleSearch.step,CycleSearch.follow,suspend,seen,outside]

def StepsExplore (g : Graph) (starts : List String) (d : Descent) (id : String)
    (new : id ∉ d.visited) : Prop :=
  ∀ pending, d.Aligned →
    Coherent g.targets starts ((d.enter id).suspend (g.targets id :: pending)) →
    Comes g.targets ((d.enter id).suspend (g.targets id :: pending))
      ((explore g d id new).1.suspend pending)

def StepsFollow (g : Graph) (starts : List String) (d : Descent) (targets : List String) : Prop :=
  ∀ pending, d.Aligned → Coherent g.targets starts (d.suspend (targets :: pending)) →
    Comes g.targets (d.suspend (targets :: pending)) ((follow g d targets).1.suspend ([] :: pending))

theorem StepsFollow.explore {g : Graph} {starts : List String} {d : Descent} {id : String}
    (inside : StepsFollow g starts (d.enter id) (g.targets id)) (new : id ∉ d.visited) :
    StepsExplore g starts d id new := by
  intro pending aligned ok
  rw [explore_eq]
  have left := step_leave g pending (level_follow g (d.enter id) (g.targets id))
  exact (inside pending (aligned.enter id) ok).trans (.step left (.refl _))

theorem steps_follow (g : Graph) (starts : List String) (d : Descent) (targets : List String) :
    StepsFollow g starts d targets := by
  apply follow_induction g (StepsFollow g starts)
  case done =>
    intro d pending aligned ok
    rw [follow_nil]
    exact .refl _
  case descend =>
    intro d target rest new inside after pending aligned ok
    have step := step_new g rest pending new
    have entered := ok.next step
    have comes := inside.explore new (rest :: pending) aligned entered
    have level := level_explore g new
    have ended := after pending (aligned.of_level level) (entered.comes comes)
    rw [follow_new g new]
    exact .step step (comes.trans ended)
  case closing =>
    intro d target rest seen inside after pending aligned ok
    rw [follow_close g seen inside]
    have step := step_close g rest pending aligned ok.distinct seen inside
    exact .step step (after pending aligned (ok.next step))
  case skip =>
    intro d target rest seen outside after pending aligned ok
    rw [follow_skip g seen outside]
    have step := step_skip g rest pending seen outside
    exact .step step (after pending aligned (ok.next step))

theorem steps_explore (g : Graph) (starts : List String) {d : Descent} {id : String}
    (new : id ∉ d.visited) : StepsExplore g starts d id new :=
  (steps_follow g starts (d.enter id) (g.targets id)).explore new

end Descent

namespace Graph
open CycleSearch

def searched (g : Graph) (nodes : List String) : CycleSearch :=
  nodes.foldl (CycleSearch.visit g.targets g.searchSteps) .start

theorem idle_searched (g : Graph) {nodes : List String} (known : nodes ⊆ g.ids) :
    Idle g.targets g.ids (g.searched nodes) :=
  (idle_visits g nodes known idle_start).1

theorem searched_concat (g : Graph) (nodes : List String) (id : String) :
    g.searched (nodes ++ [id]) = (g.searched nodes).visit g.targets g.searchSteps id := by
  simp [searched]

theorem searched_comes (g : Graph) {nodes : List String} {id : String}
    (new : id ∉ (g.searched nodes).visited) :
    Comes g.targets ((g.searched nodes).enter g.targets id) (g.searched (nodes ++ [id])) := by
  rw [searched_concat,CycleSearch.visit,if_neg new,run_eq_iterate]
  exact ⟨g.searchSteps,rfl⟩

theorem searched_eq_suspend (g : Graph) (nodes : List String) (known : nodes ⊆ g.ids) :
    g.searched nodes = (nodes.foldl (Descent.visit g) .start).suspend [] ∧
      (nodes.foldl (Descent.visit g) .start).Aligned := by
  induction nodes using List.reverseRecOn with
  | nil => exact ⟨rfl,rfl⟩
  | append_singleton nodes id ih =>
    have before : nodes ⊆ g.ids := fun x member => known (List.mem_append_left _ member)
    have node : id ∈ g.ids := known (by simp)
    obtain ⟨same,aligned⟩ := ih before
    have idle := g.idle_searched before
    rw [List.foldl_concat,Descent.visit]
    generalize nodes.foldl (Descent.visit g) .start = d at same aligned ⊢
    by_cases new : id ∉ d.visited
    · have unseen : id ∉ (g.searched nodes).visited := by
        rw [same]
        exact new
      rw [dif_pos new]
      have entered := idle.enter node unseen
      have one := searched_comes g unseen
      rw [same] at entered one
      have other := Descent.steps_explore g g.ids new [] aligned entered
      exact ⟨one.eq_of_idle other (g.idle_searched known).idle rfl,
        aligned.of_level (Descent.level_explore g new)⟩
    · rw [dif_neg new,searched_concat,CycleSearch.visit,same]
      exact ⟨if_pos (Classical.not_not.mp new),aligned⟩

theorem cycles_eq_found (g : Graph) : g.cycles = g.descent.found :=
  congrArg CycleSearch.found (g.searched_eq_suspend g.ids (List.Subset.refl _)).1

/-- The cycles are those of the recursive search, in the order in which it finds them. The steps of each
search from a node come to an end, where the search from the next node begins. -/
theorem cycles_found_by_recursion (g : Graph) :
    g.cycles = g.descent.found ∧
    ∀ front id back, g.ids = front ++ id :: back → id ∉ (g.searched front).visited →
      ∃ n, (step g.targets)^[n] ((g.searched front).enter g.targets id) = g.searched (front ++ [id]) ∧
        (g.searched (front ++ [id])).pending = [] := by
  refine ⟨g.cycles_eq_found,?_⟩
  intro front id back split new
  have known : front ++ [id] ⊆ g.ids := by
    rw [split,List.append_cons front id back]
    exact List.subset_append_left _ _
  obtain ⟨n,reached⟩ := g.searched_comes new
  exact ⟨n,reached,(g.idle_searched known).idle⟩

def twoStarts : Graph := ofPairs ["app","tool"] [("app","lib"),("lib","app"),("tool","lib"),("tool","tool")]

theorem two_starts_found_by_recursion :
    twoStarts.ids = ["app"] ++ "tool" :: [] ∧ "tool" ∉ (twoStarts.searched ["app"]).visited ∧
    ∃ n, (step twoStarts.targets)^[n] ((twoStarts.searched ["app"]).enter twoStarts.targets "tool") =
        twoStarts.searched (["app"] ++ ["tool"]) ∧
      (twoStarts.searched (["app"] ++ ["tool"])).pending = [] := by
  have nodes : twoStarts.ids = ["app"] ++ "tool" :: [] := by decide +kernel
  have new : "tool" ∉ (twoStarts.searched ["app"]).visited := by decide +kernel
  exact ⟨nodes,new,(cycles_found_by_recursion twoStarts).2 ["app"] "tool" [] nodes new⟩

end Graph

end DepAudit
