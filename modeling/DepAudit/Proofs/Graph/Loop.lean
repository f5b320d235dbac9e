import DepAudit.Proofs.Graph.Recursion
import DepAudit.Proofs.Graph.Views
import Mathlib.Data.Finset.Insert
import Mathlib.Data.Finset.Dedup

/-! The search for cycles as one loop inside another, over all that it changes: the ids seen and those it stands
on, both as sets, the path, and for each id on it what is left of its targets. The path is read where it
could be empty or lack an id. What holds at each head of the inner loop shows that it never does; it comes
from the search with a stack of targets, of which each turn of the loop is one step. -/
namespace DepAudit
open CycleSearch

/-- A search under way. The path and the targets left of its ids have the outermost first. -/
structure CycleLoop where
  visited : Finset String
  onStack : Finset String
  path : List String
  iterators : List (List String)
  found : List (List String)
  deriving DecidableEq

inductive PathFault where
  | empty
  | missing (id : String)
  deriving DecidableEq

namespace CycleLoop

def start : CycleLoop := ⟨∅,∅,[],[],[]⟩

def indexed (g : Graph) (id : String) : List String := (g.outgoingIndex.get? id).getD []

def push (l : CycleLoop) (id : String) : CycleLoop :=
  { l with visited := insert id l.visited, onStack := insert id l.onStack, path := l.path ++ [id] }

def begin (g : Graph) (l : CycleLoop) (id : String) : CycleLoop :=
  { l.push id with iterators := [indexed g id] }

def enter (g : Graph) (l : CycleLoop) (id : String) : CycleLoop :=
  { l.push id with iterators := l.iterators ++ [indexed g id] }

def pop (l : CycleLoop) : Except PathFault CycleLoop :=
  match l.path.getLast? with
  | none => .error .empty
  | some id => .ok { l with
      onStack := l.onStack.erase id, path := l.path.dropLast, iterators := l.iterators.dropLast }

def close (l : CycleLoop) (id : String) : Except PathFault CycleLoop :=
  match l.path.idxOf? id with
  | none => .error (.missing id)
  | some i => .ok { l with found := l.found ++ [l.path.drop i] }

def turn (g : Graph) (l : CycleLoop) (left : List String) : Except PathFault CycleLoop :=
  match left with
  | [] => l.pop
  | target :: rest =>
    let l := { l with iterators := l.iterators.dropLast ++ [rest] }
    if target ∉ l.visited then .ok (l.enter g target)
    else if target ∈ l.onStack then l.close target
    else .ok l

/-- Where the search stands: in front of the start nodes that are left, or at the head of the inner loop with
those that are left after it. -/
inductive Point where
  | between (starts : List String) (l : CycleLoop)
  | head (starts : List String) (l : CycleLoop)
  | failed (fault : PathFault)
  deriving DecidableEq

def next (g : Graph) : Point → Point
  | .between [] l => .between [] l
  | .between (id :: starts) l => if id ∈ l.visited then .between starts l else .head starts (l.begin g id)
  | .head starts l =>
    match l.iterators.getLast? with
    | none => .between starts l
    | some left =>
      match l.turn g left with
      | .ok l => .head starts l
      | .error fault => .failed fault
  | .failed fault => .failed fault

def point (g : Graph) (n : Nat) : Point := (next g)^[n] (.between g.ids start)

/-- What holds at each head of the inner loop. -/
structure Consistent (g : Graph) (l : CycleLoop) : Prop where
  level : l.iterators.length = l.path.length
  distinct : l.path.Nodup
  stacked : l.onStack = l.path.toFinset
  seen : l.onStack ⊆ l.visited
  linked : l.path.IsChain g.Leads
  explored : ∀ id ∈ l.visited, id ∉ l.path → ∀ target, g.Leads id target → target ∈ l.visited

theorem indexed_eq_targets (g : Graph) (id : String) : indexed g id = g.targets id :=
  g.getD_get?_outgoingIndex id

end CycleLoop

namespace CycleSearch
open CycleLoop

def toLoop (s : CycleSearch) : CycleLoop :=
  ⟨s.visited.toFinset,s.path.toFinset,s.path.reverse,s.pending.reverse,s.found⟩

variable {g : Graph} {starts : List String} {s : CycleSearch}

theorem toLoop_enter (id : String) : (s.enter g.targets id).toLoop = s.toLoop.enter g id := by
  simp [toLoop,CycleSearch.enter,CycleLoop.enter,push,indexed_eq_targets]

theorem toLoop_begin (idle : s.pending = []) (id : String) :
    (s.enter g.targets id).toLoop = s.toLoop.begin g id := by
  simp [toLoop,CycleSearch.enter,CycleLoop.begin,push,indexed_eq_targets,idle]

theorem getLast?_iterators {left : List String} {rest : List (List String)}
    (next : s.pending = left :: rest) : s.toLoop.iterators.getLast? = some left := by
  simp [toLoop,next]

theorem pop_toLoop {id : String} {outer : List String} {rest : List (List String)}
    (next : s.pending = [] :: rest) (path : s.path = id :: outer) (distinct : s.path.Nodup) :
    s.toLoop.pop = .ok { s with path := s.path.tail, pending := rest }.toLoop := by
  rw [path,List.nodup_cons] at distinct
  simp [toLoop,pop,next,path,distinct.1]

theorem close_toLoop {target : String} (distinct : s.path.Nodup) (onPath : target ∈ s.path) :
    s.toLoop.close target = .ok { s with found := s.found ++ [cycleFrom s.path target] }.toLoop := by
  have inside : target ∈ s.path.reverse := List.mem_reverse.mpr onPath
  have place : s.path.reverse.idxOf? target = some (s.path.reverse.idxOf target) :=
    List.findIdx?_eq_some_of_exists ⟨target,inside,beq_self_eq_true target⟩
  simp only [toLoop,close,place,cycleFrom_eq_drop distinct onPath]

/-- Each turn of the loop is a step of the search with a stack, and never fails. -/
theorem turn_toLoop (ok : Coherent g.targets starts s) {left : List String} {rest : List (List String)}
    (next : s.pending = left :: rest) : s.toLoop.turn g left = .ok (s.step g.targets).toLoop := by
  cases left with
  | nil =>
    -- The path is as long as the stack of targets, so there is an id to leave.
    have level := ok.frames.length_eq
    rw [next] at level
    obtain ⟨id,outer,path⟩ := List.exists_cons_of_length_eq_add_one level.symm
    rw [turn,pop_toLoop next path ok.distinct]
    simp [CycleSearch.step,next]
  | cons target others =>
    let t : CycleSearch := { s with pending := others :: rest }
    have shorter : { s.toLoop with iterators := s.toLoop.iterators.dropLast ++ [others] } = t.toLoop := by
      simp [toLoop,next,t]
    have step : s.step g.targets = s.follow g.targets target (others :: rest) := by
      simp [CycleSearch.step,next]
    have seen : target ∈ t.toLoop.visited ↔ target ∈ s.visited := List.mem_toFinset
    have onPath : target ∈ t.toLoop.onStack ↔ target ∈ s.path := List.mem_toFinset
    rw [turn,shorter,step,follow]
    simp only [seen,onPath]
    split
    · exact congrArg Except.ok (toLoop_enter target).symm
    · split
      · rename_i inside
        exact close_toLoop (s := t) ok.distinct inside
      · rfl

end CycleSearch

namespace CycleLoop

variable {g : Graph}

theorem consistent_toLoop {starts : List String} {s : CycleSearch}
    (ok : Coherent g.targets starts s) : Consistent g s.toLoop where
  level := by simpa [toLoop] using ok.frames.length_eq
  distinct := List.nodup_reverse.mpr ok.distinct
  stacked := List.toFinset_reverse.symm
  seen := fun id member => List.mem_toFinset.mpr (ok.seen id (List.mem_toFinset.mp member))
  linked := by
    have linked := ok.linked
    simp only [Graph.mem_targets] at linked
    exact List.isChain_reverse.mpr linked
  explored := by
    intro id seen off target edge
    have off : id ∉ s.path := fun inside => off (List.mem_reverse.mpr inside)
    exact List.mem_toFinset.mpr
      (ok.explored id (List.mem_toFinset.mp seen) off target (Graph.mem_targets.mpr edge))

inductive Mirrors (g : Graph) : Point → Prop
  | between {front starts : List String} (nodes : g.ids = front ++ starts) :
    Mirrors g (.between starts (g.searched front).toLoop)
  | head {front starts : List String} {id : String} {s : CycleSearch}
    (nodes : g.ids = front ++ id :: starts) (new : id ∉ (g.searched front).visited)
    (comes : Comes g.targets ((g.searched front).enter g.targets id) s) :
    Mirrors g (.head starts s.toLoop)

section

variable {front starts : List String} {id : String}

theorem idle_front (nodes : g.ids = front ++ starts) : Idle g.targets g.ids (g.searched front) :=
  g.idle_searched (nodes ▸ List.subset_append_left front starts)

theorem coherent_head {s : CycleSearch} (nodes : g.ids = front ++ id :: starts)
    (new : id ∉ (g.searched front).visited)
    (comes : Comes g.targets ((g.searched front).enter g.targets id) s) :
    Coherent g.targets g.ids s := by
  have node : id ∈ g.ids := by simp [nodes]
  exact ((idle_front nodes).enter node new).comes comes

theorem searched_of_seen (seen : id ∈ (g.searched front).visited) :
    g.searched (front ++ [id]) = g.searched front := by
  rw [g.searched_concat,CycleSearch.visit,if_pos seen]

theorem next_between (nodes : g.ids = front ++ id :: starts) :
    next g (.between (id :: starts) (g.searched front).toLoop) =
      if id ∈ (g.searched front).visited then .between starts (g.searched (front ++ [id])).toLoop
      else .head starts ((g.searched front).enter g.targets id).toLoop := by
  have seen : id ∈ (g.searched front).toLoop.visited ↔ id ∈ (g.searched front).visited :=
    List.mem_toFinset
  rw [next,toLoop_begin (idle_front nodes).idle]
  simp only [seen]
  split
  · rename_i old
    rw [searched_of_seen old]
  · rfl

theorem next_head_of_idle {s : CycleSearch} (idle : s.pending = []) :
    next g (.head starts s.toLoop) = .between starts s.toLoop := by
  simp [next,toLoop,idle]

theorem next_head_of_busy {s : CycleSearch} (ok : Coherent g.targets g.ids s) (busy : s.pending ≠ []) :
    next g (.head starts s.toLoop) = .head starts (s.step g.targets).toLoop := by
  obtain ⟨left,rest,pending⟩ := List.exists_cons_of_ne_nil busy
  simp only [next,getLast?_iterators pending,turn_toLoop ok pending]

theorem Mirrors.next {p : Point} (mirrors : Mirrors g p) : Mirrors g (next g p) := by
  cases mirrors with
  | @between front starts nodes =>
    cases starts with
    | nil => exact .between nodes
    | cons id starts =>
      rw [next_between nodes]
      split
      · exact .between (nodes.trans (List.append_cons front id starts))
      · rename_i new
        exact .head nodes new (.refl _)
  | @head front starts id s nodes new comes =>
    by_cases idle : s.pending = []
    · have split := nodes.trans (List.append_cons front id starts)
      have same : s = g.searched (front ++ [id]) :=
        comes.eq_of_idle (g.searched_comes new) idle (idle_front split).idle
      rw [next_head_of_idle idle,same]
      exact .between split
    · rw [next_head_of_busy (coherent_head nodes new comes) idle]
      exact .head nodes new (comes.trans (.step rfl (.refl _)))

end

theorem mirrors_point (g : Graph) (n : Nat) : Mirrors g (point g n) := by
  induction n with
  | zero => exact .between (show g.ids = [] ++ g.ids from rfl)
  | succ n ih =>
    rw [point,Function.iterate_succ_apply']
    exact ih.next

/-- The inner loop comes to where the search with a stack ends. -/
theorem exists_next_run (n : Nat) (starts : List String) {s : CycleSearch}
    (ok : Coherent g.targets g.ids s) :
    ∃ m, (next g)^[m] (.head starts s.toLoop) = .head starts (run g.targets n s).toLoop := by
  induction n generalizing s with
  | zero => exact ⟨0,rfl⟩
  | succ n ih =>
    rw [run]
    split
    · exact ⟨0,rfl⟩
    · rename_i busy
      obtain ⟨m,later⟩ := ih ok.step
      refine ⟨m + 1,?_⟩
      rw [Function.iterate_succ_apply,next_head_of_busy ok (mt List.isEmpty_iff.mpr busy),later]

/-- The search from each start node comes to an end, in front of the next one. -/
theorem exists_next_start {front starts : List String} {id : String} (nodes : g.ids = front ++ id :: starts) :
    ∃ n, (next g)^[n] (.between (id :: starts) (g.searched front).toLoop) =
      .between starts (g.searched (front ++ [id])).toLoop := by
  by_cases new : id ∉ (g.searched front).visited
  · obtain ⟨m,ran⟩ := exists_next_run g.searchSteps starts (coherent_head nodes new (.refl _))
    have last : run g.targets g.searchSteps ((g.searched front).enter g.targets id) =
        g.searched (front ++ [id]) := by
      rw [g.searched_concat,CycleSearch.visit,if_neg new]
    have idle := (idle_front (nodes.trans (List.append_cons front id starts))).idle
    refine ⟨1 + m + 1,?_⟩
    rw [Function.iterate_succ_apply,next_between nodes,if_neg new,Function.iterate_add_apply,ran,last,
      Function.iterate_one,next_head_of_idle idle]
  · refine ⟨1,?_⟩
    rw [Function.iterate_one,next_between nodes,if_pos (Classical.not_not.mp new)]

theorem exists_next_end {front starts : List String} (nodes : g.ids = front ++ starts) :
    ∃ n, (next g)^[n] (.between starts (g.searched front).toLoop) = .between [] g.search.toLoop := by
  induction starts generalizing front with
  | nil =>
    obtain rfl : g.ids = front := nodes.trans (List.append_nil front)
    exact ⟨0,rfl⟩
  | cons id starts ih =>
    obtain ⟨n,first⟩ := exists_next_start nodes
    obtain ⟨m,others⟩ := ih (nodes.trans (List.append_cons front id starts))
    exact ⟨m + n,by rw [Function.iterate_add_apply,first,others]⟩

theorem empty_between {starts : List String} {l : CycleLoop} (mirrors : Mirrors g (.between starts l)) :
    l.path = [] ∧ l.onStack = ∅ ∧
      ∀ id ∈ l.visited, ∀ target, g.Leads id target → target ∈ l.visited := by
  cases mirrors with
  | between nodes =>
    have ok := idle_front nodes
    have none := ok.path_eq_nil
    refine ⟨by simp [toLoop,none],by simp [toLoop,none],?_⟩
    exact fun id seen => (consistent_toLoop ok.toCoherent).explored id seen (by simp [toLoop,none])

end CycleLoop

namespace Graph
open CycleLoop

/-- Wherever the search comes, it stands in front of a start node or at a head of the inner loop: an id looked up
on the path is there, and an id is left only where the path has one. At each head the path and the
iterators have one length, no id is on the path twice, the path holds what is on the stack, all of it
seen, and goes along edges; an id seen that is off the path has all its targets seen. In front of a start
node nothing is on the path. The search comes to an end, where just the ids that edges lead to from nodes
are seen and the cycles of the graph are found. -/
theorem loop_stays_consistent (g : Graph) :
    (∀ n starts l, point g n = .head starts l → Consistent g l) ∧
    (∀ n starts l, point g n = .between starts l → l.path = [] ∧ l.onStack = ∅ ∧
      ∀ id ∈ l.visited, ∀ target, g.Leads id target → target ∈ l.visited) ∧
    (∀ n fault, point g n ≠ .failed fault) ∧
    (∃ n l, point g n = .between [] l) ∧
    ∀ n l, point g n = .between [] l → (∀ id, id ∈ l.visited ↔ g.Reached id) ∧ l.found = g.cycles := by
  refine ⟨?_,?_,?_,?_,?_⟩
  · intro n starts l here
    have mirrors := mirrors_point g n
    rw [here] at mirrors
    cases mirrors with
    | head nodes new comes => exact consistent_toLoop (coherent_head nodes new comes)
  · intro n starts l here
    exact empty_between (here ▸ mirrors_point g n)
  · intro n fault here
    have mirrors := mirrors_point g n
    rw [here] at mirrors
    cases mirrors
  · obtain ⟨n,ended⟩ := exists_next_end (show g.ids = [] ++ g.ids from rfl)
    exact ⟨n,_,ended⟩
  · intro n l here
    have mirrors := mirrors_point g n
    rw [here] at mirrors
    cases mirrors with
    | @between front _ nodes =>
      obtain rfl : g.ids = front := nodes.trans (List.append_nil front)
      exact ⟨fun id => List.mem_toFinset.trans g.mem_visited_search,rfl⟩

def winding : Graph :=
  ofPairs ["app","tool"] [("app","lib"),("lib","lib"),("lib","app"),("lib","app"),("tool","lib")]

theorem winding_stays_consistent :
    (∃ l, point winding 4 = .head ["tool"] l ∧ l.path = ["app","lib"] ∧ l.iterators = [[],["app"]] ∧
      Consistent winding l) ∧
    (∃ l, point winding 8 = .between ["tool"] l ∧ l.path = [] ∧ l.onStack = ∅ ∧
      ∀ id ∈ l.visited, ∀ target, winding.Leads id target → target ∈ l.visited) ∧
    ∃ l, point winding 12 = .between [] l ∧ (∀ id, id ∈ l.visited ↔ winding.Reached id) ∧
      l.found = winding.cycles := by
  obtain ⟨heads,between,_,_,last⟩ := loop_stays_consistent winding
  let inside : CycleLoop :=
    ⟨{"lib","app"},{"lib","app"},["app","lib"],[[],["app"]],[["lib"],["app","lib"]]⟩
  let after : CycleLoop := ⟨{"lib","app"},∅,[],[],[["lib"],["app","lib"],["app","lib"]]⟩
  let ended : CycleLoop := ⟨{"tool","lib","app"},∅,[],[],[["lib"],["app","lib"],["app","lib"]]⟩
  have fourth : point winding 4 = .head ["tool"] inside := by decide +kernel
  have eighth : point winding 8 = .between ["tool"] after := by decide +kernel
  have twelfth : point winding 12 = .between [] ended := by decide +kernel
  exact ⟨⟨_,fourth,rfl,rfl,heads 4 _ _ fourth⟩,⟨_,eighth,between 8 _ _ eighth⟩,
    ⟨_,twelfth,last 12 _ twelfth⟩⟩

end Graph

end DepAudit
