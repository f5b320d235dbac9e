import DepAudit.Graph.Cycles
import DepAudit.Proofs.Graph.Edges

/-! What each step of a depth-first search keeps. An edge *closes* when a found cycle runs from its end
along the path to its start. From the ids that were left, every walk over edges that do not close comes
to an end: this is what makes a closed walk show up. That the search ends is shown elsewhere. -/
namespace DepAudit
open Relation

namespace CycleSearch

variable {targets : String → List String} {starts : List String}

def Closes (found : List (List String)) (u v : String) : Prop :=
  ∃ cycle ∈ found, cycle.getLast? = some u ∧ cycle.head? = some v

def Onward (targets : String → List String) (found : List (List String)) (v u : String) : Prop :=
  v ∈ targets u ∧ ¬Closes found u v

/-- The targets still to follow from the ids of a path, innermost first. What was followed already is
visited, and the edge to it closes unless it lies further in or was left. -/
inductive Frames (targets : String → List String) (visited : List String)
    (found : List (List String)) : List (List String) → List String → Prop
  | nil : Frames targets visited found [] []
  | cons (left : List String) (id : String) (rest : List (List String)) (outer : List String)
      (remains : left <:+ targets id)
      (followed : ∀ t ∈ targets id,
        t ∈ left ∨ t ∈ visited ∧ (Closes found id t ∨ t ∉ id :: outer))
      (below : Frames targets visited found rest outer) :
      Frames targets visited found (left :: rest) (id :: outer)

/-- What holds between any two steps of a search from some ids. The ids that were left are those visited
that are no longer on the path. -/
structure Coherent (targets : String → List String) (starts : List String) (s : CycleSearch) :
    Prop where
  distinct : s.path.Nodup
  seen : ∀ id ∈ s.path, id ∈ s.visited
  linked : s.path.IsChain fun v u => v ∈ targets u
  frames : Frames targets s.visited s.found s.pending s.path
  explored : ∀ id ∈ s.visited, id ∉ s.path → ∀ t ∈ targets id, t ∈ s.visited
  finished : ∀ id ∈ s.visited, id ∉ s.path → Acc (Onward targets s.found) id
  origin : ∀ id ∈ s.visited, ∃ start ∈ starts, ReflTransGen (fun u v => v ∈ targets u) start id
  genuine : ∀ cycle ∈ s.found,
    SimpleCycle (fun u v => v ∈ targets u) cycle ∧ ∀ id ∈ cycle, id ∈ s.visited

theorem Closes.mono {found larger : List (List String)} (grown : found ⊆ larger) {u v : String}
    (closes : Closes found u v) : Closes larger u v := by
  obtain ⟨cycle,member,ends⟩ := closes
  exact ⟨cycle,grown member,ends⟩

theorem acc_onward_mono {found larger : List (List String)} (grown : found ⊆ larger) {id : String}
    (ends : Acc (Onward targets found) id) : Acc (Onward targets larger) id :=
  Subrelation.accessible (fun step => ⟨step.1,fun closes => step.2 (closes.mono grown)⟩) ends

theorem Frames.mono {visited wider : List String} {found larger : List (List String)}
    {pending : List (List String)} {path : List String}
    (frames : Frames targets visited found pending path) (wide : visited ⊆ wider)
    (grown : found ⊆ larger) : Frames targets wider larger pending path := by
  induction frames with
  | nil => exact .nil
  | cons left id rest outer remains followed _ ih =>
    refine .cons left id rest outer remains (fun t member => ?_) ih
    rcases followed t member with ahead | ⟨old,closes | past⟩
    · exact .inl ahead
    · exact .inr ⟨wide old,.inl (closes.mono grown)⟩
    · exact .inr ⟨wide old,.inr past⟩

theorem Frames.length_eq {visited : List String} {found : List (List String)}
    {pending : List (List String)} {path : List String}
    (frames : Frames targets visited found pending path) : pending.length = path.length := by
  induction frames with
  | nil => rfl
  | cons _ _ _ _ _ _ _ ih => rw [List.length_cons,List.length_cons,ih]

theorem Frames.advance {visited wider : List String} {found larger : List (List String)}
    {target id : String} {others outer : List String} {rest : List (List String)}
    (frames : Frames targets visited found ((target :: others) :: rest) (id :: outer))
    (wide : visited ⊆ wider) (grown : found ⊆ larger) (new : target ∈ wider)
    (settled : Closes larger id target ∨ target ∉ id :: outer) :
    Frames targets wider larger (others :: rest) (id :: outer) := by
  cases frames with
  | cons _ _ _ _ remains followed below =>
    refine .cons others id rest outer ((List.suffix_cons target others).trans remains) ?_
      (below.mono wide grown)
    intro t member
    rcases followed t member with ahead | ⟨old,closes | past⟩
    · rcases List.mem_cons.mp ahead with rfl | later
      · exact .inr ⟨new,settled⟩
      · exact .inl later
    · exact .inr ⟨wide old,.inl (closes.mono grown)⟩
    · exact .inr ⟨wide old,.inr past⟩

theorem Frames.next_mem {visited : List String} {found : List (List String)}
    {target id : String} {others outer : List String} {rest : List (List String)}
    (frames : Frames targets visited found ((target :: others) :: rest) (id :: outer)) :
    target ∈ targets id := by
  cases frames with
  | cons _ _ _ _ remains _ _ => exact remains.subset (by simp)

theorem cycleFrom_cons {id target : String} {path : List String} (different : id ≠ target) :
    cycleFrom (id :: path) target = cycleFrom path target ++ [id] := by
  simp [cycleFrom,different]

theorem cycleFrom_split {path : List String} {target : String} (onPath : target ∈ path) :
    ∃ inner outer, path = inner ++ target :: outer ∧
      cycleFrom path target = (inner ++ [target]).reverse := by
  induction path with
  | nil => simp at onPath
  | cons id path ih =>
    by_cases same : id = target
    · subst id
      exact ⟨[],path,rfl,by simp [cycleFrom]⟩
    · obtain ⟨inner,outer,split,cycle⟩ := ih ((List.mem_cons.mp onPath).resolve_left (Ne.symm same))
      refine ⟨id :: inner,outer,by rw [split,List.cons_append],?_⟩
      rw [cycleFrom_cons same,cycle,List.cons_append,List.reverse_cons]

theorem head?_cycleFrom (path : List String) (target : String) :
    (cycleFrom path target).head? = some target := rfl

theorem getLast?_cycleFrom {id target : String} {outer : List String} (onPath : target ∈ id :: outer) :
    (cycleFrom (id :: outer) target).getLast? = some id := by
  obtain ⟨inner,beyond,split,cycle⟩ := cycleFrom_split onPath
  rw [cycle,List.getLast?_reverse]
  cases inner with
  | nil => exact congrArg some (List.cons.inj split).1.symm
  | cons first inner => exact congrArg some (List.cons.inj split).1.symm

theorem cycleFrom_subset {path : List String} {target id : String} (onPath : target ∈ path)
    (member : id ∈ cycleFrom path target) : id ∈ path := by
  obtain ⟨inner,outer,split,cycle⟩ := cycleFrom_split onPath
  rw [cycle,List.mem_reverse] at member
  rw [split]
  rcases List.mem_append.mp member with within | last
  · exact List.mem_append_left _ within
  · rw [List.mem_singleton.mp last]
    simp

theorem simple_cycleFrom {id target : String} {outer : List String}
    (distinct : (id :: outer).Nodup) (linked : (id :: outer).IsChain fun v u => v ∈ targets u)
    (step : target ∈ targets id) (onPath : target ∈ id :: outer) :
    SimpleCycle (fun u v => v ∈ targets u) (cycleFrom (id :: outer) target) := by
  obtain ⟨inner,beyond,split,cycle⟩ := cycleFrom_split onPath
  have front : inner ++ [target] <+: id :: outer := ⟨beyond,by rw [split]; simp⟩
  refine ⟨by simp [cycleFrom],?_,?_,?_⟩
  · rw [cycle,List.nodup_reverse]
    exact distinct.sublist front.sublist
  · rw [cycle,List.isChain_reverse]
    exact linked.prefix front
  · intro last atEnd first atStart
    rw [getLast?_cycleFrom onPath] at atEnd
    rw [head?_cycleFrom] at atStart
    cases Option.some.inj atEnd
    cases Option.some.inj atStart
    exact step

theorem Coherent.leave {s : CycleSearch} {rest : List (List String)}
    (ok : Coherent targets starts s) (done : s.pending = [] :: rest) :
    Coherent targets starts { s with path := s.path.tail, pending := rest } := by
  obtain ⟨visited,path,pending,found⟩ := s
  obtain ⟨distinct,seen,linked,frames,explored,finished,origin,genuine⟩ := ok
  cases done
  cases frames with
  | cons _ id _ outer _ followed below =>
    -- Every target is visited, and over an edge that does not close it was left before `id`.
    have past (t : String) (member : t ∈ targets id) :
        t ∈ visited ∧ (Closes found id t ∨ t ∉ id :: outer) :=
      (followed t member).resolve_left (by simp)
    have left_or (x : String) (out : x ∉ outer) : x = id ∨ x ∉ id :: outer := by
      by_cases same : x = id
      · exact .inl same
      · exact .inr fun member => (List.mem_cons.mp member).elim same out
    refine ⟨distinct.of_cons,fun x member => seen x (.tail id member),linked.tail,below,?_,?_,
      origin,genuine⟩
    · intro x old out t member
      rcases left_or x out with rfl | before
      · exact (past t member).1
      · exact explored x old before t member
    · intro x old out
      rcases left_or x out with rfl | before
      · refine ⟨_,fun t step => ?_⟩
        obtain ⟨old,closes | out⟩ := past t step.1
        · exact absurd closes step.2
        · exact finished t old out
      · exact finished x old before

theorem Coherent.skip {s : CycleSearch} {target : String} {others : List String}
    {rest : List (List String)} (ok : Coherent targets starts s)
    (next : s.pending = (target :: others) :: rest) (old : target ∈ s.visited)
    (off : target ∉ s.path) : Coherent targets starts { s with pending := others :: rest } := by
  obtain ⟨visited,path,pending,found⟩ := s
  obtain ⟨distinct,seen,linked,frames,explored,finished,origin,genuine⟩ := ok
  cases next
  cases path with
  | nil => cases frames
  | cons id outer =>
    exact ⟨distinct,seen,linked,frames.advance (List.Subset.refl _) (List.Subset.refl _) old (.inr off),
      explored,finished,origin,genuine⟩

theorem Coherent.close {s : CycleSearch} {target : String} {others : List String}
    {rest : List (List String)} (ok : Coherent targets starts s)
    (next : s.pending = (target :: others) :: rest) (onPath : target ∈ s.path) :
    Coherent targets starts
      { s with pending := others :: rest, found := s.found ++ [cycleFrom s.path target] } := by
  obtain ⟨visited,path,pending,found⟩ := s
  obtain ⟨distinct,seen,linked,frames,explored,finished,origin,genuine⟩ := ok
  cases next
  cases path with
  | nil => cases frames
  | cons id outer =>
    have grown : found ⊆ found ++ [cycleFrom (id :: outer) target] := List.subset_append_left _ _
    have closes : Closes (found ++ [cycleFrom (id :: outer) target]) id target :=
      ⟨_,by simp,getLast?_cycleFrom onPath,head?_cycleFrom _ _⟩
    refine ⟨distinct,seen,linked,
      frames.advance (List.Subset.refl _) grown (seen target onPath) (.inl closes),explored,
      fun x old out => acc_onward_mono grown (finished x old out),origin,?_⟩
    intro cycle member
    rcases List.mem_append.mp member with old | new
    · exact genuine cycle old
    · cases List.mem_singleton.mp new
      exact ⟨simple_cycleFrom distinct linked frames.next_mem onPath,
        fun x inside => seen x (cycleFrom_subset onPath inside)⟩

theorem Coherent.enter {s : CycleSearch} {before : List (List String)} {id : String}
    (ok : Coherent targets starts { s with pending := before })
    (frames : Frames targets (id :: s.visited) s.found s.pending s.path) (new : id ∉ s.visited)
    (step : ∀ u ∈ s.path.head?, id ∈ targets u)
    (first : ∃ start ∈ starts, ReflTransGen (fun u v => v ∈ targets u) start id) :
    Coherent targets starts (s.enter targets id) := by
  obtain ⟨visited,path,pending,found⟩ := s
  obtain ⟨distinct,seen,linked,_,explored,finished,origin,genuine⟩ := ok
  have off : id ∉ path := fun onPath => new (seen id onPath)
  have wide : visited ⊆ id :: visited := List.subset_cons_self _ _
  have left_before (x : String) (member : x ∈ id :: visited) (out : x ∉ id :: path) :
      x ∈ visited ∧ x ∉ path := by
    obtain ⟨different,before⟩ := not_or.mp (mt List.mem_cons.mpr out)
    exact ⟨(List.mem_cons.mp member).resolve_left different,before⟩
  refine ⟨List.nodup_cons.mpr ⟨off,distinct⟩,?_,List.isChain_cons.mpr ⟨step,linked⟩,?_,?_,?_,?_,?_⟩
  · intro x member
    rcases List.mem_cons.mp member with rfl | member
    · exact List.mem_cons_self ..
    · exact wide (seen x member)
  · exact .cons _ _ _ _ (List.suffix_refl _) (fun t member => .inl member) frames
  · intro x member out t edge
    obtain ⟨old,before⟩ := left_before x member out
    exact wide (explored x old before t edge)
  · intro x member out
    obtain ⟨old,before⟩ := left_before x member out
    exact finished x old before
  · intro x member
    rcases List.mem_cons.mp member with rfl | old
    · exact first
    · exact origin x old
  · intro cycle member
    obtain ⟨simple,inside⟩ := genuine cycle member
    exact ⟨simple,fun x within => wide (inside x within)⟩

theorem Coherent.descend {s : CycleSearch} {target : String} {others : List String}
    {rest : List (List String)} (ok : Coherent targets starts s)
    (next : s.pending = (target :: others) :: rest) (new : target ∉ s.visited) :
    Coherent targets starts (CycleSearch.enter targets { s with pending := others :: rest } target) := by
  have frames := ok.frames
  obtain ⟨visited,path,pending,found⟩ := s
  cases next
  cases path with
  | nil => cases frames
  | cons id outer =>
    -- A target not visited lies off the path, so its edge need not close.
    have off : target ∉ id :: outer := fun onPath => new (ok.seen target onPath)
    have advanced := frames.advance (List.subset_cons_self target visited) (List.Subset.refl _)
      (List.mem_cons_self ..) (.inr off)
    obtain ⟨start,first,walk⟩ := ok.origin id (ok.seen id (List.mem_cons_self ..))
    refine Coherent.enter ok advanced new ?_ ⟨start,first,walk.tail frames.next_mem⟩
    intro u atHead
    cases Option.some.inj atHead
    exact frames.next_mem

/-- The ways in which one step goes. -/
theorem step_cases {motive : CycleSearch → Prop} {s : CycleSearch} (idle : s.pending = [] → motive s)
    (leave : ∀ rest, s.pending = [] :: rest → motive { s with path := s.path.tail, pending := rest })
    (descend : ∀ target others rest, s.pending = (target :: others) :: rest → target ∉ s.visited →
      motive (CycleSearch.enter targets { s with pending := others :: rest } target))
    (close : ∀ target others rest, s.pending = (target :: others) :: rest → target ∈ s.visited →
      target ∈ s.path →
      motive { s with pending := others :: rest, found := s.found ++ [cycleFrom s.path target] })
    (skip : ∀ target others rest, s.pending = (target :: others) :: rest → target ∈ s.visited →
      target ∉ s.path → motive { s with pending := others :: rest }) :
    motive (s.step targets) := by
  unfold CycleSearch.step
  split
  · rename_i none
    exact idle none
  · rename_i rest done
    exact leave rest done
  · rename_i target others rest next
    simp only [follow]
    split
    · rename_i new
      exact descend target others rest next new
    · rename_i old
      have old : target ∈ s.visited := Classical.not_not.mp old
      split
      · rename_i onPath
        exact close target others rest next old onPath
      · rename_i off
        exact skip target others rest next old off

theorem Coherent.step {s : CycleSearch} (ok : Coherent targets starts s) :
    Coherent targets starts (s.step targets) := by
  apply step_cases
  case idle => exact fun _ => ok
  case leave => exact fun rest done => ok.leave done
  case descend => exact fun target others rest next new => ok.descend next new
  case close => exact fun target others rest next _ onPath => ok.close next onPath
  case skip => exact fun target others rest next old off => ok.skip next old off

theorem Coherent.run {s : CycleSearch} (ok : Coherent targets starts s) (steps : Nat) :
    Coherent targets starts (run targets steps s) := by
  induction steps generalizing s with
  | zero => exact ok
  | succ steps ih =>
    simp only [CycleSearch.run]
    split
    · exact ok
    · exact ih ok.step

end CycleSearch

end DepAudit
