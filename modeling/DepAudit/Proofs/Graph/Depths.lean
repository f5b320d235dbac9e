import DepAudit.Graph.Depths
import DepAudit.Proofs.Graph.Edges
import DepAudit.Proofs.Table
import Mathlib.Data.List.Nodup

/-! A node resolves when no closed walk leads to it, and its depth is then the number of edges of a longest
walk to it. Each pass keeps that the entries are right and that the waiting nodes are the others; the
last pass leaves nodes that each wait for another one. -/
namespace DepAudit
open Relation

namespace Waiting

private theorem mapM_eq_some {α β : Type} (f : α → Option β) (xs : List α) (ys : List β)
    (mapped : xs.mapM f = some ys) : List.Forall₂ (fun x y => f x = some y) xs ys := by
  induction xs generalizing ys with
  | nil =>
    cases Option.some.inj mapped
    exact .nil
  | cons x xs ih =>
    rw [List.mapM_cons] at mapped
    obtain ⟨y,head,mapped⟩ := Option.bind_eq_some_iff.mp mapped
    obtain ⟨rest,tail,mapped⟩ := Option.bind_eq_some_iff.mp mapped
    cases Option.some.inj mapped
    exact .cons head (ih rest tail)

private theorem mapM_eq_none {α β : Type} (f : α → Option β) (xs : List α)
    (failed : xs.mapM f = none) : ∃ x ∈ xs, f x = none := by
  induction xs with
  | nil => cases failed
  | cons x xs ih =>
    cases head : f x with
    | none => exact ⟨x,by simp,head⟩
    | some y =>
      rw [List.mapM_cons,head] at failed
      cases tail : xs.mapM f with
      | none =>
        obtain ⟨missing,member,none⟩ := ih tail
        exact ⟨missing,.tail x member,none⟩
      | some ys =>
        rw [tail] at failed
        cases failed

theorem foldl_max {α : Type} (f : α → Nat) (xs : List α) (start : Nat) :
    (∀ x ∈ xs, f x ≤ xs.foldl (fun m x => max m (f x)) start) ∧
      start ≤ xs.foldl (fun m x => max m (f x)) start ∧
      (xs.foldl (fun m x => max m (f x)) start = start ∨
        ∃ x ∈ xs, xs.foldl (fun m x => max m (f x)) start = f x) := by
  induction xs generalizing start with
  | nil => simp
  | cons first xs ih =>
    obtain ⟨above,least,top⟩ := ih (max start (f first))
    rw [List.foldl_cons]
    refine ⟨?_,by omega,?_⟩
    · intro x member
      rcases List.mem_cons.mp member with rfl | later
      · omega
      · exact above x later
    · rcases top with same | ⟨x,member,same⟩
      · rcases Nat.le_total start (f first) with below | past
        · exact .inr ⟨first,by simp,by omega⟩
        · exact .inl (by omega)
      · exact .inr ⟨x,.tail first member,same⟩

theorem depth?_eq_some {depths : Table String Nat} {w : Waiting} {depth : Nat}
    (ready : w.depth? depths = some depth) :
    (∀ s ∈ w.sources, ∃ k, depths.get? s = some k ∧ k < depth) ∧
      (depth = 0 ∨ ∃ s ∈ w.sources, ∃ k, depths.get? s = some k ∧ depth = k + 1) := by
  obtain ⟨found,mapped,rfl⟩ := Option.map_eq_some_iff.mp ready
  have related := mapM_eq_some _ _ _ mapped
  obtain ⟨above,_,top⟩ := foldl_max (· + 1) found 0
  constructor
  · intro s member
    obtain ⟨i,bound,rfl⟩ := List.mem_iff_getElem.mp member
    have inside : i < found.length := related.length_eq ▸ bound
    exact ⟨found[i],related.get bound inside,above _ (List.getElem_mem inside)⟩
  · refine top.imp_right fun ⟨k,member,succ⟩ => ?_
    obtain ⟨i,bound,rfl⟩ := List.mem_iff_getElem.mp member
    have inside : i < w.sources.length := related.length_eq ▸ bound
    exact ⟨w.sources[i],List.getElem_mem inside,found[i],related.get inside bound,succ⟩

theorem depth?_eq_none {depths : Table String Nat} {w : Waiting} (waits : w.depth? depths = none) :
    ∃ s ∈ w.sources, depths.get? s = none :=
  mapM_eq_none _ _ (Option.map_eq_none_iff.mp waits)

theorem pass_ready {depths : Table String Nat} {w : Waiting} {depth : Nat} (ws : List Waiting)
    (ready : w.depth? depths = some depth) :
    pass depths (w :: ws) = pass (depths ++ [(w.id,depth)]) ws := by
  simp only [pass,ready]

theorem pass_waits {depths : Table String Nat} {w : Waiting} (ws : List Waiting)
    (waits : w.depth? depths = none) :
    pass depths (w :: ws) = ((pass depths ws).1,w :: (pass depths ws).2) := by
  simp only [pass,waits]

theorem pass_perm (depths : Table String Nat) (ws : List Waiting) :
    ((pass depths ws).1.keys ++ (pass depths ws).2.map Waiting.id).Perm
      (depths.keys ++ ws.map Waiting.id) := by
  induction ws generalizing depths with
  | nil => exact .refl _
  | cons w ws ih =>
    cases resolved : w.depth? depths with
    | some depth =>
      rw [pass_ready ws resolved]
      refine (ih _).trans ?_
      simp [Table.keys]
    | none =>
      rw [pass_waits ws resolved]
      simp only [List.map_cons]
      exact List.perm_middle.trans (((ih depths).cons w.id).trans List.perm_middle.symm)

theorem pass_sublist (depths : Table String Nat) (ws : List Waiting) :
    (pass depths ws).2.Sublist ws := by
  induction ws generalizing depths with
  | nil => exact .slnil
  | cons w ws ih =>
    cases resolved : w.depth? depths with
    | some depth =>
      rw [pass_ready ws resolved]
      exact (ih _).cons w
    | none =>
      rw [pass_waits ws resolved]
      exact (ih depths).cons_cons w

/-- What every entry keeps that is made as soon as its sources have theirs, a pass keeps. -/
theorem pass_keeps {P : Table String Nat → Prop} {ws : List Waiting}
    (keeps : ∀ w ∈ ws, ∀ depths depth, P depths → w.depth? depths = some depth →
      P (depths ++ [(w.id,depth)]))
    {depths : Table String Nat} (before : P depths) : P (pass depths ws).1 := by
  induction ws generalizing depths with
  | nil => exact before
  | cons w ws ih =>
    obtain ⟨here,later⟩ := List.forall_mem_cons.mp keeps
    cases resolved : w.depth? depths with
    | some depth =>
      rw [pass_ready ws resolved]
      exact ih later (here depths depth before resolved)
    | none =>
      rw [pass_waits ws resolved]
      exact ih later before

/-- It holds of the settled table as well. -/
theorem settle_keeps {P : Table String Nat → Prop} {ws : List Waiting}
    (keeps : ∀ w ∈ ws, ∀ depths depth, P depths → w.depth? depths = some depth →
      P (depths ++ [(w.id,depth)]))
    {depths : Table String Nat} (before : P depths) : P (settle depths ws) := by
  fun_induction settle depths ws with
  | case1 depths ws r shorter ih =>
    exact ih (fun w member => keeps w ((pass_sublist depths ws).subset member)) (pass_keeps keeps before)
  | case2 depths ws r idle => exact pass_keeps keeps before

theorem pass_idle {depths : Table String Nat} {ws : List Waiting}
    (idle : ¬(pass depths ws).2.length < ws.length) :
    pass depths ws = (depths,ws) ∧ ∀ w ∈ ws, w.depth? depths = none := by
  induction ws with
  | nil => exact ⟨rfl,by simp⟩
  | cons w ws ih =>
    cases resolved : w.depth? depths with
    | some depth =>
      have shorter := (pass_sublist (depths ++ [(w.id,depth)]) ws).length_le
      rw [pass_ready ws resolved,List.length_cons] at idle
      omega
    | none =>
      rw [pass_waits ws resolved] at idle ⊢
      obtain ⟨same,stuck⟩ := ih (by simpa using idle)
      refine ⟨by rw [same],fun v member => ?_⟩
      rcases List.mem_cons.mp member with rfl | later
      · exact resolved
      · exact stuck v later

/-- The passes end: as many as there are ids lead to the settled table, which one more leaves alone. -/
theorem settle_eq_passes (depths : Table String Nat) (waiting : List Waiting) :
    ∃ passes ≤ waiting.length, ∃ left,
      (fun s : Table String Nat × List Waiting => pass s.1 s.2)^[passes] (depths,waiting) =
        (settle depths waiting,left) ∧
      ¬(pass (settle depths waiting) left).2.length < left.length := by
  fun_induction settle depths waiting with
  | case1 depths waiting r shorter ih =>
    obtain ⟨passes,bound,left,reached,last⟩ := ih
    exact ⟨passes + 1,by omega,left,reached,last⟩
  | case2 depths waiting r idle =>
    obtain ⟨same,_⟩ := pass_idle idle
    refine ⟨0,Nat.zero_le _,waiting,?_,?_⟩
    · simp only [r,same,Function.iterate_zero,id_eq]
    · simpa only [r,same] using idle

end Waiting

namespace Graph
open Waiting

/-- Every entry is the number of edges of a longest walk, on which no closed walk lies. -/
def Sound (g : Graph) (depths : Table String Nat) : Prop :=
  ∀ p ∈ depths, Acc g.Joins p.1 ∧ IsGreatest (walkLengths g.Joins p.1) p.2

structure Resolved (g : Graph) (depths : Table String Nat) (left : List Waiting) : Prop where
  sound : g.Sound depths
  waits : ∀ w ∈ left, ∀ s, s ∈ w.sources ↔ g.Joins s w.id
  parts : (depths.keys ++ left.map Waiting.id).Perm g.ids

theorem Sound.append {g : Graph} {depths : Table String Nat} {w : Waiting} {depth : Nat}
    (sound : g.Sound depths) (waits : ∀ s, s ∈ w.sources ↔ g.Joins s w.id)
    (ready : w.depth? depths = some depth) : g.Sound (depths ++ [(w.id,depth)]) := by
  intro p member
  rcases List.mem_append.mp member with old | new
  · exact sound p old
  · cases List.mem_singleton.mp new
    obtain ⟨above,top⟩ := depth?_eq_some ready
    have entry {s : String} {k : Nat} (found : depths.get? s = some k) :=
      sound (s,k) (Table.mem_of_get? found)
    constructor
    · refine ⟨_,fun s step => ?_⟩
      obtain ⟨k,found,_⟩ := above s ((waits s).mpr step)
      exact (entry found).1
    · refine isGreatest_walkLengths ?_ (top.imp_right ?_)
      · intro s step
        obtain ⟨k,found,less⟩ := above s ((waits s).mpr step)
        exact ⟨k,(entry found).2,less⟩
      · rintro ⟨s,member,k,found,succ⟩
        exact ⟨s,(waits s).mp member,k,(entry found).2,succ⟩

theorem Sound.pass {g : Graph} {depths : Table String Nat} {ws : List Waiting}
    (sound : g.Sound depths) (waits : ∀ w ∈ ws, ∀ s, s ∈ w.sources ↔ g.Joins s w.id) :
    g.Sound (pass depths ws).1 :=
  pass_keeps (fun w member _ _ old ready => Sound.append old (waits w member) ready) sound

theorem Resolved.pass {g : Graph} {depths : Table String Nat} {left : List Waiting}
    (ok : Resolved g depths left) : Resolved g (pass depths left).1 (pass depths left).2 :=
  ⟨ok.sound.pass ok.waits,fun w member => ok.waits w ((pass_sublist depths left).subset member),
    (pass_perm depths left).trans ok.parts⟩

theorem Resolved.passes {g : Graph} {s : Table String Nat × List Waiting} (ok : Resolved g s.1 s.2)
    (n : Nat) : Resolved g ((fun s => Waiting.pass s.1 s.2)^[n] s).1
      ((fun s => Waiting.pass s.1 s.2)^[n] s).2 := by
  induction n generalizing s with
  | zero => exact ok
  | succ n ih => exact ih ok.pass

def waiting (g : Graph) : List Waiting := g.ids.map fun id => ⟨id,g.knownSources id⟩

theorem resolved_start (g : Graph) : Resolved g [] g.waiting := by
  refine ⟨by simp [Sound],?_,by simp [Table.keys,waiting,Function.comp_def]⟩
  intro w member s
  obtain ⟨id,node,rfl⟩ := List.mem_map.mp member
  rw [knownSources,List.mem_filter,mem_sources,List.contains_iff_mem]
  constructor
  · rintro ⟨step,known⟩
    exact ⟨known,node,step⟩
  · rintro ⟨known,_,step⟩
    exact ⟨step,known⟩

theorem exists_resolved (g : Graph) :
    ∃ left, Resolved g g.depths left ∧ ∀ w ∈ left, w.depth? g.depths = none := by
  obtain ⟨passes,_,left,reached,last⟩ := settle_eq_passes [] g.waiting
  have ok := g.resolved_start.passes (s := ([],g.waiting)) passes
  rw [reached] at ok
  exact ⟨left,ok,(pass_idle last).2⟩

theorem nodup_keys_depths (g : Graph) : g.depths.keys.Nodup := by
  obtain ⟨left,ok,_⟩ := g.exists_resolved
  exact (ok.parts.nodup_iff.mpr g.nodup_ids).of_append_left

/-- The nodes with a depth are those to which only finitely long walks lead. -/
theorem mem_keys_depths {g : Graph} {id : String} :
    id ∈ g.depths.keys ↔ id ∈ g.ids ∧ Acc g.Joins id := by
  obtain ⟨left,ok,stuck⟩ := g.exists_resolved
  constructor
  · intro key
    obtain ⟨p,member,rfl⟩ := List.mem_map.mp key
    exact ⟨ok.parts.mem_iff.mp (List.mem_append_left _ key),(ok.sound p member).1⟩
  · rintro ⟨node,ends⟩
    induction ends with
    | intro id _ ih =>
      rcases List.mem_append.mp (ok.parts.mem_iff.mpr node) with key | waits
      · exact key
      · -- The last pass left `w` waiting for a node that has no depth either.
        obtain ⟨w,member,rfl⟩ := List.mem_map.mp waits
        obtain ⟨s,source,none⟩ := depth?_eq_none (stuck w member)
        have step := (ok.waits w member s).mp source
        exact absurd (ih s step step.1) (Table.get?_eq_none_iff.mp none)

theorem get?_depths {g : Graph} {id : String} {depth : Nat} :
    g.depths.get? id = some depth ↔
      id ∈ g.depths.keys ∧ IsGreatest (walkLengths g.Joins id) depth := by
  obtain ⟨left,ok,_⟩ := g.exists_resolved
  have greatest {k : Nat} (found : g.depths.get? id = some k) : IsGreatest (walkLengths g.Joins id) k :=
    (ok.sound _ (Table.mem_of_get? found)).2
  constructor
  · exact fun found => ⟨Table.mem_keys_iff.mpr ⟨depth,found⟩,greatest found⟩
  · rintro ⟨key,longest⟩
    obtain ⟨k,found⟩ := Table.mem_keys_iff.mp key
    rw [found,(greatest found).unique longest]

theorem get?_depths_congr {g h : Graph} (ids : ∀ id, id ∈ g.ids ↔ id ∈ h.ids)
    (leads : g.Leads = h.Leads) (id : String) :
    g.depths.get? id = h.depths.get? id := by
  apply Option.ext
  intro depth
  simp only [get?_depths,mem_keys_depths,ids,Joins.congr ids leads]

theorem depth_lt_length {g : Graph} {id : String} {depth : Nat} (entry : (id,depth) ∈ g.depths) :
    depth < g.nodes.length := by
  obtain ⟨left,ok,_⟩ := g.exists_resolved
  have node : id ∈ g.ids := (mem_keys_depths.mp (List.mem_map_of_mem entry)).1
  -- A longest walk passes no node twice, so it has fewer edges than there are nodes.
  obtain ⟨ends,⟨walk,walks,size⟩,_⟩ := ok.sound _ entry
  have inside : walk ⊆ g.ids := by
    intro place member
    cases (walks.reaches member).cases_head with
    | inl same => exact same ▸ node
    | inr step =>
      obtain ⟨next,step,_⟩ := step
      exact step.1
  have bound : walk.length ≤ g.ids.length := (walks.nodup ends).length_le_of_subset inside
  rw [ids,List.length_map] at bound
  omega

theorem maxDepth_lt_length {g : Graph} (nonempty : g.nodes ≠ []) : g.maxDepth < g.nodes.length := by
  rcases (foldl_max Prod.snd g.depths 0).2.2 with none | ⟨p,entry,same⟩
  · rw [maxDepth,none]
    exact List.length_pos_iff.mpr nonempty
  · rw [maxDepth,same]
    exact depth_lt_length entry

/-- The nodes with a depth are those to which no walk between nodes comes by a closed walk, and the depth
is the number of edges of a longest walk. The passes end after at most one for each node, the table does
not depend on the order of nodes and edges, and no depth reaches the number of nodes. -/
theorem depths_are_longest_walks :
    (∀ (g : Graph) (id : String), id ∈ g.depths.keys ↔ id ∈ g.ids ∧
      ∀ walk, WalkTo g.Joins walk id → ∀ place ∈ walk, ∀ closed, ClosedWalk g.Joins closed →
        place ∉ closed) ∧
    (∀ (g : Graph) (id : String) (depth : Nat), g.depths.get? id = some depth →
      IsGreatest (walkLengths g.Joins id) depth) ∧
    (∀ g : Graph, g.depths.keys.Nodup ∧ ∃ passes ≤ g.nodes.length, ∃ left,
      (fun s : Table String Nat × List Waiting => Waiting.pass s.1 s.2)^[passes] ([],g.waiting) =
        (g.depths,left) ∧ Waiting.pass g.depths left = (g.depths,left)) ∧
    (∀ (nodes others : List Node) (edges moved : List Edge) (metadata also : Table String String),
      nodes.Perm others → edges.Perm moved → ∀ id,
      (build nodes edges metadata).depths.get? id = (build others moved also).depths.get? id) ∧
    ∀ g : Graph, g.nodes ≠ [] → g.maxDepth < g.nodes.length := by
  refine ⟨?_,?_,?_,?_,fun g nonempty => maxDepth_lt_length nonempty⟩
  · intro g id
    rw [mem_keys_depths,acc_joins_iff]
    refine and_congr_right fun _ => ⟨?_,?_⟩
    · intro acyclic walk walks place member closed loop inside
      exact acyclic place (walks.reaches member) (loop.returns inside)
    · intro acyclic place reaches loop
      obtain ⟨walk,walks⟩ := exists_walk reaches
      obtain ⟨closed,closes,inside⟩ := exists_closedWalk loop
      exact acyclic _ walks place (List.mem_cons_self ..) closed closes inside
  · exact fun g id depth found => (get?_depths.mp found).2
  · intro g
    obtain ⟨passes,bound,left,reached,last⟩ := settle_eq_passes [] g.waiting
    have few : g.waiting.length = g.nodes.length := by simp [waiting,ids]
    exact ⟨g.nodup_keys_depths,passes,few ▸ bound,left,reached,(pass_idle last).1⟩
  · intro nodes others edges moved metadata also samenodes sameedges id
    exact get?_depths_congr (ids_build_of_perm samenodes edges moved metadata also)
      (leads_build_of_perm sameedges nodes others metadata also) id

def ladder : Graph :=
  ofPairs ["c","b","a"] [("ghost","a"),("a","b"),("b","c"),("a","c"),("b","nowhere")]

theorem ladder_has_longest_walk :
    ladder.depths.get? "c" = some 2 ∧ IsGreatest (walkLengths ladder.Joins "c") 2 ∧
      ladder.nodes ≠ [] ∧ ladder.maxDepth < ladder.nodes.length := by
  have found : ladder.depths.get? "c" = some 2 := by decide +kernel
  have nonempty : ladder.nodes ≠ [] := by decide
  obtain ⟨_,longest,_,_,bounded⟩ := depths_are_longest_walks
  exact ⟨found,longest ladder "c" 2 found,nonempty,bounded ladder nonempty⟩

end Graph

end DepAudit
