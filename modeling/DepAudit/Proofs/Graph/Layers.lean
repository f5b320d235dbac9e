import DepAudit.Proofs.Graph.Depths
import Mathlib.Data.List.Basic

/-! Depths resolve in the order of dependency: the entry of a node stands behind those of all nodes that lead
to it and rests on the deepest of them. So the order of entries is a topological one, although it is
neither the order of nodes nor that of depths, and from each node the depths go down to zero one by one. -/
namespace DepAudit.Graph
open Relation Waiting

structure Rests (g : Graph) (front : Table String Nat) (id : String) (depth : Nat) : Prop where
  above : ∀ u, g.Joins u id → ∃ k < depth, (u,k) ∈ front
  top : depth = 0 ∨ ∃ u k, g.Joins u id ∧ (u,k) ∈ front ∧ depth = k + 1

def Layered (g : Graph) (depths : Table String Nat) : Prop :=
  ∀ front id depth back, depths = front ++ (id,depth) :: back → g.Rests front id depth

theorem Layered.append {g : Graph} {depths : Table String Nat} {w : Waiting} {depth : Nat}
    (layered : g.Layered depths) (waits : ∀ s, s ∈ w.sources ↔ g.Joins s w.id)
    (ready : w.depth? depths = some depth) : g.Layered (depths ++ [(w.id,depth)]) := by
  intro front id deep back split
  obtain rfl | ⟨back,last,rfl⟩ := List.eq_nil_or_concat back
  · obtain ⟨rfl,same⟩ := List.append_inj' split rfl
    cases List.singleton_inj.mp same
    obtain ⟨above,top⟩ := depth?_eq_some ready
    constructor
    · intro u step
      obtain ⟨k,found,less⟩ := above u ((waits u).mpr step)
      exact ⟨k,less,Table.mem_of_get? found⟩
    · refine top.imp_right fun ⟨u,member,k,found,succ⟩ => ?_
      exact ⟨u,k,(waits u).mp member,Table.mem_of_get? found,succ⟩
  · rw [List.concat_eq_append,← List.cons_append,← List.append_assoc] at split
    exact layered front id deep back (List.append_inj' split rfl).1

theorem layered_depths (g : Graph) : g.Layered g.depths := by
  refine settle_keeps (fun w member _ _ layered ready => ?_) fun front _ _ _ split => by simp at split
  exact layered.append (g.resolved_start.waits w member) ready

theorem exists_split {g : Graph} {id : String} (key : id ∈ g.depths.keys) :
    ∃ front depth back, g.depths = front ++ (id,depth) :: back ∧ g.Rests front id depth := by
  obtain ⟨⟨_,depth⟩,entry,rfl⟩ := List.mem_map.mp key
  obtain ⟨front,back,split⟩ := List.append_of_mem entry
  exact ⟨front,depth,back,split,g.layered_depths _ _ _ _ split⟩

theorem get?_of_split {g : Graph} {front back : Table String Nat} {id : String} {depth : Nat}
    (split : g.depths = front ++ (id,depth) :: back) :
    g.depths.get? id = some depth ∧ id ∉ front.keys ∧ ∀ p ∈ front, g.depths.get? p.1 = some p.2 := by
  have distinct := g.nodup_keys_depths
  have known (p : String × Nat) (member : p ∈ g.depths) : g.depths.get? p.1 = some p.2 :=
    Table.get?_of_mem distinct member
  refine ⟨known (id,depth) (by simp [split]),Table.not_mem_front (split ▸ distinct),?_⟩
  exact fun p member => known p (by simp [split,member])

/-- An edge between nodes leads from an earlier and lower entry, if it leads to any entry. -/
theorem resolved_before {g : Graph} {u v : String} (step : g.Joins u v) (key : v ∈ g.depths.keys) :
    u ∈ g.depths.keys ∧ g.depths.keys.idxOf u < g.depths.keys.idxOf v ∧
      ∃ k d, g.depths.get? u = some k ∧ g.depths.get? v = some d ∧ k < d := by
  obtain ⟨front,d,back,split,rests⟩ := exists_split key
  obtain ⟨found,new,known⟩ := get?_of_split split
  obtain ⟨k,less,member⟩ := rests.above u step
  have inside : u ∈ front.keys := List.mem_map.mpr ⟨(u,k),member,rfl⟩
  have keys : g.depths.keys = front.keys ++ v :: Table.keys back := by
    rw [split,Table.keys,List.map_append,List.map_cons]
    rfl
  refine ⟨keys ▸ List.mem_append_left _ inside,?_,k,d,known _ member,found,less⟩
  rw [keys,List.idxOf_append_of_mem inside,List.idxOf_append_of_notMem new]
  exact Nat.lt_add_right _ (List.idxOf_lt_length_of_mem inside)

theorem exists_layer_below {g : Graph} {v : String} {depth : Nat}
    (deep : g.depths.get? v = some (depth + 1)) :
    ∃ u, g.Joins u v ∧ g.depths.get? u = some depth := by
  obtain ⟨front,d,back,split,rests⟩ := exists_split (Table.mem_keys_iff.mpr ⟨_,deep⟩)
  obtain ⟨found,_,known⟩ := get?_of_split split
  obtain rfl := Option.some.inj (deep.symm.trans found)
  obtain ⟨u,k,step,member,succ⟩ := rests.top.resolve_left (Nat.succ_ne_zero depth)
  obtain rfl := Nat.succ.inj succ
  exact ⟨u,step,known _ member⟩

theorem exists_walk_from_root {g : Graph} {v : String} {depth : Nat}
    (found : g.depths.get? v = some depth) :
    ∃ walk, WalkTo g.Joins walk v ∧ walk.length = depth + 1 ∧
      ∃ root ∈ walk.head?, g.depths.get? root = some 0 := by
  induction depth generalizing v with
  | zero => exact ⟨[v],⟨.singleton v,rfl⟩,rfl,v,rfl,found⟩
  | succ depth ih =>
    obtain ⟨u,step,above⟩ := exists_layer_below found
    obtain ⟨walk,walks,size,root,first,bottom⟩ := ih above
    refine ⟨walk ++ [v],walks.concat step,by rw [List.length_append,size]; rfl,root,?_,bottom⟩
    rw [List.head?_append,first]
    rfl

theorem exists_layer {g : Graph} {v : String} {depth : Nat} (found : g.depths.get? v = some depth)
    {k : Nat} (bound : k ≤ depth) : ∃ id, g.depths.get? id = some k := by
  induction depth,bound using Nat.le_induction generalizing v with
  | base => exact ⟨v,found⟩
  | succ depth _ ih =>
    obtain ⟨u,_,above⟩ := exists_layer_below found
    exact ih above

theorem exists_deepest {g : Graph} (resolved : g.depths ≠ []) :
    ∃ id, g.depths.get? id = some g.maxDepth := by
  obtain ⟨above,_,top⟩ := foldl_max Prod.snd g.depths 0
  have known (p : String × Nat) (entry : p ∈ g.depths) : g.depths.get? p.1 = some p.2 :=
    Table.get?_of_mem g.nodup_keys_depths entry
  rcases top with zero | ⟨p,entry,deepest⟩
  · obtain ⟨p,entry⟩ := List.exists_mem_of_ne_nil _ resolved
    have bottom : p.2 = 0 := Nat.le_zero.mp (zero ▸ above p entry)
    exact ⟨p.1,by rw [known p entry,bottom,maxDepth,zero]⟩
  · exact ⟨p.1,by rw [known p entry,maxDepth,deepest]⟩

/-- Over an edge between nodes whose end resolves, the start resolves before it and less deep. A node of depth
above zero has a dependent one less deep, so it is the end of a walk of as many edges as its depth says
from a node of depth zero, and where any node resolves, all depths up to the greatest occur. -/
theorem depths_resolve_in_order (g : Graph) :
    (∀ u v, g.Joins u v → v ∈ g.depths.keys →
      u ∈ g.depths.keys ∧ g.depths.keys.idxOf u < g.depths.keys.idxOf v ∧
        ∃ k d, g.depths.get? u = some k ∧ g.depths.get? v = some d ∧ k < d) ∧
    (∀ v d, g.depths.get? v = some d → 0 < d →
      ∃ u, g.Joins u v ∧ g.depths.get? u = some (d - 1)) ∧
    (g.depths ≠ [] → ∀ k ≤ g.maxDepth, ∃ v, g.depths.get? v = some k) ∧
    ∀ v d, g.depths.get? v = some d → ∃ walk, WalkTo g.Joins walk v ∧ walk.length = d + 1 ∧
      ∃ root ∈ walk.head?, g.depths.get? root = some 0 := by
  refine ⟨fun _ _ step key => resolved_before step key,?_,?_,fun _ _ found => exists_walk_from_root found⟩
  · intro v d found positive
    obtain ⟨d,rfl⟩ := Nat.exists_eq_succ_of_ne_zero (Nat.pos_iff_ne_zero.mp positive)
    exact exists_layer_below found
  · intro resolved k bound
    obtain ⟨v,deepest⟩ := exists_deepest resolved
    exact exists_layer deepest bound

/-- The entry of `c` comes behind those of `b` and `a`, against the order of nodes. -/
theorem ladder_resolves_in_order :
    ladder.Joins "b" "c" ∧ "c" ∈ ladder.depths.keys ∧
      ladder.depths.keys.idxOf "b" < ladder.depths.keys.idxOf "c" ∧
      ladder.depths.get? "c" = some 2 ∧ (∃ u, ladder.Joins u "c" ∧ ladder.depths.get? u = some 1) ∧
      ladder.depths ≠ [] ∧ (∀ k ≤ 2, ∃ v, ladder.depths.get? v = some k) ∧
      ∃ walk, WalkTo ladder.Joins walk "c" ∧ walk.length = 3 ∧
        ∃ root ∈ walk.head?, ladder.depths.get? root = some 0 := by
  have step : ladder.Joins "b" "c" :=
    ⟨mem_ids_ofPairs.mpr (by decide),mem_ids_ofPairs.mpr (by decide),leads_ofPairs.mpr (by decide)⟩
  have key : "c" ∈ ladder.depths.keys := by decide +kernel
  have deep : ladder.depths.get? "c" = some 2 := by decide +kernel
  have resolved : ladder.depths ≠ [] := by decide +kernel
  have greatest : ladder.maxDepth = 2 := by decide +kernel
  obtain ⟨before,below,layers,walks⟩ := depths_resolve_in_order ladder
  exact ⟨step,key,(before _ _ step key).2.1,deep,below _ _ deep Nat.two_pos,resolved,
    greatest ▸ layers resolved,walks _ _ deep⟩

/-- A node that depends on itself has no depth, and where no node has one the greatest depth is zero. -/
theorem knot_has_no_layer :
    ¬∀ k ≤ (ofPairs ["a"] [("a","a")]).maxDepth,
      ∃ v, (ofPairs ["a"] [("a","a")]).depths.get? v = some k := by
  intro layers
  obtain ⟨v,found⟩ := layers 0 (Nat.zero_le _)
  have none : (ofPairs ["a"] [("a","a")]).depths = [] := by decide +kernel
  rw [none] at found
  cases found

end DepAudit.Graph
